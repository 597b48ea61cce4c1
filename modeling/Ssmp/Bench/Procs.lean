import Mathlib.Data.Fintype.Card
import Mathlib.Algebra.BigOperators.Group.Finset.Basic
import Ssmp.Bench.Roles
import Ssmp.Line
import Ssmp.Lib.Network

/-!
# Bench.Procs — processes and messages of the benchmarks

What `benchmarks/bank.c` and `benchmarks/client_server.c` share: the ids of the servers and of the
applications, the color buffer of a server, and the words of a message.
-/

namespace Ssmp
namespace Bench

open Lib

/-! ## Processes -/

/-- A number of processes and a spacing of the servers with at least one server and one
application. -/
structure Procs where
  numProcs : Nat
  dslPerCore : Nat
  two_le_numProcs : 2 ≤ numProcs
  numProcs_le : numProcs ≤ 255
  two_le_dslPerCore : 2 ≤ dslPerCore

/-- A server and an application. -/
def twoProcs : Procs where
  numProcs := defaultNumProcs
  dslPerCore := defaultDslPerCore
  two_le_numProcs := Nat.le_refl defaultNumProcs
  numProcs_le := by decide
  two_le_dslPerCore := Nat.le_refl defaultDslPerCore

namespace Procs

variable (procs : Procs)

abbrev Id : Type := Fin procs.numProcs

def roles : Roles :=
  assignRoles procs.dslPerCore procs.numProcs

def numDsl : Nat := procs.roles.numDsl.toNat

def numApp : Nat := procs.roles.numApp.toNat

def dslSeq (j : Nat) : Nat := (procs.roles.dslSeq j).toNat

def isDsl (p : procs.Id) : Bool := colorDsl procs.dslPerCore p.val

def isApp (p : procs.Id) : Bool := colorApp1 procs.dslPerCore p.val

/-- The slots of `ssmp_color_buf_init(cbuf, color_app1)`. -/
def cbuf (me : procs.Id) : List procs.Id :=
  (ssmpColorBufInitPlatf me fun id => if colorApp1 procs.dslPerCore id.toNat then 1 else 0).buf

/-- A function that names its partner by an id; no process has an id behind the last. -/
def atId {M σ : Type} (id : Nat) (f : procs.Id → Action procs.Id M σ) :
    Action procs.Id M σ :=
  if h : id < procs.numProcs then f ⟨id, h⟩ else .stop

variable {procs} {p me : procs.Id} {j k : Nat}

theorem isApp_eq : procs.isApp p = !procs.isDsl p := rfl

theorem isApp_iff : procs.isApp p = true ↔ ¬ procs.isDsl p = true := by
  simp [isApp_eq]

theorem ne_of_isApp {p d : procs.Id} (hp : procs.isApp p = true) (hd : procs.isDsl d = true) :
    p ≠ d := by
  rintro rfl
  exact isApp_iff.1 hp hd

@[simp] theorem atId_val {M σ : Type} (f : procs.Id → Action procs.Id M σ) :
    procs.atId p.val f = f p := by
  simp [atId]

/-- A step with a partner that is named by an id. -/
theorem effect_atId {M σ : Type} {N : Network procs.Id M σ} {s t : Network.State procs.Id M σ}
    {id : Nat} {f : procs.Id → Action procs.Id M σ} (h : N.Effect s p (procs.atId id f) t) :
    ∃ q : procs.Id, id = q.val ∧ N.Effect s p (f q) t := by
  unfold atId at h
  split at h
  · exact ⟨_, rfl, h⟩
  · exact False.elim h

/-- A function that names its partner by an id, if it does not stop. -/
theorem exists_of_atId {M σ : Type} {id : Nat} {f : procs.Id → Action procs.Id M σ}
    {act : Action procs.Id M σ} (h : procs.atId id f = act) (hact : act ≠ .stop) :
    ∃ q : procs.Id, id = q.val ∧ f q = act := by
  unfold atId at h
  split at h
  · exact ⟨_, rfl, h⟩
  · exact absurd h.symm hact

theorem dslPerCore_pos : 0 < procs.dslPerCore :=
  Nat.lt_of_lt_of_le (by decide) procs.two_le_dslPerCore

theorem found : procs.roles.Found procs.dslPerCore procs.numProcs procs.numDsl := by
  rcases Roles.found_assignRoles procs.dslPerCore_pos procs.numProcs_le with ⟨d, h⟩
  have hd : procs.numDsl = d := h.numDsl_toNat procs.numProcs_le
  rw [hd]
  exact h

theorem dslSeq_eq (hj : j < procs.numDsl) : procs.dslSeq j = j * procs.dslPerCore :=
  found.dslSeq_toNat procs.numProcs_le hj

theorem numDsl_pos : 0 < procs.numDsl := by
  have hcovers := (@found procs).covers
  have hpos := procs.two_le_numProcs
  by_contra hzero
  rw [show procs.numDsl = 0 by omega, Nat.zero_mul] at hcovers
  omega

/-- Process 1 is an application. -/
theorem isApp_one : procs.isApp ⟨1, procs.two_le_numProcs⟩ = true := by
  have hper := procs.two_le_dslPerCore
  have hmod : 1 % procs.dslPerCore = 1 := Nat.mod_eq_of_lt hper
  simp [isApp, colorApp1, colorDsl, hmod]

theorem dslSeq_zero : procs.dslSeq 0 = 0 := by
  rw [dslSeq_eq numDsl_pos, Nat.zero_mul]

theorem dslSeq_lt (hj : j < procs.numDsl) : procs.dslSeq j < procs.numProcs := by
  rw [dslSeq_eq hj]
  exact found.below j hj

theorem dslSeq_inj (hj : j < procs.numDsl) (hk : k < procs.numDsl)
    (heq : procs.dslSeq j = procs.dslSeq k) : j = k := by
  rw [dslSeq_eq hj, dslSeq_eq hk] at heq
  exact Nat.eq_of_mul_eq_mul_right dslPerCore_pos heq

/-- The entries of `dsl_seq` before the one of `d`. -/
theorem not_before {d : procs.Id} {i : Nat} (hi : i < procs.numDsl)
    (hseq : procs.dslSeq i = d.val) : ¬ ∃ j, j < i ∧ procs.dslSeq j = d.val := by
  rintro ⟨j, hj, heq⟩
  exact absurd (dslSeq_inj (Nat.lt_trans hj hi) hi (heq.trans hseq.symm)) (Nat.ne_of_lt hj)

theorem exists_before_succ {d d' : procs.Id} {i : Nat} (hseq : procs.dslSeq i = d.val)
    (hne : d' ≠ d) :
    (∃ j, j < i + 1 ∧ procs.dslSeq j = d'.val) ↔ ∃ j, j < i ∧ procs.dslSeq j = d'.val := by
  constructor
  · rintro ⟨j, hj, heq⟩
    refine ⟨j, ?_, heq⟩
    by_contra hge
    have hji : j = i := by omega
    rw [hji, hseq] at heq
    exact hne (Fin.ext heq.symm)
  · rintro ⟨j, hj, heq⟩
    exact ⟨j, Nat.lt_succ_of_lt hj, heq⟩

theorem isDsl_dslSeq (hj : j < procs.numDsl) : procs.isDsl ⟨procs.dslSeq j, dslSeq_lt hj⟩ = true :=
  (found.server_iff.2 ⟨j, hj, dslSeq_eq hj⟩).2

/-- Every server is in the table. -/
theorem exists_dslSeq (hp : procs.isDsl p = true) : ∃ j, j < procs.numDsl ∧ procs.dslSeq j = p.val := by
  rcases found.server_iff.1 ⟨p.isLt, hp⟩ with ⟨j, hj, heq⟩
  exact ⟨j, hj, (dslSeq_eq hj).trans heq.symm⟩

/-- A server scans the slots of the applications. -/
theorem mem_cbuf (hme : procs.isDsl me = true) : p ∈ procs.cbuf me ↔ procs.isApp p = true := by
  unfold cbuf
  rw [mem_ssmpColorBufInitPlatf, participants]
  by_cases hp : p = me
  · subst hp
    simp [isApp_iff, hme]
  · cases happ : procs.isApp p with
    | false =>
        have hcolor : colorApp1 procs.dslPerCore p.val = false := happ
        simp only [hp, Int.toNat_natCast, hcolor, if_false, Bool.false_eq_true, ne_eq]
        exact iff_of_false (fun hne => hne rfl) id
    | true =>
        have hcolor : colorApp1 procs.dslPerCore p.val = true := happ
        simp [hp, hcolor]

/-- The loop of `main` counts the applications. -/
theorem numApp_assignRoles {per n : Nat} (hn : n ≤ 255) :
    (assignRoles per n).numApp.toNat = (List.range n).countP fun id => colorApp1 per id := by
  induction n with
  | zero => rfl
  | succ n ih =>
      have hlast := ih (by omega)
      have hle : (List.range n).countP (fun id => colorApp1 per id) ≤ n := by
        simpa using List.countP_le_length (l := List.range n) (p := fun id => colorApp1 per id)
      rw [List.range_succ, List.countP_append, ← hlast]
      cases hcolor : colorDsl per n with
      | true => simp [assignRoles, hcolor, colorApp1]
      | false =>
          simp only [assignRoles, hcolor, colorApp1, Bool.false_eq_true, if_false,
            UInt8.toNat_add, List.countP_singleton, Bool.not_false, if_true]
          exact Nat.mod_eq_of_lt (by rw [hlast]; show _ + 1 < 256; omega)

theorem numApp_eq : procs.numApp = (Finset.univ.filter fun p => procs.isApp p = true).card := by
  rw [numApp, roles, numApp_assignRoles procs.numProcs_le, ← List.map_coe_finRange_eq_range,
    List.countP_map, List.countP_eq_length_filter, Fin.univ_def]
  simp only [Finset.card, Finset.filter, Multiset.filter_coe, Multiset.coe_card]
  congr 1
  refine List.filter_congr ?_
  intro p _
  exact Bool.decide_eq_true.symm

/-! ### Process 0, and the applications in the order of their ids -/

theorem numProcs_pos : 0 < procs.numProcs :=
  Nat.lt_of_lt_of_le Nat.two_pos procs.two_le_numProcs

theorem numProcs_le_256 : procs.numProcs ≤ 256 :=
  Nat.le_succ_of_le procs.numProcs_le

/-- Process 0, a server. -/
def first (procs : Procs) : procs.Id :=
  ⟨0, numProcs_pos⟩

theorem isDsl_first : procs.isDsl procs.first = true := by
  simp [isDsl, first, colorDsl]

theorem pos_of_isApp (h : procs.isApp p = true) : 0 < p.val := by
  have hne := ne_of_isApp h isDsl_first
  exact Nat.pos_of_ne_zero fun hzero => hne (Fin.ext hzero)

/-- The applications with ids below `k`, in the order of the ids. -/
def appsBelow (procs : Procs) (k : Nat) : List procs.Id :=
  (List.range k).filterMap fun c =>
    if h : c < procs.numProcs then if procs.isApp ⟨c, h⟩ then some ⟨c, h⟩ else none else none

theorem appsBelow_of_app (hk : k < procs.numProcs) (happ : procs.isApp ⟨k, hk⟩ = true) :
    procs.appsBelow (k + 1) = procs.appsBelow k ++ [⟨k, hk⟩] := by
  simp [appsBelow, List.range_succ, hk, happ]

theorem appsBelow_of_not (happ : ∀ h : k < procs.numProcs, procs.isApp ⟨k, h⟩ = false) :
    procs.appsBelow (k + 1) = procs.appsBelow k := by
  by_cases hk : k < procs.numProcs
  · simp [appsBelow, List.range_succ, hk, happ hk]
  · simp [appsBelow, List.range_succ, hk]

theorem appsBelow_of_le_one (hk : k ≤ 1) : procs.appsBelow k = [] := by
  rcases Nat.le_one_iff_eq_zero_or_eq_one.1 hk with rfl | rfl
  · rfl
  · rw [appsBelow_of_not]
    · rfl
    · intro h
      have hfirst : (⟨0, h⟩ : procs.Id) = procs.first := rfl
      rw [hfirst, isApp_eq, isDsl_first]
      rfl

theorem mem_appsBelow : p ∈ procs.appsBelow k ↔ p.val < k ∧ procs.isApp p = true := by
  simp only [appsBelow, List.mem_filterMap, List.mem_range]
  constructor
  · rintro ⟨i, hi, hp⟩
    split at hp
    · split at hp
      · cases hp
        exact ⟨hi, ‹_›⟩
      · cases hp
    · cases hp
  · rintro ⟨hk, happ⟩
    exact ⟨p.val, hk, by simp [happ]⟩

end Procs

/-! ## Messages -/

/-- The words `w0`, `w1` and `w2` of a message `M`. -/
structure MsgWords (M : Type) where
  get : Fin 3 → M → Int32
  set : Fin 3 → Int32 → M → M
  get_set : ∀ k v m, get k (set k v m) = v
  get_set_ne : ∀ j k v m, j ≠ k → get j (set k v m) = get j m

/-- Messages of three words. -/
def threeWords : MsgWords (Fin 3 → Int32) where
  get k m := m k
  set k v m := Function.update m k v
  get_set _ _ _ := Function.update_self _ _ _
  get_set_ne _ _ _ _ hne := Function.update_of_ne hne _ _

/-! ### The words of a payload -/

/-- Where the byte of weight `256 ^ i` of a word lies in it. -/
def wordPlace (bigEndian : Bool) (i : Nat) : Nat :=
  if bigEndian then 3 - i else i

theorem wordPlace_lt {bigEndian : Bool} {i : Nat} (hi : i < 4) : wordPlace bigEndian i < 4 := by
  unfold wordPlace
  split <;> omega

theorem wordPlace_wordPlace {bigEndian : Bool} {i : Nat} (hi : i < 4) :
    wordPlace bigEndian (wordPlace bigEndian i) = i := by
  unfold wordPlace
  split <;> omega

/-- The first three words of the payload, in the byte order of the machine. -/
def payloadWords (L : MsgLayout) (hfits : 12 ≤ L.payloadBytes) : MsgWords L.Payload where
  get k m :=
    (UInt32.ofNat (bytesValue 4 fun i =>
      let b := 4 * k.val + wordPlace L.bigEndian i
      if h : b < L.payloadBytes then m ⟨b, h⟩ else 0)).toInt32
  set k v m := fun b =>
    if 4 * k.val ≤ b.val ∧ b.val < 4 * k.val + 4 then
      UInt8.ofNat (v.toUInt32.toNat >>> (8 * wordPlace L.bigEndian (b.val - 4 * k.val)))
    else m b
  get_set k v m := by
    have hvalue : bytesValue 4 (fun i => UInt8.ofNat (v.toUInt32.toNat >>> (8 * i))) =
        v.toUInt32.toNat := by
      rw [bytesValue_ofNat]
      exact Nat.mod_eq_of_lt v.toUInt32.toNat_lt
    rw [← Int32.toInt32_toUInt32 v]
    refine congrArg UInt32.toInt32 ?_
    refine Eq.trans (congrArg UInt32.ofNat ?_) (UInt32.ofNat_toNat (x := v.toUInt32))
    rw [← hvalue]
    refine bytesValue_congr ?_
    intro i hi
    have hk := k.isLt
    have hlt := @wordPlace_lt L.bigEndian i hi
    simp only [Int32.toInt32_toUInt32]
    rw [dif_pos (by omega), if_pos (by omega), Nat.add_sub_cancel_left, wordPlace_wordPlace hi]
  get_set_ne j k v m hne := by
    have hne' : j.val ≠ k.val := fun h => hne (Fin.ext h)
    refine congrArg UInt32.toInt32 (congrArg UInt32.ofNat (bytesValue_congr ?_))
    intro i hi
    have hlt := @wordPlace_lt L.bigEndian i hi
    -- the bytes of another word
    have hout : ¬ (4 * k.val ≤ 4 * j.val + wordPlace L.bigEndian i ∧
        4 * j.val + wordPlace L.bigEndian i < 4 * k.val + 4) := by
      omega
    simp only [hout, if_false]

end Bench
end Ssmp
