import Ssmp.Line
import Ssmp.Memory

/-!
# ColorBuf — `ssmp_color_buf_init_platf` store by store

`Ssmp.Line` describes a color buffer by three lists.  This module follows the function of the two
architectures (`src/arch/x86/ssmp_arch.c` and `src/arch/sparc/ssmp_arch.c`) down to the blocks it
allocates:

* the first loop asks `color` once about every id but the caller's; `color` may have a state of its
  own, so that it answers differently when asked twice,
* the sizes of the three blocks are padded to cache lines, in another way on each architecture,
* the second loop stores through an index of its own.

`init_lists_participants` says that the two loops agree and that no store leaves its block, and
`init_toColorBuf` that the lists of `Ssmp.Line` are what the blocks hold.
-/

namespace Ssmp
namespace ColorInit

/-! ## Blocks -/

/-- `sizeof(ssmp_msg_t*)`, which is also the size of an entry of `buf_state`. -/
def sizeofPtr (wide : Bool) : UInt32 :=
  if wide then 8 else 4

/-- The three arrays of a color buffer. -/
inductive Block where
  | buf
  | bufState
  | fromIds
  deriving DecidableEq

/-- A store of `len` bytes at offset `off` of a block. -/
structure Store where
  block : Block
  off : Nat
  len : Nat

/-- `&p->state` -/
structure StatePtr where
  msg : MsgPtr
  deriving DecidableEq

/-- A color buffer in memory: its count, the sizes of the blocks as allocated, and the entries; an
entry that has not been stored is `none`.  `stores` records the stores made. -/
structure ColorMem where
  numUes : UInt32
  sizeBuf : UInt32
  sizeFrom : UInt32
  buf : Nat → Option MsgPtr
  bufState : Nat → Option StatePtr
  fromIds : Nat → Option UInt8
  stores : List Store

/-- `buf` and `buf_state` are allocated with the same size. -/
def ColorMem.size (m : ColorMem) : Block → UInt32
  | .buf => m.sizeBuf
  | .bufState => m.sizeBuf
  | .fromIds => m.sizeFrom

/-! ## The function -/

section Init

variable {n : Nat} {σ : Type} (me : Fin n) (color : Int → σ → Int32 × σ) (recvBuf : Nat → MsgPtr)

/-- The first loop: `participants` and `num_ues`. -/
def askColors : List (Fin n) → σ → (Fin n → UInt32) → UInt32 → (Fin n → UInt32) × UInt32
  | [], _, participants, numUes => (participants, numUes)
  | ue :: ues, st, participants, numUes =>
      if ue = me then askColors ues st (Function.update participants ue 0) numUes
      else
        let answer := color ue.val st
        let v := answer.1.toUInt32
        askColors ues answer.2 (Function.update participants ue v)
          (if v ≠ 0 then numUes + 1 else numUes)

/-- The size of a block of `numUes` elements of `elem` bytes. -/
def paddedSize (A : Arch) (elem numUes : UInt32) : UInt32 :=
  let size := numUes * elem
  if size % 64 ≠ 0 then
    match A with
    | .x86 => size + (64 - size % 64)
    | .sparc => size + (64 - size % 64) / elem * elem
  else size

/-- One turn of the second loop that finds a participant. -/
def ColorMem.put (ptr : UInt32) (bufNum : Nat) (ue : Fin n) (m : ColorMem) : ColorMem :=
  { m with
    buf := Function.update m.buf bufNum (some (recvBuf ue.val))
    bufState := Function.update m.bufState bufNum (some { msg := recvBuf ue.val })
    fromIds := Function.update m.fromIds bufNum (some (UInt8.ofNat ue.val))
    stores := m.stores ++
      [{ block := .buf, off := bufNum * ptr.toNat, len := ptr.toNat },
        { block := .bufState, off := bufNum * ptr.toNat, len := ptr.toNat },
        { block := .fromIds, off := bufNum, len := 1 }] }

/-- The second loop. -/
def fillBlocks (ptr : UInt32) (participants : Fin n → UInt32) :
    List (Fin n) → Nat → ColorMem → ColorMem
  | [], _, m => m
  | ue :: ues, bufNum, m =>
      if participants ue ≠ 0 then
        fillBlocks ptr participants ues (bufNum + 1) (m.put recvBuf ptr bufNum ue)
      else fillBlocks ptr participants ues bufNum m

/-- The call in state `st` of `color`, with `recvBuf` for `ssmp_recv_buf`; `junk` is what `malloc`
finds in `participants`. -/
def ssmpColorBufInitPlatf (A : Arch) (wide : Bool) (st : σ) (junk : Fin n → UInt32) :
    ColorMem :=
  let ues := List.finRange n
  let asked := askColors me color ues st junk 0
  let ptr := sizeofPtr wide
  fillBlocks recvBuf ptr asked.1 ues 0
    { numUes := asked.2
      sizeBuf := paddedSize A ptr asked.2
      sizeFrom := paddedSize A 1 asked.2
      buf := fun _ => none
      bufState := fun _ => none
      fromIds := fun _ => none
      stores := [] }

/-- The calls of `color` that are made about `ues`, with their answers. -/
def colorCalls : List (Fin n) → σ → List (Fin n × Int32)
  | [], _ => []
  | ue :: ues, st =>
      if ue = me then colorCalls ues st
      else (ue, (color ue.val st).1) :: colorCalls ues (color ue.val st).2

/-- The ids about which the answer was not 0. -/
def accepted (calls : List (Fin n × Int32)) : List (Fin n) :=
  (calls.filter fun call => call.2 ≠ 0).map Prod.fst

end Init

/-! ## The first loop -/

section Ask

variable {n : Nat} {σ : Type} (me : Fin n) (color : Int → σ → Int32 × σ)

/-- Every id but the caller's is asked about, once and in the order of the ids. -/
theorem colorCalls_fst (ues : List (Fin n)) (st : σ) :
    (colorCalls me color ues st).map Prod.fst = ues.filter fun ue => ue ≠ me := by
  induction ues generalizing st with
  | nil => rfl
  | cons ue ues ih =>
      by_cases hue : ue = me
      · simp [colorCalls, hue, ih]
      · simp [colorCalls, hue, ih]

theorem toUInt32_eq_zero {v : Int32} : v.toUInt32 = 0 ↔ v = 0 := by
  constructor
  · intro h
    rw [← Int32.toInt32_toUInt32 v, h]
    rfl
  · rintro rfl
    rfl

/-- An id that is not asked about keeps its entry. -/
theorem askColors_ne {ue : Fin n} {ues : List (Fin n)} (hue : ue ∉ ues) (st : σ)
    (part : Fin n → UInt32) (num : UInt32) : (askColors me color ues st part num).1 ue = part ue := by
  induction ues generalizing st part num with
  | nil => rfl
  | cons ue' ues ih =>
      have hne : ue ≠ ue' := fun h => hue (by simp [h])
      have hrest : ue ∉ ues := fun h => hue (by simp [h])
      simp only [askColors]
      split
      · rw [ih hrest, Function.update_of_ne hne]
      · rw [ih hrest, Function.update_of_ne hne]

/-- The two results of the first loop agree with the answers. -/
theorem askColors_filter {ues : List (Fin n)} (hnodup : ues.Nodup) (st : σ)
    (part : Fin n → UInt32) (num : UInt32) :
    (ues.filter fun ue => (askColors me color ues st part num).1 ue ≠ 0) =
        accepted (colorCalls me color ues st) ∧
      (askColors me color ues st part num).2 =
        num + UInt32.ofNat (accepted (colorCalls me color ues st)).length := by
  induction ues generalizing st part num with
  | nil => simp [askColors, accepted, colorCalls]
  | cons ue ues ih =>
      rcases List.nodup_cons.1 hnodup with ⟨hue, hrest⟩
      by_cases hme : ue = me
      · -- the caller is left out
        have h := ih hrest st (Function.update part ue 0) num
        have hself : (askColors me color ues st (Function.update part ue 0) num).1 ue = 0 := by
          rw [askColors_ne me color hue, Function.update_self]
        simp only [askColors, colorCalls, if_pos hme]
        rw [List.filter_cons_of_neg (by simpa using hself)]
        exact h
      · have hself : ∀ num', (askColors me color ues (color ue.val st).2
            (Function.update part ue (color ue.val st).1.toUInt32) num').1 ue =
            (color ue.val st).1.toUInt32 := by
          intro num'
          rw [askColors_ne me color hue, Function.update_self]
        have h := ih hrest (color ue.val st).2
          (Function.update part ue (color ue.val st).1.toUInt32)
          (if (color ue.val st).1.toUInt32 ≠ 0 then num + 1 else num)
        simp only [askColors, colorCalls, if_neg hme]
        by_cases hv : (color ue.val st).1 = 0
        · have hv' : (color ue.val st).1.toUInt32 = 0 := toUInt32_eq_zero.2 hv
          rw [List.filter_cons_of_neg (by rw [hself]; simpa using hv')]
          rw [if_neg (not_not.2 hv')] at h ⊢
          simpa [accepted, hv] using h
        · have hv' : (color ue.val st).1.toUInt32 ≠ 0 := fun h0 => hv (toUInt32_eq_zero.1 h0)
          rw [List.filter_cons_of_pos (by rw [hself]; simpa using hv')]
          rw [if_pos hv'] at h ⊢
          refine ⟨?_, ?_⟩
          · simpa [accepted, hv] using h.1
          · rw [h.2]
            simp [accepted, hv, UInt32.ofNat_add, UInt32.add_assoc, UInt32.add_comm]

end Ask

/-! ## The sizes -/

/-- No padding makes a block smaller. -/
theorem le_paddedSize (A : Arch) {elem numUes : UInt32}
    (hroom : numUes.toNat * elem.toNat + 64 < 2 ^ 32) :
    numUes.toNat * elem.toNat ≤ (paddedSize A elem numUes).toNat := by
  have hsize : (numUes * elem).toNat = numUes.toNat * elem.toNat := by
    rw [UInt32.toNat_mul]
    exact Nat.mod_eq_of_lt (by omega)
  -- what is added is at most a line
  have hadd : ∀ pad : UInt32, pad.toNat ≤ 64 →
      numUes.toNat * elem.toNat ≤ (numUes * elem + pad).toNat := by
    intro pad hpad
    rw [UInt32.toNat_add, hsize, Nat.mod_eq_of_lt (by omega)]
    exact Nat.le_add_right _ _
  have hline : (64 - numUes * elem % 64).toNat ≤ 64 := by
    have hrest : (numUes * elem % 64).toNat < 64 := by
      rw [UInt32.toNat_mod]
      exact Nat.mod_lt _ (by decide)
    rw [UInt32.toNat_sub_of_le _ _ (UInt32.le_iff_toNat_le.2 (Nat.le_of_lt hrest))]
    exact Nat.sub_le _ _
  by_cases hrest : numUes * elem % 64 = 0
  · simp only [paddedSize, hrest, ne_eq, not_true_eq_false, if_false, hsize, Nat.le_refl]
  · simp only [paddedSize, hrest, ne_eq, not_false_eq_true, if_true]
    cases A with
    | x86 => exact hadd _ hline
    | sparc =>
        refine hadd _ ?_
        have hdiv : ((64 - numUes * elem % 64) / elem).toNat * elem.toNat ≤
            (64 - numUes * elem % 64).toNat := by
          rw [UInt32.toNat_div]
          exact Nat.div_mul_le_self _ _
        rw [UInt32.toNat_mul, Nat.mod_eq_of_lt (by omega)]
        exact Nat.le_trans hdiv hline

/-! ## The second loop -/

section Fill

variable {n : Nat} {recvBuf : Nat → MsgPtr} {ptr : UInt32} {ps : List (Fin n)} {m : ColorMem}

/-- The size of an element of a block. -/
def elemSize (ptr : UInt32) : Block → UInt32
  | .fromIds => 1
  | _ => ptr

/-- The store of element `k`. -/
def Store.Of (ptr : UInt32) (k : Nat) (st : Store) : Prop :=
  st.off = k * (elemSize ptr st.block).toNat ∧ st.len = (elemSize ptr st.block).toNat

/-- The blocks hold the processes `ps` and nothing else has been stored. -/
structure Holds (recvBuf : Nat → MsgPtr) (ptr : UInt32) (ps : List (Fin n)) (m : ColorMem) :
    Prop where
  buf : ∀ k, m.buf k = (ps[k]?).map fun ue : Fin n => recvBuf ue.val
  bufState : ∀ k, m.bufState k = (ps[k]?).map fun ue : Fin n => { msg := recvBuf ue.val }
  fromIds : ∀ k, m.fromIds k = (ps[k]?).map fun ue : Fin n => UInt8.ofNat ue.val
  stores : ∀ st ∈ m.stores, ∃ k, k < ps.length ∧ st.Of ptr k

/-- A store behind the last entry appends one. -/
theorem update_append {α β : Type} {f : α → β} {l : List α} {g : Nat → Option β}
    (hg : ∀ k, g k = (l[k]?).map f) (x : α) (k : Nat) :
    Function.update g l.length (some (f x)) k = ((l ++ [x])[k]?).map f := by
  by_cases hk : k = l.length
  · subst hk
    simp
  · rw [Function.update_of_ne hk, hg]
    rcases Nat.lt_or_gt_of_ne hk with hlt | hgt
    · rw [List.getElem?_append_left hlt]
    · rw [List.getElem?_eq_none (by omega), List.getElem?_eq_none (by simp; omega)]

theorem Holds.put (h : Holds recvBuf ptr ps m) (ue : Fin n) :
    Holds recvBuf ptr (ps ++ [ue]) (m.put recvBuf ptr ps.length ue) where
  buf := update_append h.buf ue
  bufState := update_append h.bufState ue
  fromIds := update_append h.fromIds ue
  stores st hst := by
    rcases List.mem_append.1 hst with hold | hnew
    · rcases h.stores st hold with ⟨k, hk, hof⟩
      exact ⟨k, by simp; omega, hof⟩
    · -- the three stores of this turn
      refine ⟨ps.length, by simp, ?_⟩
      simp only [List.mem_cons, List.not_mem_nil, or_false] at hnew
      rcases hnew with rfl | rfl | rfl
      · exact ⟨rfl, rfl⟩
      · exact ⟨rfl, rfl⟩
      · exact ⟨(Nat.mul_one _).symm, rfl⟩

theorem Holds.fillBlocks (participants : Fin n → UInt32) (ues : List (Fin n))
    (h : Holds recvBuf ptr ps m) :
    Holds recvBuf ptr (ps ++ ues.filter fun ue => participants ue ≠ 0)
      (fillBlocks recvBuf ptr participants ues ps.length m) := by
  induction ues generalizing ps m with
  | nil => simpa [ColorInit.fillBlocks] using h
  | cons ue ues ih =>
      by_cases hue : participants ue = 0
      · simpa [ColorInit.fillBlocks, hue] using ih h
      · have hput := ih (h.put ue)
        simpa [ColorInit.fillBlocks, hue] using hput

/-- The second loop leaves the count and the sizes as they are. -/
theorem fillBlocks_sizes (participants : Fin n → UInt32) (ues : List (Fin n)) (bufNum : Nat) :
    (fillBlocks recvBuf ptr participants ues bufNum m).numUes = m.numUes ∧
      (fillBlocks recvBuf ptr participants ues bufNum m).size = m.size := by
  induction ues generalizing bufNum m with
  | nil => exact ⟨rfl, rfl⟩
  | cons ue ues ih =>
      simp only [fillBlocks]
      split
      · have h := @ih (m.put recvBuf ptr bufNum ue) (bufNum + 1)
        refine ⟨h.1, h.2.trans (funext fun b => ?_)⟩
        cases b <;> rfl
      · exact ih bufNum

end Fill

/-! ## The whole function -/

section Main

variable {n : Nat} {σ : Type} (A : Arch) (wide : Bool) (me : Fin n) (color : Int → σ → Int32 × σ)
variable (recvBuf : Nat → MsgPtr) (st : σ) (junk : Fin n → UInt32)

/-- What `ssmp_color_buf_init_platf` leaves in memory. -/
theorem holds_init :
    Holds recvBuf (sizeofPtr wide) (accepted (colorCalls me color (List.finRange n) st))
      (ssmpColorBufInitPlatf me color recvBuf A wide st junk) := by
  have hask := (askColors_filter me color (List.nodup_finRange n) st junk 0).1
  have hempty : Holds recvBuf (sizeofPtr wide) ([] : List (Fin n))
      { numUes := (askColors me color (List.finRange n) st junk 0).2
        sizeBuf := paddedSize A (sizeofPtr wide) (askColors me color (List.finRange n) st junk 0).2
        sizeFrom := paddedSize A 1 (askColors me color (List.finRange n) st junk 0).2
        buf := fun _ => none
        bufState := fun _ => none
        fromIds := fun _ => none
        stores := [] } :=
    ⟨by simp, by simp, by simp, by simp⟩
  have hfill := hempty.fillBlocks (askColors me color (List.finRange n) st junk 0).1
    (List.finRange n)
  rw [hask, List.nil_append] at hfill
  exact hfill

theorem accepted_sublist (calls : List (Fin n × Int32)) :
    (accepted calls).Sublist (calls.map Prod.fst) :=
  List.filter_sublist.map Prod.fst

theorem mem_accepted {calls : List (Fin n × Int32)} {ue : Fin n} :
    ue ∈ accepted calls ↔ ∃ answer, (ue, answer) ∈ calls ∧ answer ≠ 0 := by
  simp [accepted]

/-- The participants are the ids other than the caller's, in ascending order. -/
theorem accepted_sublist_finRange :
    (accepted (colorCalls me color (List.finRange n) st)).Sublist
      ((List.finRange n).filter fun ue => ue ≠ me) := by
  rw [← colorCalls_fst me color _ st]
  exact accepted_sublist _

theorem accepted_length_le :
    (accepted (colorCalls me color (List.finRange n) st)).length ≤ n := by
  have h := ((accepted_sublist_finRange me color st).trans List.filter_sublist).length_le
  rwa [List.length_finRange] at h

theorem accepted_pairwise :
    (accepted (colorCalls me color (List.finRange n) st)).Pairwise (· < ·) :=
  ((List.pairwise_lt_finRange n).sublist List.filter_sublist).sublist
    (accepted_sublist_finRange me color st)

theorem init_numUes (hn : n < 2 ^ 32) :
    (ssmpColorBufInitPlatf me color recvBuf A wide st junk).numUes.toNat =
      (accepted (colorCalls me color (List.finRange n) st)).length := by
  have hask := (askColors_filter me color (List.nodup_finRange n) st junk 0).2
  have hlen := accepted_length_le me color st
  simp only [ssmpColorBufInitPlatf, (fillBlocks_sizes _ _ _).1, hask]
  simp only [UInt32.zero_add, UInt32.toNat_ofNat']
  exact Nat.mod_eq_of_lt (by omega)

theorem init_size (b : Block) :
    (ssmpColorBufInitPlatf me color recvBuf A wide st junk).size b =
      paddedSize A (elemSize (sizeofPtr wide) b)
        (ssmpColorBufInitPlatf me color recvBuf A wide st junk).numUes := by
  simp only [ssmpColorBufInitPlatf, (fillBlocks_sizes _ _ _).1, (fillBlocks_sizes _ _ _).2]
  cases b <;> rfl

/-- No store goes beyond the size its block was allocated with. -/
theorem init_stores (hn : n ≤ 256) {store : Store}
    (hstore : store ∈ (ssmpColorBufInitPlatf me color recvBuf A wide st junk).stores) :
    store.off + store.len ≤
      ((ssmpColorBufInitPlatf me color recvBuf A wide st junk).size store.block).toNat := by
  rcases (holds_init A wide me color recvBuf st junk).stores store hstore with ⟨k, hk, hoff, hlen⟩
  have hnum := init_numUes A wide me color recvBuf st junk (by omega)
  have hle := accepted_length_le me color st
  have helem : (elemSize (sizeofPtr wide) store.block).toNat ≤ 8 := by
    cases wide <;> cases store.block <;> decide
  have hroom : (ssmpColorBufInitPlatf me color recvBuf A wide st junk).numUes.toNat *
      (elemSize (sizeofPtr wide) store.block).toNat + 64 < 2 ^ 32 := by
    have := Nat.mul_le_mul (hnum ▸ Nat.le_trans hle hn) helem
    omega
  rw [init_size]
  calc
    store.off + store.len = (k + 1) * (elemSize (sizeofPtr wide) store.block).toNat := by
        rw [hoff, hlen, Nat.succ_mul]
    _ ≤ _ := Nat.mul_le_mul_right _ (by omega)
    _ ≤ _ := le_paddedSize A hroom

theorem toNat_ofNat_id (hn : n ≤ 256) (ue : Fin n) : (UInt8.ofNat ue.val).toNat = ue.val := by
  have := ue.isLt
  simp only [UInt8.toNat_ofNat']
  exact Nat.mod_eq_of_lt (by omega)

/-- The color buffer lists the ids other than the caller's about which `color` has answered with a
value other than 0, each of them asked about once: the three arrays run parallel in the order of the
ids, and no store goes beyond its block. -/
theorem init_lists_participants (hn : n ≤ 256) :
    let calls := colorCalls me color (List.finRange n) st
    let cbuf := ssmpColorBufInitPlatf me color recvBuf A wide st junk
    calls.map Prod.fst = ((List.finRange n).filter fun ue => ue ≠ me) ∧
      cbuf.numUes.toNat = (calls.filter fun call => call.2 ≠ 0).length ∧
      (∀ k, k < cbuf.numUes.toNat → ∃ id, cbuf.fromIds k = some id ∧
        cbuf.buf k = some (recvBuf id.toNat) ∧
        cbuf.bufState k = some { msg := recvBuf id.toNat }) ∧
      (∀ k l id id', k < l → l < cbuf.numUes.toNat → cbuf.fromIds k = some id →
        cbuf.fromIds l = some id' → id < id') ∧
      (∀ ue : Fin n, (∃ k id, k < cbuf.numUes.toNat ∧ cbuf.fromIds k = some id ∧ id.toNat = ue.val) ↔
        ∃ answer, (ue, answer) ∈ calls ∧ answer ≠ 0) ∧
      (∀ k id, cbuf.fromIds k = some id → id.toNat ≠ me.val) ∧
      ∀ store ∈ cbuf.stores, store.off + store.len ≤ (cbuf.size store.block).toNat := by
  intro calls cbuf
  have hholds := holds_init A wide me color recvBuf st junk
  have hnum : cbuf.numUes.toNat = (accepted calls).length :=
    init_numUes A wide me color recvBuf st junk (by omega)
  -- what an entry of `from` says about the list of participants
  have hfrom : ∀ {k id}, cbuf.fromIds k = some id →
      ∃ ue, (accepted calls)[k]? = some ue ∧ id.toNat = ue.val := by
    intro k id h
    rw [hholds.fromIds k] at h
    rcases Option.map_eq_some_iff.1 h with ⟨ue, hue, rfl⟩
    exact ⟨ue, hue, toNat_ofNat_id hn ue⟩
  refine ⟨colorCalls_fst _ _ _ _, by simp [hnum, accepted], ?_, ?_, ?_, ?_, ?_⟩
  · intro k hk
    have hue : (accepted calls)[k]? = some ((accepted calls).get ⟨k, hnum ▸ hk⟩) :=
      List.getElem?_eq_getElem _
    refine ⟨_, (hholds.fromIds k).trans (congrArg _ hue), ?_, ?_⟩
    · rw [toNat_ofNat_id hn]
      exact (hholds.buf k).trans (congrArg _ hue)
    · rw [toNat_ofNat_id hn]
      exact (hholds.bufState k).trans (congrArg _ hue)
  · intro k l id id' hkl hl hk hl'
    rcases hfrom hk with ⟨ue, hue, hid⟩
    rcases hfrom hl' with ⟨ue', hue', hid'⟩
    rcases List.getElem?_eq_some_iff.1 hue with ⟨hklen, rfl⟩
    rcases List.getElem?_eq_some_iff.1 hue' with ⟨hllen, rfl⟩
    rw [UInt8.lt_iff_toNat_lt, hid, hid']
    exact List.pairwise_iff_getElem.1 (accepted_pairwise me color st) k l hklen hllen hkl
  · intro ue
    rw [← mem_accepted]
    constructor
    · rintro ⟨k, id, hk, hid, heq⟩
      rcases hfrom hid with ⟨ue', hue', hid'⟩
      rw [show ue = ue' from Fin.ext (heq.symm.trans hid')]
      exact List.mem_of_getElem? hue'
    · intro hmem
      rcases List.getElem?_of_mem hmem with ⟨k, hk⟩
      have hlt := (List.getElem?_eq_some_iff.1 hk).1
      exact ⟨k, _, by omega, (hholds.fromIds k).trans (congrArg _ hk), toNat_ofNat_id hn ue⟩
  · intro k id hid
    rcases hfrom hid with ⟨ue, hue, heq⟩
    have hmem := (accepted_sublist_finRange me color st).subset (List.mem_of_getElem? hue)
    rw [heq]
    intro hme
    simp [Fin.ext hme] at hmem
  · intro store hstore
    exact init_stores A wide me color recvBuf st junk hn hstore

/-- A color that answers 7 as often as its state says, and then 0. -/
def countdown (_ : Int) (left : Nat) : Int32 × Nat :=
  (if left = 0 then 0 else 7, left - 1)

/-- Process 0 of three asks about 1 and 2, and accepts 1. -/
theorem init_lists_participants_countdown :
    (ssmpColorBufInitPlatf (0 : Fin 3) countdown (fun ue => ⟨0, ue⟩) .x86 true 1
      fun _ => 9).numUes.toNat = 1 :=
  (init_lists_participants .x86 true (0 : Fin 3) countdown (fun ue => ⟨0, ue⟩) 1 (fun _ => 9)
    (by decide)).2.1

/-! ## The lists of `Ssmp.Line` -/

variable {color' : Int → Int32}

theorem ofInt_toInt (v : Int32) : UInt32.ofInt v.toInt = v.toUInt32 := by
  have hint : v.toInt = (v.toUInt32.toNat : Int).bmod (2 ^ 32) :=
    BitVec.toInt_eq_toNat_bmod v.toBitVec
  have hmod : (v.toUInt32.toNat : Int).bmod (2 ^ 32) % 2 ^ 32 = v.toUInt32.toNat % 2 ^ 32 :=
    Int.bmod_emod
  have hlt := v.toUInt32.toNat_lt
  rw [← UInt32.toNat_inj, UInt32.ofInt, UInt32.toNat_ofNat', hint, hmod]
  omega

theorem accepted_colorCalls (ues : List (Fin n)) :
    accepted (colorCalls me (fun id (_ : Unit) => (color' id, ())) ues ()) =
      ues.filter fun ue => decide (participants me (fun id => (color' id).toInt) ue ≠ 0) := by
  induction ues with
  | nil => rfl
  | cons ue ues ih =>
      by_cases hue : ue = me
      · have hpart : participants me (fun id => (color' id).toInt) ue = 0 := by
          simp [participants, hue]
        rw [List.filter_cons_of_neg (by simp [hpart]), colorCalls, if_pos hue]
        exact ih
      · have hpart : participants me (fun id => (color' id).toInt) ue = (color' ue.val).toUInt32 := by
          simp [participants, hue, ofInt_toInt]
        rw [colorCalls, if_neg hue]
        by_cases hzero : color' ue.val = 0
        · rw [List.filter_cons_of_neg (by simp [hpart, toUInt32_eq_zero.2 hzero])]
          simpa [accepted, hzero] using ih
        · have hne : (color' ue.val).toUInt32 ≠ 0 := fun h => hzero (toUInt32_eq_zero.1 h)
          rw [List.filter_cons_of_pos (by simpa [hpart] using hne)]
          simpa [accepted, hzero] using ih

/-- With a color that has no state, the blocks hold the lists. -/
theorem init_toColorBuf (hn : n < 2 ^ 32) :
    let cbuf := Ssmp.ssmpColorBufInitPlatf me fun id => (color' id).toInt
    let mem := ssmpColorBufInitPlatf me (fun id (_ : Unit) => (color' id, ())) recvBuf A wide () junk
    mem.numUes.toNat = cbuf.numUes ∧ ∀ k,
      mem.buf k = (cbuf.buf[k]?).map (fun ue => recvBuf ue.val) ∧
        mem.bufState k = (cbuf.bufState[k]?).map (fun ue => { msg := recvBuf ue.val }) ∧
        mem.fromIds k = cbuf.fromIds[k]? := by
  intro cbuf mem
  have hholds := holds_init A wide me (fun id (_ : Unit) => (color' id, ())) recvBuf () junk
  have hnum := init_numUes A wide me (fun id (_ : Unit) => (color' id, ())) recvBuf () junk hn
  have hwell : cbuf.WellFormed := ssmpColorBufInitPlatf_wellFormed me _
  have hbuf : accepted (colorCalls me (fun id (_ : Unit) => (color' id, ())) (List.finRange n) ()) =
      cbuf.buf := by
    rw [accepted_colorCalls, ← ssmpColorBufInitPlatf_buf]
  rw [hbuf] at hholds hnum
  refine ⟨hnum.trans (ssmpColorBufInitPlatf_numUes me _).symm, ?_⟩
  intro k
  refine ⟨hholds.buf k, ?_, ?_⟩
  · rw [← hwell.same]
    exact hholds.bufState k
  · rw [hwell.ids, List.getElem?_map]
    exact hholds.fromIds k

end Main

end ColorInit
end Ssmp
