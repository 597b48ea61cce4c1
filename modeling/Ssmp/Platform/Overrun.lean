import Ssmp.Platform.Prefetch

/-!
# Overrun — when the receives of the Opteron leave their arrays

`ssmp_recv` and `ssmp_recv_color` prefetch the element behind the one they have served and do not
wrap around as `ssmp_recv_color_start` does.  This module runs into the overruns that
`keepsInBounds_of_reachable` excludes, so that `RecvCall.Fits` is exact.
-/

namespace Ssmp
namespace Opteron

open Lib ColorInit

/-! ## Reads out of bounds -/

section Beyond

variable {n : Nat} {me : Fin n} {useAtomic : Bool} {calls : RecvCall me → Prop}
variable {sends : Fin n → Prop} {s t : RecvState me} {k : UInt32}

theorem reachable_run (h : (recvSystem useAtomic calls sends).Reachable s) :
    (recvSystem useAtomic calls sends).Reachable (s.step useAtomic) :=
  TransSys.Reachable.step h RecvStep.run

/-- A loop that finds nothing at the first `m` positions comes to position `m`. -/
theorem exists_reachable_scan {Q : Nat → RecvState me → Prop} {m : Nat}
    (h : (recvSystem useAtomic calls sends).Reachable s) (hzero : Q 0 s)
    (hstep : ∀ j t, j < m → Q j t → Q (j + 1) (t.step useAtomic)) :
    ∃ t, (recvSystem useAtomic calls sends).Reachable t ∧ Q m t := by
  induction m with
  | zero => exact ⟨s, h, hzero⟩
  | succ m ih =>
      rcases ih fun j t hj => hstep j t (Nat.lt_succ_of_lt hj) with ⟨t, ht, hQ⟩
      exact ⟨t.step useAtomic, reachable_run ht, hstep m t (Nat.lt_succ_self m) hQ⟩

/-- Nobody has sent. -/
def fresh (me : Fin n) : RecvState me where
  flag := fun _ => ssmpBufEmpty
  startRecvFrom := 0
  pc := .idle
  reads := []

theorem reachable_fresh : (recvSystem useAtomic calls sends).Reachable (fresh me) :=
  TransSys.Reachable.init ⟨fun _ => rfl, rfl, rfl, rfl⟩

@[simp] theorem marked_read (a : PtrArray me) (p : Option MsgPtr) :
    (s.read a k).Marked p ↔ s.Marked p := Iff.rfl

@[simp] theorem marked_readUnless (a : PtrArray me) (p : Option MsgPtr) :
    (s.readUnless useAtomic a k).Marked p ↔ s.Marked p := Iff.rfl

/-- The slot of process `i` is marked, and no other. -/
def sentBy (me i : Fin n) : RecvState me :=
  (fresh me).setFlag (some (Arch.x86.slotPtr n i me)) ssmpBufMessg

theorem reachable_sentBy {i : Fin n} (hi : i ≠ me) (hsends : sends i) :
    (recvSystem useAtomic calls sends).Reachable (sentBy me i) :=
  TransSys.Reachable.step reachable_fresh (RecvStep.store ssmpBufMessg hi hsends)

theorem reachable_entry {c : RecvCall me} (h : (recvSystem useAtomic calls sends).Reachable s)
    (hidle : s.pc = .idle) (hc : calls c) :
    (recvSystem useAtomic calls sends).Reachable (s.goto c.entry) :=
  TransSys.Reachable.step h (RecvStep.call hidle hc)

theorem marked_sentBy {i : Fin n} (hflag : s.flag = (sentBy me i).flag) :
    s.Marked (some (Arch.x86.slotPtr n i me)) := by
  unfold RecvState.Marked
  rw [hflag]
  simp [sentBy, RecvState.setFlag]

theorem not_marked_sentBy {i j : Fin n} (hflag : s.flag = (sentBy me i).flag) (hi : i ≠ me)
    (hj : j ≠ me) (hne : j ≠ i) : ¬ s.Marked (some (Arch.x86.slotPtr n j me)) := by
  have hptr : Arch.x86.slotPtr n j me ≠ Arch.x86.slotPtr n i me := by
    intro h
    have hval := (slotPtr_inj j.isLt i.isLt (Fin.val_ne_of_ne hj) (Fin.val_ne_of_ne hi) h).1
    exact hne (Fin.ext hval)
  unfold RecvState.Marked
  rw [hflag]
  simp only [sentBy, RecvState.setFlag, Option.map_some, Function.update_of_ne hptr, fresh]
  decide

theorem not_marked_fresh (hflag : s.flag = (fresh me).flag) (p : Option MsgPtr) :
    ¬ s.Marked p := by
  unfold RecvState.Marked
  rw [hflag]
  cases p with
  | none => simp
  | some p =>
    simp only [Option.map_some, fresh]
    decide

/-! ### `ssmp_recv` -/

theorem recv_miss (hpc : s.pc = .recv k) (hk : k < UInt32.ofNat n)
    (hmiss : k = UInt32.ofNat me ∨ ¬ s.Marked (recvBufAt me k)) :
    (s.step useAtomic).pc = .recv (k + 1) ∧ (s.step useAtomic).flag = s.flag := by
  by_cases hme : k = UInt32.ofNat me
  · simp only [RecvState.step, hpc, if_pos hk, if_pos hme]
    exact ⟨rfl, rfl⟩
  · have hfree : ¬ s.Marked (recvBufAt me k) := hmiss.resolve_left hme
    simp only [RecvState.step, hpc, if_pos hk, if_neg hme, marked_read, if_neg hfree]
    exact ⟨rfl, rfl⟩

theorem recv_hit (hpc : s.pc = .recv k) (hk : k < UInt32.ofNat n) (hne : k ≠ UInt32.ofNat me)
    (hmarked : s.Marked (recvBufAt me k)) :
    (.recvBuf, (k + 1).toNat) ∈
      (((s.step useAtomic).step useAtomic).step useAtomic).reads := by
  have hfirst : (s.step useAtomic).pc = .recvTake k := by
    simp only [RecvState.step, hpc, if_pos hk, if_neg hne, marked_read, if_pos hmarked]
    rfl
  have hsecond : ((s.step useAtomic).step useAtomic).pc = .recvAhead k := by
    generalize s.step useAtomic = t at hfirst
    simp only [RecvState.step, hfirst]
    rfl
  generalize (s.step useAtomic).step useAtomic = t at hsecond
  simp only [RecvState.step, hsecond]
  exact List.mem_append_right _ (List.mem_singleton.2 rfl)

/-! ### `ssmp_recv_color` -/

variable {c : ColorBufOf me}

theorem color_miss (hpc : s.pc = .color c k) (hk : k < c.mem.numUes)
    (hmiss : ¬ s.Marked (c.stateAt k)) :
    (s.step useAtomic).pc = .color c (k + 1) ∧ (s.step useAtomic).flag = s.flag ∧
      (.bufState c, k.toNat) ∈ (s.step useAtomic).reads := by
  simp only [RecvState.step, hpc, if_pos hk, marked_read, if_neg hmiss]
  exact ⟨rfl, rfl, List.mem_append_right _ (List.mem_singleton.2 rfl)⟩

theorem color_hit (hpc : s.pc = .color c k) (hk : k < c.mem.numUes)
    (hmarked : s.Marked (c.stateAt k)) :
    (.buf c, (k + 1).toNat) ∈
      (((s.step useAtomic).step useAtomic).step useAtomic).reads := by
  have hfirst : (s.step useAtomic).pc = .colorTake c k := by
    simp only [RecvState.step, hpc, if_pos hk, marked_read, if_pos hmarked]
    rfl
  have hsecond : ((s.step useAtomic).step useAtomic).pc = .colorAhead c k (c.senderAt k) := by
    generalize s.step useAtomic = t at hfirst
    simp only [RecvState.step, hfirst]
    rfl
  generalize (s.step useAtomic).step useAtomic = t at hsecond
  simp only [RecvState.step, hsecond]
  exact List.mem_append_right _ (List.mem_singleton.2 rfl)

/-! ### `ssmp_recv_color_start` -/

theorem start_miss (hpc : s.pc = .start c) (hpos : s.startRecvFrom = k) (hk : k < c.mem.numUes)
    (hmiss : ¬ s.Marked (c.stateAt k)) :
    (s.step useAtomic).pc = .start c ∧ (s.step useAtomic).startRecvFrom = k + 1 ∧
      (s.step useAtomic).flag = s.flag ∧ (.bufState c, k.toNat) ∈ (s.step useAtomic).reads := by
  subst hpos
  simp only [RecvState.step, hpc, if_pos hk, marked_read, marked_readUnless, if_neg hmiss]
  exact ⟨hpc, trivial, rfl, List.mem_append_right _ (List.mem_singleton.2 rfl)⟩

/-! ### Runs -/

theorem not_inBounds {a : PtrArray me} {l : Nat} (hread : (a, l) ∈ s.reads)
    (hbeyond : a.length ≤ l) : ¬ s.InBounds :=
  fun h => absurd (h a l hread) (Nat.not_lt.2 hbeyond)

theorem ofNat_lt {j : Nat} {num : UInt32} (hj : j < num.toNat) : UInt32.ofNat j < num := by
  have hmod : (UInt32.ofNat j).toNat = j := Nat.mod_eq_of_lt (Nat.lt_trans hj num.toNat_lt)
  rwa [UInt32.lt_iff_toNat_lt, hmod]

theorem exists_reachable_recv (hn : n < 2 ^ 31) {m : Nat} (hm : m ≤ n)
    (h : (recvSystem useAtomic calls sends).Reachable s) (hpc : s.pc = .recv 0)
    (hmiss : ∀ (j : Nat) (t : RecvState me), j < m → t.flag = s.flag →
      UInt32.ofNat j ≠ UInt32.ofNat me → ¬ t.Marked (recvBufAt me (UInt32.ofNat j))) :
    ∃ t, (recvSystem useAtomic calls sends).Reachable t ∧
      t.pc = .recv (UInt32.ofNat m) ∧ t.flag = s.flag := by
  refine exists_reachable_scan (Q := fun j t => t.pc = .recv (UInt32.ofNat j) ∧ t.flag = s.flag) h
    ⟨hpc, rfl⟩ ?_
  rintro j t hj ⟨htpc, htflag⟩
  have hlt : UInt32.ofNat j < UInt32.ofNat n := by
    refine ofNat_lt ?_
    rw [toNat_ofNat_index hn]
    omega
  rcases recv_miss htpc hlt (or_iff_not_imp_left.2 (hmiss j t hj htflag)) with ⟨hnext, hflag⟩
  rw [UInt32.ofNat_add]
  exact ⟨hnext, hflag.trans htflag⟩

theorem exists_reachable_color {m : Nat} (hm : m ≤ c.mem.numUes.toNat)
    (h : (recvSystem useAtomic calls sends).Reachable s) (hpc : s.pc = .color c 0)
    (hmiss : ∀ (j : Nat) (t : RecvState me), j < m → t.flag = s.flag →
      ¬ t.Marked (c.stateAt (UInt32.ofNat j))) :
    ∃ t, (recvSystem useAtomic calls sends).Reachable t ∧
      t.pc = .color c (UInt32.ofNat m) ∧ t.flag = s.flag := by
  refine exists_reachable_scan (Q := fun j t => t.pc = .color c (UInt32.ofNat j) ∧
    t.flag = s.flag) h ⟨hpc, rfl⟩ ?_
  rintro j t hj ⟨htpc, htflag⟩
  have hlt : UInt32.ofNat j < c.mem.numUes := ofNat_lt (by omega)
  rcases color_miss htpc hlt (hmiss j t hj htflag) with ⟨hnext, hflag, _⟩
  rw [UInt32.ofNat_add]
  exact ⟨hnext, hflag.trans htflag⟩

theorem exists_reachable_start {m : Nat} (hm : m ≤ c.mem.numUes.toNat)
    (h : (recvSystem useAtomic calls sends).Reachable s) (hpc : s.pc = .start c)
    (hpos : s.startRecvFrom = 0)
    (hmiss : ∀ (p : Option MsgPtr) (t : RecvState me), t.flag = s.flag → ¬ t.Marked p) :
    ∃ t, (recvSystem useAtomic calls sends).Reachable t ∧
      t.pc = .start c ∧ t.startRecvFrom = UInt32.ofNat m ∧ t.flag = s.flag := by
  refine exists_reachable_scan (Q := fun j t => t.pc = .start c ∧
    t.startRecvFrom = UInt32.ofNat j ∧ t.flag = s.flag) h ⟨hpc, hpos, rfl⟩ ?_
  rintro j t hj ⟨htpc, htpos, htflag⟩
  have hlt : UInt32.ofNat j < c.mem.numUes := ofNat_lt (by omega)
  rcases start_miss htpc htpos hlt (hmiss _ t htflag) with ⟨hnext, hpos', hflag, _⟩
  rw [UInt32.ofNat_add]
  exact ⟨hnext, hpos', hflag.trans htflag⟩

/-- The last process has sent, and `ssmp_recv` prefetches behind its entry. -/
theorem beyond_recv (hn : n < 2 ^ 31) (hcall : calls .recv) {i : Fin n} (hlast : i.val + 1 = n)
    (hi : i ≠ me) (hsends : sends i) :
    ∃ s, (recvSystem useAtomic calls sends).Reachable s ∧ ¬ s.InBounds := by
  have hstart : (recvSystem useAtomic calls sends).Reachable ((sentBy me i).goto (.recv 0)) :=
    reachable_entry (reachable_sentBy hi hsends) rfl hcall
  have hid : ∀ {j}, j < n → (UInt32.ofNat j).toNat = j := fun hj =>
    toNat_ofNat_index (by omega)
  have hptr : ∀ {j} (hj : j < n), UInt32.ofNat j ≠ UInt32.ofNat me →
      recvBufAt me (UInt32.ofNat j) = some (Arch.x86.slotPtr n j me) := by
    intro j hj hne
    have hval : j ≠ me.val := fun heq => hne (congrArg UInt32.ofNat heq)
    rw [recvBufAt_eq (by rwa [hid hj]) (by rwa [hid hj]), hid hj]
  have hne : UInt32.ofNat i.val ≠ UInt32.ofNat me := by
    intro heq
    have hval := congrArg UInt32.toNat heq
    rw [hid i.isLt, hid me.isLt] at hval
    exact hi (Fin.ext hval)
  have hmiss : ∀ (j : Nat) (t : RecvState me), j < i.val → t.flag = (sentBy me i).flag →
      UInt32.ofNat j ≠ UInt32.ofNat me → ¬ t.Marked (recvBufAt me (UInt32.ofNat j)) := by
    intro j t hj hflag hjne
    have hjlt : j < n := by omega
    have hjme : (⟨j, hjlt⟩ : Fin n) ≠ me := fun h => hjne (by rw [← h])
    have hji : (⟨j, hjlt⟩ : Fin n) ≠ i := fun h => Nat.ne_of_lt hj (congrArg Fin.val h)
    rw [hptr hjlt hjne]
    exact not_marked_sentBy hflag hi hjme hji
  rcases exists_reachable_recv hn (Nat.le_of_lt i.isLt) hstart rfl hmiss with
    ⟨t, ht, htpc, htflag⟩
  have hlt : UInt32.ofNat i.val < UInt32.ofNat n := by
    refine ofNat_lt ?_
    rw [toNat_ofNat_index hn]
    exact i.isLt
  have hmarked : t.Marked (recvBufAt me (UInt32.ofNat i.val)) := by
    rw [hptr i.isLt hne]
    exact marked_sentBy htflag
  refine ⟨_, reachable_run (reachable_run (reachable_run ht)),
    not_inBounds (recv_hit htpc hlt hne hmarked) ?_⟩
  have hsmall : (UInt32.ofNat i.val).toNat < 2 ^ 31 := by
    rw [hid i.isLt]
    exact Nat.lt_trans i.isLt hn
  rw [toNat_succ hsmall, hid i.isLt, hlast]
  exact Nat.le_refl _

theorem ColorBufOf.pos_of_buf (c : ColorBufOf me) (hn : n < 2 ^ 31) {l : Nat} {p : MsgPtr}
    (h : c.mem.buf l = some p) : 0 < c.mem.numUes.toNat := by
  rcases c.exists_participants hn with ⟨ps, hlen, _, _, hholds⟩
  rw [hholds.buf] at h
  rcases Option.map_eq_some_iff.1 h with ⟨ue, hue, _⟩
  rw [hlen]
  exact List.length_pos_of_mem (List.mem_of_getElem? hue)

/-- The size of the array has been cut off, so that the loop leaves it. -/
theorem length_lt_of_room (hn : n < 2 ^ 31) (hroom : ¬ c.mem.numUes.toNat ≤ 2 ^ 29 - 8) :
    (PtrArray.buf c).length < c.mem.numUes.toNat := by
  rw [c.length_buf]
  exact Nat.lt_of_not_le fun hle => hroom ((le_ptrLength_iff (c.numUes_lt hn)).1 hle)

theorem beyond_color_room (hn : n < 2 ^ 31) (hcall : calls (.recvColor c))
    (hroom : ¬ c.mem.numUes.toNat ≤ 2 ^ 29 - 8) :
    ∃ s, (recvSystem useAtomic calls sends).Reachable s ∧ ¬ s.InBounds := by
  have hlen := length_lt_of_room hn hroom
  have hnum := c.numUes_lt hn
  have hstart : (recvSystem useAtomic calls sends).Reachable ((fresh me).goto (.color c 0)) :=
    reachable_entry reachable_fresh rfl hcall
  rcases exists_reachable_color (Nat.le_of_lt hlen) hstart rfl
    (fun _ t _ hflag => not_marked_fresh hflag _) with ⟨t, ht, htpc, htflag⟩
  have hread : (.bufState c, _) ∈ (t.step useAtomic).reads :=
    (color_miss htpc (ofNat_lt hlen) (not_marked_fresh htflag _)).2.2
  refine ⟨_, reachable_run ht, not_inBounds hread ?_⟩
  rw [toNat_ofNat_index (by omega), c.length_bufState]

theorem beyond_start_room (hn : n < 2 ^ 31) (hcall : calls (.recvColorStart c))
    (hroom : ¬ c.mem.numUes.toNat ≤ 2 ^ 29 - 8) :
    ∃ s, (recvSystem useAtomic calls sends).Reachable s ∧ ¬ s.InBounds := by
  have hlen := length_lt_of_room hn hroom
  have hnum := c.numUes_lt hn
  have hstart : (recvSystem useAtomic calls sends).Reachable ((fresh me).goto (.start c)) :=
    reachable_entry reachable_fresh rfl hcall
  rcases exists_reachable_start (Nat.le_of_lt hlen) hstart rfl rfl
    (fun p t hflag => not_marked_fresh hflag p) with ⟨t, ht, htpc, htpos, htflag⟩
  have hread : (.bufState c, _) ∈ (t.step useAtomic).reads :=
    (start_miss htpc htpos (ofNat_lt hlen) (not_marked_fresh htflag _)).2.2.2
  refine ⟨_, reachable_run ht, not_inBounds hread ?_⟩
  rw [toNat_ofNat_index (by omega), c.length_bufState]

/-- The last participant has sent, and `ssmp_recv_color` prefetches behind its entry. -/
theorem beyond_color_last (hn : n < 2 ^ 31) (hcall : calls (.recvColor c))
    (hroom : c.mem.numUes.toNat ≤ 2 ^ 29 - 8) (hdvd : 8 ∣ c.mem.numUes.toNat) {i : Fin n}
    (hlast : c.mem.buf (c.mem.numUes.toNat - 1) = some (Arch.x86.slotPtr n i me)) (hi : i ≠ me)
    (hsends : sends i) :
    ∃ s, (recvSystem useAtomic calls sends).Reachable s ∧ ¬ s.InBounds := by
  have hnum := c.numUes_lt hn
  have hstart : (recvSystem useAtomic calls sends).Reachable ((sentBy me i).goto (.color c 0)) :=
    reachable_entry (reachable_sentBy hi hsends) rfl hcall
  have hpos : 0 < c.mem.numUes.toNat := c.pos_of_buf hn hlast
  have hid : ∀ {j}, j < c.mem.numUes.toNat → (UInt32.ofNat j).toNat = j := fun hj =>
    toNat_ofNat_index (by omega)
  have hpred : c.mem.numUes.toNat - 1 < c.mem.numUes.toNat := Nat.sub_lt hpos Nat.one_pos
  have hmiss : ∀ (j : Nat) (t : RecvState me), j < c.mem.numUes.toNat - 1 →
      t.flag = (sentBy me i).flag → ¬ t.Marked (c.stateAt (UInt32.ofNat j)) := by
    intro j t hj hflag
    have hlt : j < c.mem.numUes.toNat := by omega
    rcases c.exists_entry hn (ofNat_lt hlt) with ⟨i', hi', hbuf, hstate, _⟩
    rw [hid hlt] at hbuf
    have hne : i' ≠ i := by
      rintro rfl
      exact Nat.ne_of_lt hj (c.buf_inj hn hlt hpred (hbuf.trans hlast.symm))
    rw [hstate]
    exact not_marked_sentBy hflag hi hi' hne
  rcases exists_reachable_color (Nat.le_of_lt hpred) hstart rfl hmiss with ⟨t, ht, htpc, htflag⟩
  have hmarked : t.Marked (c.stateAt (UInt32.ofNat (c.mem.numUes.toNat - 1))) := by
    rcases c.exists_entry hn (ofNat_lt hpred) with ⟨i', _, hbuf, hstate, _⟩
    rw [hid hpred, hlast] at hbuf
    rw [hstate, ← hbuf]
    exact marked_sentBy htflag
  refine ⟨_, reachable_run (reachable_run (reachable_run ht)),
    not_inBounds (color_hit htpc (ofNat_lt hpred) hmarked) ?_⟩
  have hfull : ¬ c.mem.numUes.toNat < (PtrArray.buf c).length := by
    rw [c.length_buf, lt_ptrLength_iff hroom]
    exact not_not.2 hdvd
  have hsmall : (UInt32.ofNat (c.mem.numUes.toNat - 1)).toNat < 2 ^ 31 := by
    rw [hid hpred]
    omega
  rw [toNat_succ hsmall, hid hpred]
  omega

end Beyond

/-- All elements that are ever read are in their arrays, whatever is sent and received, if and only
if each call that the process makes fits. -/
theorem inBounds_iff {n : Nat} {me : Fin n} {useAtomic : Bool} {calls : RecvCall me → Prop}
    {sends : Fin n → Prop} (hn : n < 2 ^ 31) :
    (∀ s, (recvSystem useAtomic calls sends).Reachable s → s.InBounds) ↔
      ∀ c, calls c → c.Fits sends := by
  constructor
  · intro h c hcall
    have hno : ¬ ∃ s, (recvSystem useAtomic calls sends).Reachable s ∧ ¬ s.InBounds := by
      rintro ⟨s, hs, hbeyond⟩
      exact hbeyond (h s hs)
    cases c with
    | recv =>
        intro i hlast hi hsends
        exact hno (beyond_recv hn hcall hlast hi hsends)
    | recvColor c =>
        have hroom : c.mem.numUes.toNat ≤ 2 ^ 29 - 8 := by
          by_contra hcut
          exact hno (beyond_color_room hn hcall hcut)
        refine ⟨hroom, ?_⟩
        intro hdvd i hlast hi hsends
        exact hno (beyond_color_last hn hcall hroom hdvd hlast hi hsends)
    | recvColorStart c =>
        by_contra hcut
        exact hno (beyond_start_room hn hcall hcut)
  · intro hfits s hs
    exact (keepsInBounds_of_reachable hn hfits hs).safe.reads

/-- Process 1 of two has found the message from 0. -/
theorem inBounds_iff_last :
    (((sentBy (1 : Fin 2) 0).goto (.recv 0)).step false).reads.length = 2 ∧
      (((sentBy (1 : Fin 2) 0).goto (.recv 0)).step false).InBounds := by
  let calls : RecvCall (1 : Fin 2) → Prop := fun c => c = .recv
  have hne : (0 : Fin 2) ≠ 1 := by decide
  have hsent : (recvSystem false calls fun _ => True).Reachable (sentBy 1 0) :=
    reachable_sentBy hne trivial
  have hcall : calls .recv := rfl
  have hreach : (recvSystem false calls fun _ => True).Reachable
      (((sentBy (1 : Fin 2) 0).goto (.recv 0)).step false) :=
    reachable_run (reachable_entry hsent rfl hcall)
  have hfits : ∀ c, calls c → c.Fits fun _ => True := by
    rintro c rfl i hlast hi _
    exact hi (Fin.ext (Nat.succ.inj hlast))
  exact ⟨by decide, (inBounds_iff (by decide)).2 hfits _ hreach⟩

/-- The color buffer of all other processes. -/
def everyone {n : Nat} (me : Fin n) : ColorBufOf me where
  mem := ColorInit.ssmpColorBufInitPlatf me (fun _ (st : Unit) => (1, st))
    (fun i => Arch.x86.slotPtr n i me) .x86 true () fun _ => 0
  built := ⟨Unit, _, (), _, rfl⟩

/-- Process 0 of two receives from 1, and process 0 of nine from the last of eight participants. -/
theorem not_inBounds_ahead :
    (∃ s, (recvSystem false (fun c : RecvCall (0 : Fin 2) => c = .recv) fun _ => True).Reachable s ∧
        ¬ s.InBounds) ∧
      ∃ s, (recvSystem false (fun c : RecvCall (0 : Fin 9) => c = .recvColor (everyone 0))
          fun _ => True).Reachable s ∧ ¬ s.InBounds := by
  have hnum : (everyone (0 : Fin 9)).mem.numUes.toNat = 8 := by decide
  constructor
  · exact beyond_recv (i := 1) (by decide) rfl rfl (by decide) trivial
  · refine beyond_color_last (i := 8) (by decide) rfl ?_ ?_ ?_ (by decide) trivial
    · rw [hnum]
      decide
    · exact ⟨1, hnum⟩
    · rw [hnum]
      decide

end Opteron
end Ssmp
