import Mathlib.Order.WellFounded
import Ssmp.Receive.Alone

/-!
# Restrict — the color receive is the receive of the participants

`ssmp_recv` scans the ids and leaves out its own; `ssmp_recv_color` scans the arrays that
`ssmp_color_buf_init` has filled.  Both stop at the first full slot in the order of the ids, so the
second behaves as the first would if the slots of all other processes were empty.
-/

namespace Ssmp

/-! ## Slots a call touches -/

section Touches

variable {L : MsgLayout} {n : Nat} {me : Fin n} {s t : Sys L n} {P : Fin n → Prop}

/-- The action touches no slot but those from processes in `P`. -/
def Act.Hears (P : Fin n → Prop) : Act n → Prop
  | .await (.recvBuf src) _ | .cas (.recvBuf src) _ _ | .store (.recvBuf src) _ => P src
  | .copyIn src _ => P src
  | .scan num test _ _ | .scanStart num test _ =>
      ∀ k, k < num → ∀ src lk, test k = some (src, lk) → P src
  | .setState _ | .setSender _ | .advance _ => True
  | _ => False

theorem hears_scanInvariant (P : Fin n → Prop) : ScanInvariant (Act.Hears P) := by
  intro num test body k k' h
  exact h

theorem probe_slot_of_hears {tst : Option (Fin n × Bool)} {hit : List (Act n)} {next : Proc n}
    {ij : Fin n × Fin n} (htest : ∀ src lk, tst = some (src, lk) → P src)
    (hij : ∀ src, P src → ij ≠ (src, me)) : (s.probe me tst hit next).slot ij = s.slot ij := by
  cases tst with
  | none => rfl
  | some rl =>
      simp only [Sys.probe]
      split
      · split
        · exact Function.update_of_ne (hij rl.1 (htest rl.1 rl.2 rfl)) _ _
        · rfl
      · rfl

theorem execAct_slot_of_hears {a : Act n} {rest : List (Act n)} {ij : Fin n × Fin n}
    (ha : a.Hears P) (hij : ∀ src, P src → ij ≠ (src, me)) :
    (s.execAct me a rest).slot ij = s.slot ij := by
  cases a with
  | await q v => simp only [Sys.execAct]; split <;> rfl
  | cas q old new =>
      cases q with
      | sendBuf d => exact absurd ha id
      | recvBuf r =>
          simp only [Sys.execAct]
          split
          · exact Function.update_of_ne (hij r ha) _ _
          · rfl
  | isFree d => exact absurd ha id
  | copyOut d p => exact absurd ha id
  | store q v =>
      cases q with
      | sendBuf d => exact absurd ha id
      | recvBuf r =>
          simp only [Sys.execAct]
          split <;> exact Function.update_of_ne (hij r ha) _ _
  | scan num test body k =>
      simp only [Sys.execAct]
      split
      · rename_i hk
        exact probe_slot_of_hears (ha k hk) hij
      · rfl
  | scanStart num test body =>
      simp only [Sys.execAct]
      split
      · rename_i hk
        exact probe_slot_of_hears (ha _ hk) hij
      · rfl
  | _ => rfl

/-- A call that hears only `P` leaves every other slot as it is, at every step. -/
theorem runAlone_slot_of_hears {ij : Fin n × Fin n} (hcode : EveryIn (Act.Hears P) (s.proc me).code)
    (hij : ∀ src, P src → ij ≠ (src, me)) (k : Nat) : (s.runAlone me k).slot ij = s.slot ij := by
  induction k generalizing s with
  | zero => rfl
  | succ k ih =>
      cases hc : (s.proc me).code with
      | nil => simp [Sys.runAlone, Sys.exec, hc]
      | cons a rest =>
          rw [hc] at hcode
          have hnext := everyIn_execAct (hears_scanInvariant P) hc hcode
          simp only [Sys.runAlone, Sys.exec, hc]
          rw [ih hnext]
          exact execAct_slot_of_hears (hcode a List.mem_cons_self).head hij

end Touches

section Restrict

variable {L : MsgLayout} {n : Nat} {me src : Fin n} {s : Sys L n} {color : Int → Int}
variable {ps : List Piece} {read : Fin n → UInt32 → List (Act n)} {locks : Nat → Bool} {lk : Bool}

/-! ## One scan -/

/-- A scanning receive whose first full slot is that of index `k`. -/
theorem alone_scan_read {num k : Nat} {test : Nat → Option (Fin n × Bool)} {body : Nat → List (Act n)}
    {id : UInt32} (hpos : 0 < L.senderBytes) (hread : ReadsPieces ps read) (hk : k < num)
    (hmiss : ∀ j, j < k → s.hit me test j = false) (htest : test k = some (src, lk))
    (hfull : L.stateOf (s.slot (src, me)) = ssmpBufMessg) (hbody : body k = read src id)
    (hcode : (s.proc me).code = [.scan num test body 0]) :
    ∃ t, s.Alone me t ∧ (t.proc me).code = [] ∧
      (t.proc me).msg = L.setSender id (copyLine ps (s.slot (src, me)) (s.proc me).msg) ∧
      t.slot = Function.update s.slot (src, me) (L.setState ssmpBufEmpty (s.slot (src, me))) := by
  rcases alone_scan (Nat.zero_le k) hk (fun j _ => hmiss j) htest hfull hcode with
    ⟨u, hrun, hprobed⟩
  have hcodeu := hprobed.code
  rw [hbody] at hcodeu
  rcases alone_read hread hcodeu with ⟨t, hrun', htakes⟩
  rcases hprobed.takes hpos htakes with ⟨hmsg, hslot⟩
  exact ⟨t, hrun.trans hrun', htakes.code, hmsg, hslot⟩

/-! ## The first full slot of a participant -/

/-- `src` is the first participant whose slot is full. -/
def FirstFull (s : Sys L n) (me : Fin n) (color : Int → Int) (src : Fin n) : Prop :=
  participants me color src ≠ 0 ∧ L.stateOf (s.slot (src, me)) = ssmpBufMessg ∧
    ∀ ue, ue < src → participants me color ue ≠ 0 → L.stateOf (s.slot (ue, me)) ≠ ssmpBufMessg

theorem exists_firstFull
    (h : ∃ ue, participants me color ue ≠ 0 ∧ L.stateOf (s.slot (ue, me)) = ssmpBufMessg) :
    ∃ src, FirstFull s me color src := by
  rcases h with ⟨ue, hue⟩
  rcases (wellFounded_lt : WellFounded ((· < ·) : Fin n → Fin n → Prop)).has_min
    {ue | participants me color ue ≠ 0 ∧ L.stateOf (s.slot (ue, me)) = ssmpBufMessg} ⟨ue, hue⟩ with
    ⟨src, hsrc, hmin⟩
  exact ⟨src, hsrc.1, hsrc.2, fun ue hlt hpart hfull => hmin ue ⟨hpart, hfull⟩ hlt⟩

theorem participants_ne_me (h : participants me color src ≠ 0) : src ≠ me := by
  rintro rfl
  exact h (by simp [participants])

/-- The arrays of a color buffer are in the order of the ids, so the color receive stops there. -/
theorem firstFull_color (h : FirstFull s me color src) :
    ∃ k, k < (ssmpColorBufInitPlatf me color).numUes ∧
      colorTest (ssmpColorBufInitPlatf me color) locks k = some (src, locks k) ∧
      colorBody read (ssmpColorBufInitPlatf me color) k = read src (UInt8.ofNat src.val).toUInt32 ∧
      ∀ j, j < k → s.hit me (colorTest (ssmpColorBufInitPlatf me color) locks) j = false := by
  rcases h with ⟨hpart, _, hfirst⟩
  have hw := ssmpColorBufInitPlatf_wellFormed me color
  rcases List.getElem?_of_mem (mem_ssmpColorBufInitPlatf.2 hpart) with ⟨k, hk⟩
  have hlt := (List.getElem?_eq_some_iff.1 hk).1
  have hsorted : (ssmpColorBufInitPlatf me color).buf.Pairwise (· < ·) := by
    rw [ssmpColorBufInitPlatf_buf]
    exact (List.pairwise_lt_finRange n).sublist List.filter_sublist
  refine ⟨k, ?_, ?_, ?_, ?_⟩
  · rw [ssmpColorBufInitPlatf_numUes]
    exact hlt
  · simp [colorTest, ← hw.same, hk]
  · have hfrom : (ssmpColorBufInitPlatf me color).fromIds.getD k 0 = UInt8.ofNat src.val := by
      simp [hw.ids, List.getD, hk]
    simp only [colorBody, hk, hfrom]
  · intro j hj
    -- an earlier entry is a participant of a smaller id
    have hjlt : j < (ssmpColorBufInitPlatf me color).buf.length := Nat.lt_trans hj hlt
    have hjk := List.pairwise_iff_getElem.1 hsorted j k hjlt hlt hj
    rw [(List.getElem?_eq_some_iff.1 hk).2] at hjk
    have hmem := mem_ssmpColorBufInitPlatf.1 (List.getElem_mem hjlt)
    have hstate := hfirst _ hjk hmem
    simp [Sys.hit, colorTest, ← hw.same, List.getElem?_eq_getElem hjlt, hstate]

/-! ## Hidden slots -/

/-- The slots to `me` from all processes but the participants marked empty. -/
def Sys.hide (me : Fin n) (color : Int → Int) (s : Sys L n) : Sys L n :=
  { s with
    slot := fun ij =>
      if ij.2 = me ∧ ij.1 ≠ me ∧ participants me color ij.1 = 0 then
        L.setState ssmpBufEmpty (s.slot ij)
      else s.slot ij }

theorem hide_slot_participant (h : participants me color src ≠ 0) :
    (s.hide me color).slot (src, me) = s.slot (src, me) := by
  simp [Sys.hide, h]

theorem hide_slot_other (hne : src ≠ me) (h : participants me color src = 0) :
    L.stateOf ((s.hide me color).slot (src, me)) = ssmpBufEmpty := by
  simp [Sys.hide, h, hne]

/-- Hiding and releasing the slot of a participant commute. -/
theorem hide_release {t : Sys L n} (h : participants me color src ≠ 0)
    (ht : t.slot = Function.update s.slot (src, me) (L.setState ssmpBufEmpty (s.slot (src, me)))) :
    (t.hide me color).slot = Function.update (s.hide me color).slot (src, me)
      (L.setState ssmpBufEmpty ((s.hide me color).slot (src, me))) := by
  funext ij
  by_cases hij : ij = (src, me)
  · subst hij
    rw [hide_slot_participant h, hide_slot_participant h, ht, Function.update_self,
      Function.update_self]
  · rw [Function.update_of_ne hij]
    simp only [Sys.hide, ht, Function.update_of_ne hij]

/-- A color that accepts everybody hides nothing. -/
theorem hide_eq_self (hall : ∀ ue, ue ≠ me → participants me color ue ≠ 0) :
    s.hide me color = s := by
  have hslot : (s.hide me color).slot = s.slot := by
    funext ij
    refine if_neg ?_
    rintro ⟨_, hne, hpart⟩
    exact hall ij.1 hne hpart
  cases s
  simpa [Sys.hide] using hslot

/-- Among the ids, with the slots of the others hidden, `ssmp_recv` stops at the same slot. -/
theorem firstFull_recv (h : FirstFull s me color src) :
    recvTest me lk src.val = some (src, lk) ∧
      recvBody read src.val = read src (UInt32.ofNat src.val) ∧
      ∀ j, j < src.val → (s.hide me color).hit me (recvTest me lk) j = false := by
  rcases h with ⟨hpart, _, hfirst⟩
  have hat : ∀ ue : Fin n, idAt n ue.val = some ue := fun ue => by simp [idAt]
  refine ⟨?_, ?_, ?_⟩
  · simp [recvTest, hat, participants_ne_me hpart]
  · simp [recvBody, hat]
  · intro j hj
    have hjn : j < n := Nat.lt_trans hj src.isLt
    have hidj : idAt n j = some ⟨j, hjn⟩ := hat ⟨j, hjn⟩
    by_cases hme : (⟨j, hjn⟩ : Fin n) = me
    · simp [Sys.hit, recvTest, hidj, hme]
    · have hstate : L.stateOf ((s.hide me color).slot (⟨j, hjn⟩, me)) ≠ ssmpBufMessg := by
        by_cases hpj : participants me color ⟨j, hjn⟩ = 0
        · rw [hide_slot_other hme hpj]
          decide
        · rw [hide_slot_participant hpj]
          exact hfirst _ hj hpj
      simp [Sys.hit, recvTest, hidj, hme, hstate]

/-! ## What the color receive touches -/

theorem hears_read (hread : ReadsPieces ps read) {P : Fin n → Prop} (hsrc : P src) (id : UInt32) :
    EveryIn (Act.Hears P) (read src id) := by
  have hsingle : ∀ {a : Act n}, a.Hears P → (∀ k, a.body k = []) → a.Every (Act.Hears P) :=
    fun h hbody => Act.Every.single h hbody
  have hstore : (Act.store (.recvBuf src) ssmpBufEmpty).Every (Act.Hears P) :=
    hsingle hsrc fun _ => rfl
  have hsender : (Act.setSender id).Every (Act.Hears P) := hsingle trivial fun _ => rfl
  rcases hread src id with ⟨tail, heq, htail⟩
  rw [heq]
  refine EveryIn.append (EveryIn.map fun p _ => hsingle hsrc fun _ => rfl) ?_
  rcases htail with rfl | rfl
  · exact EveryIn.cons hsender (EveryIn.cons hstore EveryIn.nil)
  · exact EveryIn.cons hstore (EveryIn.cons hsender EveryIn.nil)

/-- Neither its tests nor what follows them touch a slot of another process. -/
theorem hears_recvColor (hread : ReadsPieces ps read) (me : Fin n) (color : Int → Int) :
    EveryIn (Act.Hears fun ue => participants me color ue ≠ 0)
      [.scan (ssmpColorBufInitPlatf me color).numUes
        (colorTest (ssmpColorBufInitPlatf me color) locks)
        (colorBody read (ssmpColorBufInitPlatf me color)) 0] := by
  have hw := ssmpColorBufInitPlatf_wellFormed me color
  refine EveryIn.cons (Act.Every.intro ?_ ?_) EveryIn.nil
  · intro k _ src lk htest
    have hmem := List.mem_of_getElem? (colorTest_some htest).1
    rw [← hw.same] at hmem
    exact mem_ssmpColorBufInitPlatf.1 hmem
  · intro k
    cases hk : (ssmpColorBufInitPlatf me color).buf[k]? with
    | none =>
        simp only [Act.body, colorBody, hk]
        exact EveryIn.nil
    | some src =>
        simp only [Act.body, colorBody, hk]
        exact hears_read hread (mem_ssmpColorBufInitPlatf.1 (List.mem_of_getElem? hk)) _

/-! ## Both receives -/

/-- With a participant's slot full, `ssmp_recv_color` returns what `ssmp_recv` returns from the same
state with the slots of all others hidden, and leaves the slots as that does.  It never touches the
slots of the others; and with a color that accepts everybody none is hidden. -/
theorem recvColor_eq_recv (b : Build) (hn : n ≤ 256) (me : Fin n) (color : Int → Int)
    (s : Sys b.layout n) (msg : Line)
    (hfull : ∃ ue, participants me color ue ≠ 0 ∧
      b.layout.stateOf (s.slot (ue, me)) = ssmpBufMessg) :
    let code := (b.platform me).ssmpRecvColorPlatf (ssmpColorBufInitPlatf me color)
    (∃ t t', (s.enter me code msg).Alone me t ∧ (t.proc me).code = [] ∧
        ((s.hide me color).enter me (b.platform me).ssmpRecvPlatf msg).Alone me t' ∧
        (t'.proc me).code = [] ∧
        (t.proc me).msg = (t'.proc me).msg ∧ (t.hide me color).slot = t'.slot) ∧
      EveryIn (Act.Hears fun ue => participants me color ue ≠ 0) code ∧
      (∀ k ue, participants me color ue = 0 →
        ((s.enter me code msg).runAlone me k).slot (ue, me) = s.slot (ue, me)) ∧
      ((∀ ue, ue ≠ me → participants me color ue ≠ 0) → s.hide me color = s) := by
  intro code
  rcases b.scansPieces me with ⟨lk, locks, read, readColor, hread, hreadColor, hscans⟩
  have hhears : EveryIn (Act.Hears fun ue => participants me color ue ≠ 0) code := by
    rw [show code = _ from hscans.recvColor _]
    exact hears_recvColor hreadColor me color
  refine ⟨?_, hhears, ?_, hide_eq_self⟩
  · rcases exists_firstFull hfull with ⟨src, hfirst⟩
    rcases @firstFull_color _ _ _ _ s color readColor locks hfirst with
      ⟨k, hk, htest, hbody, hmiss⟩
    rcases @firstFull_recv _ _ _ _ s color read lk hfirst with ⟨htest', hbody', hmiss'⟩
    have hhide := @hide_slot_participant _ _ me src s color hfirst.1
    rcases alone_scan_read (s := s.enter me code msg) b.senderBytes_pos hreadColor hk hmiss htest
      hfirst.2.1 hbody (by rw [enter_proc]; exact hscans.recvColor _) with
      ⟨t, hrun, hidle, hmsg, hslot⟩
    rcases alone_scan_read (s := (s.hide me color).enter me (b.platform me).ssmpRecvPlatf msg)
      b.senderBytes_pos hread src.isLt hmiss' htest' (by rw [← hfirst.2.1, ← hhide]; rfl) hbody'
      (by rw [enter_proc]; exact hscans.recv) with ⟨t', hrun', hidle', hmsg', hslot'⟩
    refine ⟨t, t', hrun, hidle, hrun', hidle', ?_, ?_⟩
    · -- the id fits into a byte
      have hid : (UInt8.ofNat src.val).toUInt32 = UInt32.ofNat src.val := by
        have hlt := src.isLt
        rw [← UInt32.toNat_inj]
        simp
        omega
      have hline : ((s.hide me color).enter me (b.platform me).ssmpRecvPlatf msg).slot (src, me) =
          (s.enter me code msg).slot (src, me) := hhide
      rw [hmsg, hmsg', hid, hline, enter_proc, enter_proc]
    · rw [hslot']
      exact hide_release hfirst.1 hslot
  · intro k ue hpart
    refine (runAlone_slot_of_hears (P := fun ue => participants me color ue ≠ 0) ?_ ?_ k).trans rfl
    · rw [enter_proc]
      exact hhears
    · intro src hsrc heq
      exact hsrc ((Prod.mk.inj heq).1 ▸ hpart)

/-- Process 0 of three has sent a message to process 1. -/
def oneSent : Sys plainBuild.layout 3 :=
  ((Sys.fresh plainBuild.layout 3).enter 0 ((plainBuild.platform 0).ssmpSendPlatf 1)
    fun _ => 7).runAlone 0 18

/-- So has process 2. -/
def twoSent : Sys plainBuild.layout 3 :=
  (oneSent.enter 2 ((plainBuild.platform 2).ssmpSendPlatf 1) fun _ => 8).runAlone 2 18

/-- A color of process 2 alone. -/
def onlyTwo (id : Int) : Int :=
  if id = 2 then 1 else 0

/-- The message of process 0, which process 1 does not accept, is hidden, and stays where it is. -/
theorem recvColor_eq_recv_twoSent :
    plainBuild.layout.stateOf (twoSent.slot (0, 1)) = ssmpBufMessg ∧
      (∃ t t', (twoSent.enter 1 ((plainBuild.platform 1).ssmpRecvColorPlatf
          (ssmpColorBufInitPlatf 1 onlyTwo)) fun _ => 0).Alone 1 t ∧ (t.proc 1).code = [] ∧
        (Sys.enter 1 (plainBuild.platform 1).ssmpRecvPlatf (fun _ => 0)
          (Sys.hide 1 onlyTwo twoSent)).Alone 1 t' ∧ (t'.proc 1).code = [] ∧
        (t.proc 1).msg = (t'.proc 1).msg ∧ (t.hide 1 onlyTwo).slot = t'.slot) ∧
      ∀ k, ((twoSent.enter 1 ((plainBuild.platform 1).ssmpRecvColorPlatf
        (ssmpColorBufInitPlatf 1 onlyTwo)) fun _ => 0).runAlone 1 k).slot (0, 1) =
          twoSent.slot (0, 1) := by
  -- process 1 accepts process 2, whose slot is full as well
  have hfull : ∃ ue, participants (1 : Fin 3) onlyTwo ue ≠ 0 ∧
      plainBuild.layout.stateOf (twoSent.slot (ue, 1)) = ssmpBufMessg :=
    ⟨2, by decide, by decide +kernel⟩
  have hmain := recvColor_eq_recv plainBuild (by decide) (1 : Fin 3) onlyTwo twoSent (fun _ => 0) hfull
  exact ⟨by decide +kernel, hmain.1, fun k => hmain.2.2.1 k 0 (by decide)⟩

end Restrict

end Ssmp
