import Mathlib.Data.List.Find
import Ssmp.Receive.Alone

/-!
# Cyclic — which slot the fair receive takes

`ssmp_recv_color_start` goes on from the value that the static `start_recv_from` has, whatever buffer
the call before it was on.  On slots that do not change it takes the first full one in the cyclic
order from that value (`start_takes_first`).  The sender that it reports is an entry of
`cbuf->from`, a `uint8_t`.
-/

namespace Ssmp

section Cyclic

variable {L : MsgLayout} {n : Nat} {me src : Fin n} {cbuf : ColorBuf n}

/-- The arrays of a color buffer in memory, with anything behind their entries. -/
def ColorBuf.padded (cbuf : ColorBuf n) (bufState buf : List (Fin n)) (fromIds : List UInt8) :
    ColorBuf n where
  numUes := cbuf.numUes
  bufState := cbuf.bufState ++ bufState
  buf := cbuf.buf ++ buf
  fromIds := cbuf.fromIds ++ fromIds

/-- The slot of entry `k` is full. -/
def Sys.entryFull (s : Sys L n) (me : Fin n) (cbuf : ColorBuf n) (k : Nat) : Bool :=
  match cbuf.bufState[k]? with
  | none => false
  | some src => L.stateOf (s.slot (src, me)) == ssmpBufMessg

/-- From `s` to `t` a call of the fair receive has taken entry `k`, which is that of `src`: the first
full one in the cyclic order from `start_recv_from`. -/
structure TakesFirst (cbuf : ColorBuf n) (me : Fin n) (k : Nat) (src : Fin n) (s t : Sys L n) :
    Prop where
  first : (scanOrder cbuf.numUes (s.proc me).startRecvFrom).find? (s.entryFull me cbuf) = some k
  below : k < cbuf.numUes
  bufState : cbuf.bufState[k]? = some src
  buf : cbuf.buf[k]? = some src
  fromIds : cbuf.fromIds[k]? = some (UInt8.ofNat src.val)
  returned : (t.proc me).code = []
  payload : L.payload (t.proc me).msg = L.payload (s.slot (src, me))
  slot : t.slot = Function.update s.slot (src, me) (L.setState ssmpBufEmpty (s.slot (src, me)))
  start : (t.proc me).startRecvFrom = (k + 1) % cbuf.numUes

/-- On slots that do not change and of which one at least is full, the call of `me` takes the first
full one; `Q src m` holds of the participant and of the message returned. -/
def FairReceive (b : Build) (cbuf : ColorBuf n) (me : Fin n) (Q : Fin n → Line → Prop) : Prop :=
  ∀ (s : Sys b.layout n) (msg : Line) bufState buf fromIds,
    (∃ ue ∈ cbuf.buf, b.layout.stateOf (s.slot (ue, me)) = ssmpBufMessg) →
    ∃ k src t, (s.enter me ((b.platform me).ssmpRecvColorStartPlatf
        (cbuf.padded bufState buf fromIds)) msg).Alone me t ∧
      TakesFirst cbuf me k src s t ∧ Q src (t.proc me).msg

theorem mem_scanOrder {num k c : Nat} : k ∈ scanOrder num c ↔ k < num := by
  unfold scanOrder
  split
  · simp
    omega
  · simp

/-- A full slot among those of the participants has a first one. -/
theorem exists_first (hlen : cbuf.numUes = cbuf.buf.length) (hw : cbuf.WellFormed) {s : Sys L n}
    (hfull : ∃ ue ∈ cbuf.buf, L.stateOf (s.slot (ue, me)) = ssmpBufMessg) (c : Nat) :
    ∃ k, (scanOrder cbuf.numUes c).find? (s.entryFull me cbuf) = some k := by
  rcases hfull with ⟨ue, hmem, hstate⟩
  rcases List.getElem?_of_mem hmem with ⟨k, hk⟩
  have hlt := (List.getElem?_eq_some_iff.1 hk).1
  rw [← Option.isSome_iff_exists, List.find?_isSome]
  refine ⟨k, mem_scanOrder.2 (by omega), ?_⟩
  rw [hw.same] at hk
  simp [Sys.entryFull, hk, hstate]

/-- Below `num_ues` the arrays are those of the color buffer. -/
theorem padded_bufState {bufState buf : List (Fin n)} {fromIds : List UInt8} {j : Nat}
    (hj : j < cbuf.bufState.length) :
    (cbuf.padded bufState buf fromIds).bufState[j]? = cbuf.bufState[j]? :=
  List.getElem?_append_left hj

theorem colorBody_padded {bufState buf : List (Fin n)} {fromIds : List UInt8} {k : Nat}
    {id : UInt8} (read : Fin n → UInt32 → List (Act n)) (hbuf : cbuf.buf[k]? = some src)
    (hfrom : cbuf.fromIds[k]? = some id) :
    colorBody read (cbuf.padded bufState buf fromIds) k = read src id.toUInt32 := by
  have hbufk : (cbuf.padded bufState buf fromIds).buf[k]? = some src := by
    rw [ColorBuf.padded, List.getElem?_append_left (List.getElem?_eq_some_iff.1 hbuf).1, hbuf]
  have hfromk : (cbuf.padded bufState buf fromIds).fromIds.getD k 0 = id := by
    rw [ColorBuf.padded, List.getD_eq_getElem?_getD,
      List.getElem?_append_left (List.getElem?_eq_some_iff.1 hfrom).1, hfrom]
    rfl
  simp only [colorBody, hbufk, hfromk]

theorem fairReceive_low (b : Build) (hlen : cbuf.numUes = cbuf.buf.length) (hw : cbuf.WellFormed)
    (me : Fin n) :
    FairReceive b cbuf me fun src m => b.layout.senderOf m = src.val % 256 := by
  intro s msg bufState buf fromIds hfull
  rcases b.scansPieces me with ⟨lk, locks, read, readColor, _, hread, hscans⟩
  rcases exists_first hlen hw hfull (s.proc me).startRecvFrom with ⟨k, hfirst⟩
  have hstate : cbuf.numUes = cbuf.bufState.length := by rw [hlen, hw.same]
  have hcode := hscans.recvColorStart (cbuf.padded bufState buf fromIds)
  generalize hstart : s.enter me _ msg = s₁
  have hproc : s₁.proc me = { s.proc me with
      code := (b.platform me).ssmpRecvColorStartPlatf (cbuf.padded bufState buf fromIds)
      msg := msg
      arg := msg } := by
    rw [← hstart, enter_proc]
  have hslot : s₁.slot = s.slot := by
    rw [← hstart]
    rfl
  have hfind : (scanOrder cbuf.numUes (s₁.proc me).startRecvFrom).find?
      (s₁.hit me (colorTest (cbuf.padded bufState buf fromIds) locks)) = some k := by
    rw [hproc, ← hfirst]
    refine List.find?_congr ?_
    intro j hj
    simp only [Sys.hit, Sys.entryFull, colorTest,
      padded_bufState (Nat.lt_of_lt_of_eq (mem_scanOrder.1 hj) hstate), hslot]
    cases cbuf.bufState[j]? <;> rfl
  rcases alone_scanStart hfind (by rw [hproc]; exact hcode) with
    ⟨hk, src, lk', u, htest, hrun, hprobed, hcursor⟩
  -- the entries of the three arrays at `k`
  have hbufState : cbuf.bufState[k]? = some src := by
    rw [← padded_bufState (Nat.lt_of_lt_of_eq hk hstate)]
    exact (colorTest_some htest).1
  have hbuf : cbuf.buf[k]? = some src := by
    rw [hw.same]
    exact hbufState
  have hfrom : cbuf.fromIds[k]? = some (UInt8.ofNat src.val) := by
    rw [hw.ids, List.getElem?_map, hbuf]
    rfl
  have hcodeu := hprobed.code
  rw [colorBody_padded readColor hbuf hfrom, List.append_assoc] at hcodeu
  rcases alone_read hread hcodeu with ⟨v, hrunv, htakes⟩
  rcases hprobed.takes b.senderBytes_pos htakes with ⟨hmsg, hslots⟩
  have hend := hrun.trans (hrunv.trans (Sys.Alone.head htakes.code Sys.Alone.refl))
  refine ⟨k, src, _, hend, ⟨hfirst, hk, hbufState, hbuf, hfrom, ?_, ?_, ?_, ?_⟩, ?_⟩
  · simp only [Sys.execAct, setProc_proc]
    rfl
  · simp only [Sys.execAct, setProc_proc, hmsg]
    rw [MsgLayout.payload_setSender, payload_copyLine b.copiesPayload_loads, hslot]
  · simp only [Sys.execAct, setProc_slot, hslots, hslot]
  · -- one further, and from the end to 0
    simp only [Sys.execAct, setProc_proc, htakes.start, hcursor]
    rcases Nat.lt_or_ge (k + 1) cbuf.numUes with hlt | hge
    · rw [Nat.mod_eq_of_lt hlt]
      exact if_neg (Nat.ne_of_lt hlt)
    · have heq : k + 1 = cbuf.numUes := by omega
      rw [heq, Nat.mod_self]
      exact if_pos rfl
  · simp only [Sys.execAct, setProc_proc, hmsg]
    rw [b.layout.senderOf_setSender b.senderFits]
    have hid : (UInt8.ofNat src.val).toUInt32.toNat = src.val % 256 := by simp
    rw [hid, b.mod_senderBytes (Nat.mod_lt _ (by decide))]

/-- A slot that is full alone is taken. -/
theorem TakesFirst.eq_of_one {s t : Sys L n} {k : Nat} {ue : Fin n}
    (h : TakesFirst cbuf me k src s t)
    (hone : ∀ src, L.stateOf (s.slot (src, me)) = ssmpBufMessg → src = ue) : src = ue := by
  have hhit := List.find?_some h.first
  simp only [Sys.entryFull, h.bufState, beq_iff_eq] at hhit
  exact hone src hhit

/-- With a participant of a higher id the sender is wrong where only its slot is full. -/
theorem FairReceive.ids_lt {b : Build} {color : Int → Int}
    (h : FairReceive b (ssmpColorBufInitPlatf me color) me
      fun src m => b.layout.senderOf m = src.val) :
    ∀ ue ∈ (ssmpColorBufInitPlatf me color).buf, ue.val < 256 := by
  intro ue hue
  have hlow := fairReceive_low b (ssmpColorBufInitPlatf_numUes me color)
    (ssmpColorBufInitPlatf_wellFormed me color) me
  have hone : ∀ src, b.layout.stateOf (((Sys.fresh b.layout n).setSlot (ue, me)
      (b.layout.setState ssmpBufMessg fun _ => 0)).slot (src, me)) = ssmpBufMessg → src = ue := by
    intro src hsrc
    by_contra hne
    have hother : ((Sys.fresh b.layout n).setSlot (ue, me)
        (b.layout.setState ssmpBufMessg fun _ => 0)).slot (src, me) =
        (Sys.fresh b.layout n).slot (src, me) :=
      Function.update_of_ne (fun heq => hne (Prod.mk.inj heq).1) _ _
    rw [hother] at hsrc
    have hempty : b.layout.stateOf ((Sys.fresh b.layout n).slot (src, me)) = ssmpBufEmpty :=
      Sys.init_fresh.empty (src, me)
    exact absurd (hempty.symm.trans hsrc) (by decide)
  have hfull : ∃ ue' ∈ (ssmpColorBufInitPlatf me color).buf, b.layout.stateOf
      (((Sys.fresh b.layout n).setSlot (ue, me)
        (b.layout.setState ssmpBufMessg fun _ => 0)).slot (ue', me)) = ssmpBufMessg :=
    ⟨ue, hue, by simp [Sys.setSlot]⟩
  rcases h _ (fun _ => 0) [] [] [] hfull with ⟨k, src, t, hrun, htakes, hsender⟩
  rcases hlow _ (fun _ => 0) [] [] [] hfull with ⟨k', src', t', hrun', htakes', hsender'⟩
  -- both speak of the one state in which the call returns
  have hsame := hrun.unique hrun' htakes.returned htakes'.returned
  rw [htakes.eq_of_one hone] at hsender
  rw [htakes'.eq_of_one hone, ← hsame, hsender] at hsender'
  omega

/-- On every color buffer the fair receive takes the first full slot, whatever lies behind its arrays.
It reports the right sender always if and only if all participants have ids below 256. -/
theorem fairReceive_iff (b : Build) (me : Fin n) (color : Int → Int) :
    FairReceive b (ssmpColorBufInitPlatf me color) me (fun _ _ => True) ∧
      (FairReceive b (ssmpColorBufInitPlatf me color) me
          (fun src m => b.layout.senderOf m = src.val) ↔
        ∀ ue ∈ (ssmpColorBufInitPlatf me color).buf, ue.val < 256) := by
  have hlow := fairReceive_low b (ssmpColorBufInitPlatf_numUes me color)
    (ssmpColorBufInitPlatf_wellFormed me color) me
  refine ⟨?_, FairReceive.ids_lt, ?_⟩
  · intro s msg bufState buf fromIds hfull
    rcases hlow s msg bufState buf fromIds hfull with ⟨k, src, t, hrun, htakes, _⟩
    exact ⟨k, src, t, hrun, htakes, trivial⟩
  · intro hids s msg bufState buf fromIds hfull
    rcases hlow s msg bufState buf fromIds hfull with ⟨k, src, t, hrun, htakes, hsender⟩
    refine ⟨k, src, t, hrun, htakes, hsender.trans ?_⟩
    exact Nat.mod_eq_of_lt (hids src (List.mem_of_getElem? htakes.buf))

theorem full_highSend :
    plainBuild.layout.stateOf (highSend.slot (256, 0)) = ssmpBufMessg := by
  decide +kernel

/-- Process 256 is the only participant. -/
theorem mem_onlyHigh {ue : Fin 257} :
    ue ∈ (ssmpColorBufInitPlatf 0 onlyHigh).buf ↔ ue = 256 := by
  rw [mem_ssmpColorBufInitPlatf]
  revert ue
  decide +kernel

/-- Process 0 of 257 accepts process 256 alone, and takes its message for one of process 0. -/
theorem not_fairReceive_high :
    (system plainBuild.layout 257 (plainCalls 257)).Reachable highSend ∧
      (∃ t, (highSend.enter 0 ((plainBuild.platform 0).ssmpRecvColorStartPlatf
          ((ssmpColorBufInitPlatf 0 onlyHigh).padded [] [] [])) fun _ => 0).Alone 0 t ∧
        (t.proc 0).code = [] ∧
        plainBuild.layout.payload (t.proc 0).msg =
          plainBuild.layout.payload (highSend.slot (256, 0)) ∧
        plainBuild.layout.senderOf (t.proc 0).msg = 0) ∧
      ¬ FairReceive plainBuild (ssmpColorBufInitPlatf (0 : Fin 257) onlyHigh) 0
        fun src m => plainBuild.layout.senderOf m = src.val := by
  refine ⟨reachable_highSend, ?_, ?_⟩
  · rcases fairReceive_low plainBuild (ssmpColorBufInitPlatf_numUes 0 onlyHigh)
      (ssmpColorBufInitPlatf_wellFormed 0 onlyHigh) 0 highSend (fun _ => 0) [] [] []
      ⟨256, mem_onlyHigh.2 rfl, full_highSend⟩ with ⟨k, src, t, hrun, htakes, hsender⟩
    have hsrc : src = 256 := mem_onlyHigh.1 (List.mem_of_getElem? htakes.buf)
    subst hsrc
    exact ⟨t, hrun, htakes.returned, htakes.payload, hsender⟩
  · intro h
    exact absurd (h.ids_lt 256 (mem_onlyHigh.2 rfl)) (by decide)

end Cyclic

end Ssmp
