import Ssmp.Process

/-!
# Discipline — when a call uses its slots safely

A call is *disciplined* (`Disciplined`) if its actions use slots in the right order: wait for the
empty slot, copy the whole payload, publish the state byte last; wait for the full slot, copy the
whole payload, release.  A typestate follows the call through its actions.

The main result, `Good.step`, says that in a system of disciplined calls every ordered pair of
processes runs the one-slot channel of `Ssmp.Lib.OneSlot`, whatever calls the processes mix and
however their actions interleave.  A platform has to prove only that its functions are disciplined.
-/

namespace Ssmp

open Lib

/-! ## Typestates -/

/-- How far a process is in its use of a slot.  `clean` says that the payload of the message buffer
is still the one passed to the call, `marked` that its state byte is `SSMP_BUF_MESSG`, `lk` that
the slot was taken by compare-and-swap; `done` lists the pieces copied so far. -/
inductive Typestate (n : Nat) where
  | idle (clean : Bool)
  | sending (dst : Fin n) (lk marked : Bool) (done : List Piece)
  | reading (src : Fin n) (lk : Bool) (done : List Piece)

/-- `Disciplined L t code`: from typestate `t` the actions `code` use the slots safely and leave
none in use. -/
inductive Disciplined (L : MsgLayout) {n : Nat} : Typestate n → List (Act n) → Prop where
  | nil {b : Bool} : Disciplined L (.idle b) []
  | awaitSend {d : Fin n} {c : List (Act n)} (h : Disciplined L (.sending d false false []) c) :
      Disciplined L (.idle true) (.await (.sendBuf d) ssmpBufEmpty :: c)
  | casSend {d : Fin n} {c : List (Act n)} (h : Disciplined L (.sending d true false []) c) :
      Disciplined L (.idle true) (.cas (.sendBuf d) ssmpBufEmpty ssmpBufLockd :: c)
  | isFree {b : Bool} {d : Fin n} {c : List (Act n)} (h : Disciplined L (.idle b) c) :
      Disciplined L (.idle b) (.isFree d :: c)
  | mark {d : Fin n} {lk mk : Bool} {done : List Piece} {c : List (Act n)}
      (h : Disciplined L (.sending d lk true done) c) :
      Disciplined L (.sending d lk mk done) (.setState ssmpBufMessg :: c)
  | fill {d : Fin n} {lk mk : Bool} {done : List Piece} {pc : Piece} {c : List (Act n)}
      (hst : ¬ pc.Has L.state) (h : Disciplined L (.sending d lk mk (pc :: done)) c) :
      Disciplined L (.sending d lk mk done) (.copyOut d pc :: c)
  | publish {d : Fin n} {lk : Bool} {done : List Piece} {pc : Piece} {c : List (Act n)}
      (hst : pc.Has L.state) (hall : ∀ b, b ∈ L.bytesOf done) (h : Disciplined L (.idle true) c) :
      Disciplined L (.sending d lk true done) (.copyOut d pc :: c)
  | trail {b : Bool} {d : Fin n} {pc : Piece} {c : List (Act n)}
      (hst : ¬ pc.Has L.state) (hno : L.bytesOf [pc] = ∅) (h : Disciplined L (.idle b) c) :
      Disciplined L (.idle b) (.copyOut d pc :: c)
  | storeMessg {d : Fin n} {lk mk : Bool} {done : List Piece} {c : List (Act n)}
      (hall : ∀ b, b ∈ L.bytesOf done) (h : Disciplined L (.idle true) c) :
      Disciplined L (.sending d lk mk done) (.store (.sendBuf d) ssmpBufMessg :: c)
  | awaitRecv {b : Bool} {r : Fin n} {c : List (Act n)} (h : Disciplined L (.reading r false []) c) :
      Disciplined L (.idle b) (.await (.recvBuf r) ssmpBufMessg :: c)
  | casRecv {b : Bool} {r : Fin n} {c : List (Act n)} (h : Disciplined L (.reading r true []) c) :
      Disciplined L (.idle b) (.cas (.recvBuf r) ssmpBufMessg ssmpBufLockd :: c)
  | read {r : Fin n} {lk : Bool} {done : List Piece} {pc : Piece} {c : List (Act n)}
      (h : Disciplined L (.reading r lk (pc :: done)) c) :
      Disciplined L (.reading r lk done) (.copyIn r pc :: c)
  | storeEmpty {r : Fin n} {lk : Bool} {done : List Piece} {c : List (Act n)}
      (hall : ∀ b, b ∈ L.bytesOf done) (h : Disciplined L (.idle false) c) :
      Disciplined L (.reading r lk done) (.store (.recvBuf r) ssmpBufEmpty :: c)
  | senderReading {r : Fin n} {lk : Bool} {done : List Piece} {v : UInt32} {c : List (Act n)}
      (h : Disciplined L (.reading r lk done) c) :
      Disciplined L (.reading r lk done) (.setSender v :: c)
  | senderIdle {b : Bool} {v : UInt32} {c : List (Act n)} (h : Disciplined L (.idle b) c) :
      Disciplined L (.idle b) (.setSender v :: c)
  | advance {b : Bool} {num : Nat} {c : List (Act n)} (h : Disciplined L (.idle b) c) :
      Disciplined L (.idle b) (.advance num :: c)
  | scan {b : Bool} {num k : Nat} {test : Nat → Option (Fin n × Bool)} {body : Nat → List (Act n)}
      {c : List (Act n)}
      (h : ∀ i, i < num → ∀ r lk, test i = some (r, lk) →
        Disciplined L (.reading r lk []) (body i ++ c)) :
      Disciplined L (.idle b) (.scan num test body k :: c)
  | scanStart {b : Bool} {num : Nat} {test : Nat → Option (Fin n × Bool)}
      {body : Nat → List (Act n)} {c : List (Act n)}
      (h : ∀ i, i < num → ∀ r lk, test i = some (r, lk) →
        Disciplined L (.reading r lk []) (body i ++ c)) :
      Disciplined L (.idle b) (.scanStart num test body :: c)

/-- Every call the program allows is disciplined; a call that sends without a test of its own
relies on what `ssmp_send_is_free` has returned. -/
def Program.Disciplined (L : MsgLayout) {n : Nat} (prog : Program n) : Prop :=
  ∀ me free code, prog me free code →
    Ssmp.Disciplined L (.idle true) code ∨
      ∃ d, free d = true ∧ Ssmp.Disciplined L (.sending d false false []) code

/-! ## The one-slot channel of a pair -/

section View

variable {L : MsgLayout} {n : Nat}

/-- The slot that typestate `t` holds by compare-and-swap. -/
@[simp] def Typestate.lockedRef : Typestate n → Option (SlotRef n)
  | .idle _ => none
  | .sending d lk _ _ => if lk then some (.sendBuf d) else none
  | .reading r lk _ => if lk then some (.recvBuf r) else none

/-- What typestate `t` says about the fields of its process. -/
structure LocalOk (L : MsgLayout) (t : Typestate n) (p : Proc n) : Prop where
  locked : p.locked = t.lockedRef
  clean : (t = .idle true ∨ ∃ d lk mk done, t = .sending d lk mk done) →
    L.payload p.msg = L.payload p.arg
  marked : ∀ d lk done, t = .sending d lk true done → L.stateOf p.msg = ssmpBufMessg

/-- Between sends, a process that knows its slot to `j` to be free is in possession of it. -/
def sparePhase (L : MsgLayout) (free : Fin n → Bool) (j : Fin n) :
    OneSlot.SendPhase (Fin L.payloadBytes) :=
  if free j then .filling false ∅ else .idle

/-- The sender's phase on its slot to `j`. -/
def sendPhase (L : MsgLayout) (t : Typestate n) (free : Fin n → Bool) (j : Fin n) :
    OneSlot.SendPhase (Fin L.payloadBytes) :=
  match t with
  | .sending d lk _ done => if j = d then .filling lk (L.bytesOf done) else sparePhase L free j
  | _ => sparePhase L free j

/-- The receiver's phase on its slot from `i`. -/
def recvPhase (L : MsgLayout) (t : Typestate n) (i : Fin n) :
    OneSlot.RecvPhase (Fin L.payloadBytes) :=
  match t with
  | .reading r lk done => if i = r then .reading lk (L.bytesOf done) else .idle
  | _ => .idle

@[simp] theorem sendPhase_idle (b : Bool) (free : Fin n → Bool) (j : Fin n) :
    sendPhase L (.idle b) free j = sparePhase L free j := rfl

@[simp] theorem sendPhase_reading (r : Fin n) (lk : Bool) (done : List Piece) (free : Fin n → Bool)
    (j : Fin n) : sendPhase L (.reading r lk done) free j = sparePhase L free j := rfl

@[simp] theorem sendPhase_self (d : Fin n) (lk mk : Bool) (done : List Piece) (free : Fin n → Bool) :
    sendPhase L (.sending d lk mk done) free d = .filling lk (L.bytesOf done) := by
  simp [sendPhase]

theorem sendPhase_ne {d j : Fin n} (hj : j ≠ d) (lk mk : Bool) (done : List Piece)
    (free : Fin n → Bool) :
    sendPhase L (.sending d lk mk done) free j = sparePhase L free j := by
  simp [sendPhase, hj]

theorem sparePhase_update {d j : Fin n} (hj : j ≠ d) (free : Fin n → Bool) (v : Bool) :
    sparePhase L (Function.update free d v) j = sparePhase L free j := by
  simp [sparePhase, hj]

@[simp] theorem recvPhase_idle (b : Bool) (i : Fin n) : recvPhase L (.idle b) i = .idle := rfl

@[simp] theorem recvPhase_sending (d : Fin n) (lk mk : Bool) (done : List Piece) (i : Fin n) :
    recvPhase L (.sending d lk mk done) i = .idle := rfl

@[simp] theorem recvPhase_self (r : Fin n) (lk : Bool) (done : List Piece) :
    recvPhase L (.reading r lk done) r = .reading lk (L.bytesOf done) := by
  simp [recvPhase]

theorem recvPhase_ne {r i : Fin n} (hi : i ≠ r) (lk : Bool) (done : List Piece) :
    recvPhase L (.reading r lk done) i = .idle := by
  simp [recvPhase, hi]

/-- The slot from `i` to `j`, with what its two ends are doing, as a one-slot channel. -/
def view (ts : Fin n → Typestate n) (s : Sys L n) (i j : Fin n) :
    OneSlot.State (Fin L.payloadBytes) UInt8 UInt8 where
  src := L.payload (s.proc i).arg
  dst := L.payload (s.proc j).msg
  word := L.payload (s.slot (i, j))
  flag := L.stateOf (s.slot (i, j))
  snd := sendPhase L (ts i) (s.proc i).free j
  rcv := recvPhase L (ts j) i
  sent := s.sent (i, j)
  recvd := s.recvd (i, j)

/-- The typestates `ts` describe the processes, and every slot is a one-slot channel. -/
structure Good (ts : Fin n → Typestate n) (s : Sys L n) : Prop where
  disciplined : ∀ p, Disciplined L (ts p) (s.proc p).code
  ok : ∀ p, LocalOk L (ts p) (s.proc p)
  slots : ∀ i j, OneSlot.Inv slotCode (view ts s i j)

/-! ## Frames: what a step leaves as it is -/

variable {ts : Fin n → Typestate n} {t' : Typestate n} {s s' : Sys L n} {me d r i j : Fin n}

/-- A step of `me` that touches at most its own slot to `d`. -/
structure SendFrame (ts : Fin n → Typestate n) (t' : Typestate n) (me d : Fin n)
    (s s' : Sys L n) : Prop where
  proc : ∀ p, p ≠ me → s'.proc p = s.proc p
  arg : (s'.proc me).arg = (s.proc me).arg
  msg : L.payload (s'.proc me).msg = L.payload (s.proc me).msg
  slot : ∀ ij, ij ≠ (me, d) → s'.slot ij = s.slot ij
  sent : ∀ ij, ij ≠ (me, d) → s'.sent ij = s.sent ij
  recvd : s'.recvd = s.recvd
  send : ∀ j, j ≠ d →
    sendPhase L t' (s'.proc me).free j = sendPhase L (ts me) (s.proc me).free j
  recv : ∀ i, recvPhase L t' i = recvPhase L (ts me) i

/-- A step of `me` that touches at most its slot from `r` and its own message buffer. -/
structure RecvFrame (ts : Fin n → Typestate n) (t' : Typestate n) (me r : Fin n)
    (s s' : Sys L n) : Prop where
  proc : ∀ p, p ≠ me → s'.proc p = s.proc p
  arg : (s'.proc me).arg = (s.proc me).arg
  slot : ∀ ij, ij ≠ (r, me) → s'.slot ij = s.slot ij
  sent : s'.sent = s.sent
  recvd : ∀ ij, ij ≠ (r, me) → s'.recvd ij = s.recvd ij
  send : ∀ j, sendPhase L t' (s'.proc me).free j = sendPhase L (ts me) (s.proc me).free j
  recv : ∀ i, i ≠ r → recvPhase L t' i = .idle ∧ recvPhase L (ts me) i = .idle

theorem SendFrame.recvPhase_update (h : SendFrame ts t' me d s s') (j i : Fin n) :
    recvPhase L (Function.update ts me t' j) i = recvPhase L (ts j) i := by
  by_cases hj : j = me
  · subst hj
    simpa using h.recv i
  · simp [hj]

theorem SendFrame.payload_msg (h : SendFrame ts t' me d s s') (j : Fin n) :
    L.payload (s'.proc j).msg = L.payload (s.proc j).msg := by
  by_cases hj : j = me
  · subst hj
    exact h.msg
  · rw [h.proc j hj]

/-- On every other pair the view is unchanged. -/
theorem SendFrame.view_eq (h : SendFrame ts t' me d s s') (hij : (i, j) ≠ (me, d)) :
    view (Function.update ts me t') s' i j = view ts s i j := by
  have hslot := h.slot (i, j) hij
  have hsent := h.sent (i, j) hij
  by_cases hi : i = me
  · subst hi
    -- another slot of the same sender
    have hj : j ≠ d := fun hd => hij (by rw [hd])
    simp [view, hslot, hsent, h.recvd, h.payload_msg, h.recvPhase_update, h.arg, h.send j hj]
  · simp [view, hslot, hsent, h.recvd, h.payload_msg, h.recvPhase_update, h.proc i hi, hi]

/-- The view of the pair itself, with the parts the frame fixes. -/
theorem SendFrame.view_self (h : SendFrame ts t' me d s s') :
    view (Function.update ts me t') s' me d =
      { view ts s me d with
        word := L.payload (s'.slot (me, d))
        flag := L.stateOf (s'.slot (me, d))
        snd := sendPhase L t' (s'.proc me).free d
        sent := s'.sent (me, d) } := by
  simp [view, h.recvd, h.payload_msg, h.recvPhase_update, h.arg]

theorem RecvFrame.sendPhase_update (h : RecvFrame ts t' me r s s') (i j : Fin n) :
    sendPhase L (Function.update ts me t' i) (s'.proc i).free j =
      sendPhase L (ts i) (s.proc i).free j := by
  by_cases hi : i = me
  · subst hi
    simpa using h.send j
  · simp [hi, h.proc i hi]

theorem RecvFrame.arg_eq (h : RecvFrame ts t' me r s s') (i : Fin n) :
    (s'.proc i).arg = (s.proc i).arg := by
  by_cases hi : i = me
  · subst hi
    exact h.arg
  · rw [h.proc i hi]

/-- On every other pair only an unused message buffer may change. -/
theorem RecvFrame.view_steps (h : RecvFrame ts t' me r s s') (hij : (i, j) ≠ (r, me)) :
    OneSlot.Steps slotCode (view ts s i j) (view (Function.update ts me t') s' i j) := by
  have hslot := h.slot (i, j) hij
  have hrecvd := h.recvd (i, j) hij
  by_cases hj : j = me
  · subst hj
    -- the copy may have changed the message buffer, which this pair does not use
    have hi : i ≠ r := fun hr => hij (by rw [hr])
    rcases h.recv i hi with ⟨hnew, hold⟩
    have hview : view (Function.update ts j t') s' i j =
        { view ts s i j with dst := L.payload (s'.proc j).msg } := by
      simp [view, hslot, hrecvd, h.sent, h.arg_eq, h.sendPhase_update, hnew, hold]
    rw [hview]
    exact Relation.ReflTransGen.single (OneSlot.Step.scratch _ hold)
  · have hview : view (Function.update ts me t') s' i j = view ts s i j := by
      simp [view, hslot, hrecvd, h.sent, h.arg_eq, h.sendPhase_update, h.proc j hj, hj]
    rw [hview]
    exact Relation.ReflTransGen.refl

theorem RecvFrame.view_self (h : RecvFrame ts t' me r s s') :
    view (Function.update ts me t') s' r me =
      { view ts s r me with
        dst := L.payload (s'.proc me).msg
        word := L.payload (s'.slot (r, me))
        flag := L.stateOf (s'.slot (r, me))
        rcv := recvPhase L t' r
        recvd := s'.recvd (r, me) } := by
  simp [view, h.sent, h.arg_eq, h.sendPhase_update]

/-! ## One action of a disciplined call -/

/-- What one action of `me` must show: some typestate describes `me` after it, no other process
changed, and every pair ran its one-slot channel. -/
def Simulates (ts : Fin n → Typestate n) (s : Sys L n) (me : Fin n) (s' : Sys L n) : Prop :=
  ∃ t', Disciplined L t' (s'.proc me).code ∧ LocalOk L t' (s'.proc me) ∧
    (∀ p, p ≠ me → s'.proc p = s.proc p) ∧
    ∀ i j, OneSlot.Steps slotCode (view ts s i j) (view (Function.update ts me t') s' i j)

theorem SendFrame.simulates (h : SendFrame ts t' me d s s')
    (hd : Disciplined L t' (s'.proc me).code) (hok : LocalOk L t' (s'.proc me))
    (hself : OneSlot.Steps slotCode (view ts s me d) (view (Function.update ts me t') s' me d)) :
    Simulates ts s me s' := by
  refine ⟨t', hd, hok, h.proc, ?_⟩
  intro i j
  by_cases hij : (i, j) = (me, d)
  · cases hij
    exact hself
  · rw [h.view_eq hij]
    exact Relation.ReflTransGen.refl

theorem RecvFrame.simulates (h : RecvFrame ts t' me r s s')
    (hd : Disciplined L t' (s'.proc me).code) (hok : LocalOk L t' (s'.proc me))
    (hself : OneSlot.Steps slotCode (view ts s r me) (view (Function.update ts me t') s' r me)) :
    Simulates ts s me s' := by
  refine ⟨t', hd, hok, h.proc, ?_⟩
  intro i j
  by_cases hij : (i, j) = (r, me)
  · cases hij
    exact hself
  · exact h.view_steps hij

theorem LocalOk.idle {b : Bool} {p : Proc n} (hl : p.locked = none)
    (hc : b = true → L.payload p.msg = L.payload p.arg) : LocalOk L (.idle b) p := by
  refine ⟨hl, ?_, by simp⟩
  rintro (hb | ⟨_, _, _, _, h⟩)
  · exact hc (by simpa using hb)
  · cases h

theorem LocalOk.sending {lk mk : Bool} {done : List Piece} {p : Proc n}
    (hl : p.locked = if lk then some (.sendBuf d) else none)
    (hc : L.payload p.msg = L.payload p.arg) (hm : mk = true → L.stateOf p.msg = ssmpBufMessg) :
    LocalOk L (.sending d lk mk done) p := by
  refine ⟨hl, fun _ => hc, ?_⟩
  intro d' lk' done' h
  -- the two typestates agree, so their marks do
  exact hm (by simpa using congrArg (fun t => match t with
    | Typestate.sending _ _ m _ => m
    | _ => false) h)

theorem LocalOk.reading {lk : Bool} {done : List Piece} {p : Proc n}
    (hl : p.locked = if lk then some (.recvBuf r) else none) :
    LocalOk L (.reading r lk done) p := by
  refine ⟨hl, ?_, by simp⟩
  rintro (h | ⟨_, _, _, _, h⟩) <;> cases h

theorem Good.at {t : Typestate n} (h : Good ts s) (ht : ts me = t) : LocalOk L t (s.proc me) :=
  ht ▸ h.ok me

theorem Good.clean_sending {lk mk : Bool} {done : List Piece} (h : Good ts s)
    (ht : ts me = .sending d lk mk done) :
    L.payload (s.proc me).msg = L.payload (s.proc me).arg :=
  (h.at ht).clean (Or.inr ⟨d, lk, mk, done, rfl⟩)

theorem sparePhase_cases (free : Fin n → Bool) (j : Fin n) :
    sparePhase L free j = .idle ∨ sparePhase L free j = .filling false ∅ := by
  cases h : free j <;> simp [sparePhase, h]

/-- Between sends the slot of a pair is unused by its sender, or known to be free. -/
theorem view_snd_idle {b : Bool} (ht : ts me = .idle b) :
    (view ts s me d).snd = .idle ∨ (view ts s me d).snd = .filling false ∅ := by
  simpa [view, ht] using sparePhase_cases (L := L) (s.proc me).free d

theorem Good.stay (h : Good ts s) (me : Fin n) : Simulates ts s me s := by
  refine ⟨ts me, h.disciplined me, h.ok me, fun _ _ => rfl, ?_⟩
  intro i j
  rw [Function.update_eq_self]
  exact Relation.ReflTransGen.refl

/-! ### Actions of a sender -/

theorem Good.awaitSend {c : List (Act n)} (h : Good ts s) (ht : ts me = .idle true)
    (hD : Disciplined L (.sending d false false []) c) :
    Simulates ts s me (s.execAct me (.await (.sendBuf d) ssmpBufEmpty) c) := by
  have hok := h.at ht
  by_cases hf : s.flag me (.sendBuf d) = ssmpBufEmpty
  · -- the wait ends: the sender is in possession of the empty slot
    simp only [Sys.execAct, hf, if_true]
    have hframe : SendFrame ts (.sending d false false []) me d s
        (s.setProc me { s.proc me with code := c }) := by
      constructor <;> simp +contextual [Sys.setProc, sendPhase_ne, ht]
    refine hframe.simulates (by simpa [Sys.setProc] using hD) ?_ ?_
    · exact LocalOk.sending (by simpa [Sys.setProc] using hok.locked)
        (by simpa [Sys.setProc] using hok.clean (Or.inl rfl)) (by simp)
    · have hself : OneSlot.Steps slotCode (view ts s me d) _ :=
        OneSlot.Steps.acquire (view_snd_idle ht) hf
      rw [hframe.view_self]
      simpa [view, Sys.setProc] using hself
  · -- the wait goes on
    simpa [Sys.execAct, hf] using h.stay me

theorem Good.casSend {c : List (Act n)} (h : Good ts s) (ht : ts me = .idle true)
    (hD : Disciplined L (.sending d true false []) c) :
    Simulates ts s me (s.execAct me (.cas (.sendBuf d) ssmpBufEmpty ssmpBufLockd) c) := by
  have hok := h.at ht
  by_cases hf : s.flag me (.sendBuf d) = ssmpBufEmpty
  · simp only [Sys.execAct, hf, if_true]
    have hframe : SendFrame ts (.sending d true false []) me d s
        ((s.setFlag me (.sendBuf d) ssmpBufLockd).setProc me
          { s.proc me with code := c, locked := some (.sendBuf d) }) := by
      constructor <;>
        simp +contextual [Sys.setProc, Sys.setFlag, Sys.setSlot, SlotRef.pair, sendPhase_ne, ht]
    refine hframe.simulates (by simpa [Sys.setProc] using hD) ?_ ?_
    · exact LocalOk.sending (by simp [Sys.setProc])
        (by simpa [Sys.setProc, Sys.setFlag, Sys.setSlot] using hok.clean (Or.inl rfl)) (by simp)
    · -- the flag changes in the same step, so nobody else finds the slot empty
      have hself : OneSlot.Step slotCode (view ts s me d) _ :=
        OneSlot.Step.lockEmpty (view_snd_idle ht) hf
      rw [hframe.view_self]
      refine Relation.ReflTransGen.single ?_
      simpa [view, Sys.setProc, Sys.setFlag, Sys.setSlot, SlotRef.pair, slotCode] using hself
  · simpa [Sys.execAct, hf] using h.stay me

theorem Good.isFree {b : Bool} {c : List (Act n)} (h : Good ts s) (ht : ts me = .idle b)
    (hD : Disciplined L (.idle b) c) :
    Simulates ts s me (s.execAct me (.isFree d) c) := by
  have hok := h.at ht
  simp only [Sys.execAct]
  have hframe : SendFrame ts (.idle b) me d s
      (s.setProc me { s.proc me with
        code := c
        free := Function.update (s.proc me).free d
          ((s.proc me).free d || decide (s.flag me (.sendBuf d) = ssmpBufEmpty)) }) := by
    constructor <;> simp +contextual [Sys.setProc, sparePhase_update, ht]
  refine hframe.simulates (by simpa [Sys.setProc] using hD) ?_ ?_
  · refine LocalOk.idle (by simpa [Sys.setProc] using hok.locked) ?_
    intro hb
    simpa [Sys.setProc] using hok.clean (Or.inl (by rw [hb]))
  · rw [hframe.view_self]
    by_cases hf : s.flag me (.sendBuf d) = ssmpBufEmpty
    · have hself : OneSlot.Steps slotCode (view ts s me d) _ :=
        OneSlot.Steps.acquire (view_snd_idle ht) hf
      simpa [view, Sys.setProc, sparePhase, hf] using hself
    · -- a test that fails leaves what is known about the slot as it is
      have hself : OneSlot.Steps slotCode (view ts s me d) (view ts s me d) :=
        Relation.ReflTransGen.refl
      simpa [view, Sys.setProc, sparePhase, hf, ht] using hself

theorem Good.mark {lk mk : Bool} {done : List Piece} {c : List (Act n)} (h : Good ts s)
    (ht : ts me = .sending d lk mk done) (hD : Disciplined L (.sending d lk true done) c) :
    Simulates ts s me (s.execAct me (.setState ssmpBufMessg) c) := by
  have hok := h.at ht
  simp only [Sys.execAct]
  have hframe : SendFrame ts (.sending d lk true done) me d s
      (s.setProc me { s.proc me with
        code := c, msg := L.setState ssmpBufMessg (s.proc me).msg }) := by
    constructor <;> simp +contextual [Sys.setProc, sendPhase_ne, ht]
  refine hframe.simulates (by simpa [Sys.setProc] using hD) ?_ ?_
  · exact LocalOk.sending (by simpa [Sys.setProc] using hok.locked)
      (by simpa [Sys.setProc] using h.clean_sending ht) (by simp [Sys.setProc])
  · -- the state byte of the message buffer is not in the view of a slot
    have hself : OneSlot.Steps slotCode (view ts s me d) (view ts s me d) :=
      Relation.ReflTransGen.refl
    rw [hframe.view_self]
    simpa [view, Sys.setProc, ht] using hself

/-- The bytes a piece brings to the slot are those of the message passed to the call. -/
theorem Good.overlay_out {lk mk : Bool} {done : List Piece} (h : Good ts s)
    (ht : ts me = .sending d lk mk done) (pc : Piece) :
    OneSlot.Overlay (L.bytesOf [pc]) (view ts s me d).src (view ts s me d).word
      (L.payload (copyPiece pc (s.proc me).msg (s.slot (me, d)))) := by
  have hover := L.payload_copyPiece pc (s.proc me).msg (s.slot (me, d))
  rw [h.clean_sending ht] at hover
  exact hover

theorem Good.fill {lk mk : Bool} {done : List Piece} {pc : Piece} {c : List (Act n)}
    (h : Good ts s) (ht : ts me = .sending d lk mk done) (hst : ¬ pc.Has L.state)
    (hD : Disciplined L (.sending d lk mk (pc :: done)) c) :
    Simulates ts s me (s.execAct me (.copyOut d pc) c) := by
  have hok := h.at ht
  simp only [Sys.execAct, hst, false_and, if_false]
  have hframe : SendFrame ts (.sending d lk mk (pc :: done)) me d s
      ((s.setSlot (me, d) (copyPiece pc (s.proc me).msg (s.slot (me, d)))).setProc me
        { s.proc me with code := c, free := Function.update (s.proc me).free d false }) := by
    constructor <;>
      simp +contextual [Sys.setProc, Sys.setSlot, sendPhase_ne, sparePhase_update, ht]
  refine hframe.simulates (by simpa [Sys.setProc] using hD) ?_ ?_
  · refine LocalOk.sending (by simpa [Sys.setProc, Sys.setSlot] using hok.locked)
      (by simpa [Sys.setProc, Sys.setSlot] using h.clean_sending ht) ?_
    -- copying does not change the message buffer, so its mark stays
    intro hmk
    subst hmk
    simpa [Sys.setProc, Sys.setSlot] using hok.marked d lk done rfl
  · have hsnd : (view ts s me d).snd = .filling lk (L.bytesOf done) := by
      simp [view, ht]
    have hself : OneSlot.Step slotCode (view ts s me d) _ :=
      OneSlot.Step.put _ _ hsnd (h.overlay_out ht pc)
    rw [hframe.view_self]
    refine Relation.ReflTransGen.single ?_
    simpa [view, Sys.setProc, Sys.setSlot, L.stateOf_copyPiece, hst, L.bytesOf_cons pc done] using hself

theorem Good.publish {lk : Bool} {done : List Piece} {pc : Piece} {c : List (Act n)}
    (h : Good ts s) (ht : ts me = .sending d lk true done) (hst : pc.Has L.state)
    (hall : ∀ b, b ∈ L.bytesOf done) (hD : Disciplined L (.idle true) c) :
    Simulates ts s me (s.execAct me (.copyOut d pc) c) := by
  have hok := h.at ht
  have hmk : L.stateOf (s.proc me).msg = ssmpBufMessg := hok.marked d lk done rfl
  simp only [Sys.execAct, hst, hmk, true_and, if_true]
  have hframe : SendFrame ts (.idle true) me d s
      (((s.setSlot (me, d) (copyPiece pc (s.proc me).msg (s.slot (me, d)))).logSent (me, d)
        (L.payload (s.proc me).arg)).setProc me
        { s.proc me with
          code := c, free := Function.update (s.proc me).free d false, locked := none }) := by
    constructor <;>
      simp +contextual [Sys.setProc, Sys.setSlot, Sys.logSent, sendPhase_ne, sparePhase_update, ht]
  refine hframe.simulates (by simpa [Sys.setProc] using hD) ?_ ?_
  · refine LocalOk.idle (by simp [Sys.setProc]) ?_
    intro _
    simpa [Sys.setProc, Sys.setSlot, Sys.logSent] using h.clean_sending ht
  · have hsnd : (view ts s me d).snd = .filling lk (L.bytesOf done) := by
      simp [view, ht]
    -- the payload is complete, so this move counts as the flag store of the channel
    have hself : OneSlot.Steps slotCode (view ts s me d) _ :=
      OneSlot.Steps.put_publish hsnd (h.overlay_out ht pc) hall
    rw [hframe.view_self]
    simpa [view, Sys.setProc, Sys.setSlot, Sys.logSent, L.stateOf_copyPiece, hst, hmk, sparePhase,
      slotCode] using hself

theorem Good.trail {b : Bool} {pc : Piece} {c : List (Act n)} (h : Good ts s)
    (ht : ts me = .idle b) (hst : ¬ pc.Has L.state) (hno : L.bytesOf [pc] = ∅)
    (hD : Disciplined L (.idle b) c) :
    Simulates ts s me (s.execAct me (.copyOut d pc) c) := by
  have hok := h.at ht
  simp only [Sys.execAct, hst, false_and, if_false]
  have hframe : SendFrame ts (.idle b) me d s
      ((s.setSlot (me, d) (copyPiece pc (s.proc me).msg (s.slot (me, d)))).setProc me
        { s.proc me with code := c, free := Function.update (s.proc me).free d false }) := by
    constructor <;> simp +contextual [Sys.setProc, Sys.setSlot, sparePhase_update, ht]
  refine hframe.simulates (by simpa [Sys.setProc] using hD) ?_ ?_
  · refine LocalOk.idle (by simpa [Sys.setProc, Sys.setSlot] using hok.locked) ?_
    intro hb
    simpa [Sys.setProc, Sys.setSlot] using hok.clean (Or.inl (by rw [hb]))
  · -- neither the payload nor the state byte is among the bytes of the piece
    have hword : L.payload (copyPiece pc (s.proc me).msg (s.slot (me, d))) =
        L.payload (s.slot (me, d)) := by
      funext x
      exact (L.payload_copyPiece pc _ _).2 x (by simp [hno])
    -- what was known about a free slot is given up
    have hself : OneSlot.Steps slotCode (view ts s me d) _ :=
      OneSlot.Steps.abandon (view_snd_idle ht)
    rw [hframe.view_self]
    simpa [view, Sys.setProc, Sys.setSlot, L.stateOf_copyPiece, hst, hword, sparePhase] using hself

theorem Good.storeMessg {lk mk : Bool} {done : List Piece} {c : List (Act n)} (h : Good ts s)
    (ht : ts me = .sending d lk mk done) (hall : ∀ b, b ∈ L.bytesOf done)
    (hD : Disciplined L (.idle true) c) :
    Simulates ts s me (s.execAct me (.store (.sendBuf d) ssmpBufMessg) c) := by
  simp only [Sys.execAct, if_true]
  have hframe : SendFrame ts (.idle true) me d s
      (((s.setFlag me (.sendBuf d) ssmpBufMessg).setProc me
        { s.proc me with
          code := c, locked := none, free := Function.update (s.proc me).free d false }).logSent
            (me, d) (L.payload (s.proc me).arg)) := by
    constructor <;>
      simp +contextual [Sys.setProc, Sys.setFlag, Sys.setSlot, Sys.logSent, SlotRef.pair,
        sendPhase_ne, sparePhase_update, ht]
  refine hframe.simulates (by simpa [Sys.setProc, Sys.logSent] using hD) ?_ ?_
  · refine LocalOk.idle (by simp [Sys.setProc, Sys.logSent]) ?_
    -- the flag store leaves the message buffer as it is
    intro _
    simpa [Sys.setProc, Sys.logSent, Sys.setFlag, Sys.setSlot] using h.clean_sending ht
  · have hsnd : (view ts s me d).snd = .filling lk (L.bytesOf done) := by
      simp [view, ht]
    have hself : OneSlot.Step slotCode (view ts s me d) _ := OneSlot.Step.publish hsnd hall
    rw [hframe.view_self]
    refine Relation.ReflTransGen.single ?_
    simpa [view, Sys.setProc, Sys.setFlag, Sys.setSlot, Sys.logSent, SlotRef.pair, sparePhase,
      slotCode] using hself

/-! ### Actions of a receiver -/

/-- A receiver of typestate `.idle b` does not use the slot of any pair. -/
theorem view_rcv_idle {b : Bool} (ht : ts me = .idle b) : (view ts s r me).rcv = .idle := by
  simp [view, ht]

/-- The receiver finds its slot full and begins to read it. -/
theorem Good.beginRead {b : Bool} {c : List (Act n)} (h : Good ts s) (ht : ts me = .idle b)
    (hf : s.flag me (.recvBuf r) = ssmpBufMessg) (hD : Disciplined L (.reading r false []) c) :
    Simulates ts s me (s.setProc me { s.proc me with code := c }) := by
  have hok := h.at ht
  have hframe : RecvFrame ts (.reading r false []) me r s
      (s.setProc me { s.proc me with code := c }) := by
    constructor <;> simp +contextual [Sys.setProc, recvPhase_ne, ht]
  refine hframe.simulates (by simpa [Sys.setProc] using hD) ?_ ?_
  · exact LocalOk.reading (by simpa [Sys.setProc] using hok.locked)
  · have hself : OneSlot.Step slotCode (view ts s r me) _ :=
      OneSlot.Step.observeFull (view_rcv_idle ht) hf
    rw [hframe.view_self]
    refine Relation.ReflTransGen.single ?_
    simpa [view, Sys.setProc] using hself

/-- The receiver finds its slot full, locks it and begins to read it. -/
theorem Simulates.lockRead {b : Bool} {c : List (Act n)} (ht : ts me = .idle b)
    (hf : s.flag me (.recvBuf r) = ssmpBufMessg) (hD : Disciplined L (.reading r true []) c) :
    Simulates ts s me ((s.setFlag me (.recvBuf r) ssmpBufLockd).setProc me
      { s.proc me with code := c, locked := some (.recvBuf r) }) := by
  have hframe : RecvFrame ts (.reading r true []) me r s
      ((s.setFlag me (.recvBuf r) ssmpBufLockd).setProc me
        { s.proc me with code := c, locked := some (.recvBuf r) }) := by
    constructor <;>
      simp +contextual [Sys.setProc, Sys.setFlag, Sys.setSlot, SlotRef.pair, recvPhase_ne, ht]
  refine hframe.simulates (by simpa [Sys.setProc] using hD) ?_ ?_
  · exact LocalOk.reading (by simp [Sys.setProc])
  · have hself : OneSlot.Step slotCode (view ts s r me) _ :=
      OneSlot.Step.lockFull (view_rcv_idle ht) hf
    rw [hframe.view_self]
    refine Relation.ReflTransGen.single ?_
    simpa [view, Sys.setProc, Sys.setFlag, Sys.setSlot, SlotRef.pair, slotCode] using hself

theorem Good.read {lk : Bool} {done : List Piece} {pc : Piece} {c : List (Act n)}
    (h : Good ts s) (ht : ts me = .reading r lk done)
    (hD : Disciplined L (.reading r lk (pc :: done)) c) :
    Simulates ts s me (s.execAct me (.copyIn r pc) c) := by
  have hok := h.at ht
  simp only [Sys.execAct]
  have hframe : RecvFrame ts (.reading r lk (pc :: done)) me r s
      (s.setProc me { s.proc me with
        code := c, msg := copyPiece pc (s.slot (r, me)) (s.proc me).msg }) := by
    constructor <;> simp +contextual [Sys.setProc, recvPhase_ne, ht]
  refine hframe.simulates (by simpa [Sys.setProc] using hD) ?_ ?_
  · exact LocalOk.reading (by simpa [Sys.setProc] using hok.locked)
  · have hrcv : (view ts s r me).rcv = .reading lk (L.bytesOf done) := by
      simp [view, ht]
    -- the flag of the line may be copied too: only the payload matters here
    have hself : OneSlot.Step slotCode (view ts s r me) _ :=
      OneSlot.Step.take _ _ hrcv (L.payload_copyPiece pc (s.slot (r, me)) (s.proc me).msg)
    rw [hframe.view_self]
    refine Relation.ReflTransGen.single ?_
    simpa [view, Sys.setProc, L.bytesOf_cons pc done] using hself

theorem Simulates.storeEmpty {lk : Bool} {done : List Piece} {c : List (Act n)}
    (ht : ts me = .reading r lk done) (hall : ∀ b, b ∈ L.bytesOf done)
    (hD : Disciplined L (.idle false) c) :
    Simulates ts s me (s.execAct me (.store (.recvBuf r) ssmpBufEmpty) c) := by
  simp only [Sys.execAct, if_true]
  have hframe : RecvFrame ts (.idle false) me r s
      (((s.setFlag me (.recvBuf r) ssmpBufEmpty).setProc me
        { s.proc me with code := c, locked := none }).logRecvd (r, me)
          (L.payload (s.proc me).msg)) := by
    constructor <;>
      simp +contextual [Sys.setProc, Sys.setFlag, Sys.setSlot, Sys.logRecvd, SlotRef.pair,
        recvPhase_ne, ht]
  refine hframe.simulates (by simpa [Sys.setProc, Sys.logRecvd] using hD) ?_ ?_
  · exact LocalOk.idle (by simp [Sys.setProc, Sys.logRecvd]) (by simp)
  · have hrcv : (view ts s r me).rcv = .reading lk (L.bytesOf done) := by
      simp [view, ht]
    have hself : OneSlot.Step slotCode (view ts s r me) _ := OneSlot.Step.release hrcv hall
    rw [hframe.view_self]
    refine Relation.ReflTransGen.single ?_
    simpa [view, Sys.setProc, Sys.setFlag, Sys.setSlot, Sys.logRecvd, SlotRef.pair, slotCode]
      using hself

/-! ### Actions on the private state of a process -/

/-- A step that changes neither a slot nor the payload of the message buffer, and goes on in the
same typestate. -/
theorem Simulates.silent {p' : Proc n} (hD : Disciplined L (ts me) p'.code)
    (hok : LocalOk L (ts me) p') (harg : p'.arg = (s.proc me).arg)
    (hmsg : L.payload p'.msg = L.payload (s.proc me).msg) (hfree : p'.free = (s.proc me).free) :
    Simulates ts s me (s.setProc me p') := by
  have hframe : SendFrame ts (ts me) me me s (s.setProc me p') := by
    constructor <;> simp +contextual [Sys.setProc, harg, hmsg, hfree]
  refine hframe.simulates (by simpa [Sys.setProc] using hD) (by simpa [Sys.setProc] using hok) ?_
  -- the frame is stated for a slot; any pair will do, as none changes
  have hself : OneSlot.Steps slotCode (view ts s me me) (view ts s me me) :=
    Relation.ReflTransGen.refl
  rw [hframe.view_self]
  simpa [view, Sys.setProc, hfree] using hself

theorem Good.setSender {v : UInt32} {c : List (Act n)} (h : Good ts s)
    (hns : ∀ d lk mk done, ts me ≠ .sending d lk mk done) (hD : Disciplined L (ts me) c) :
    Simulates ts s me (s.execAct me (.setSender v) c) := by
  refine Simulates.silent hD ?_ rfl (by simp) rfl
  refine ⟨(h.ok me).locked, ?_, ?_⟩
  · intro ht
    simpa using (h.ok me).clean ht
  · intro d lk done ht
    exact absurd ht (hns d lk true done)

/-- One test of a scanning loop. -/
theorem Good.probe {b : Bool} {t : Option (Fin n × Bool)} {hit : List (Act n)} {next : Proc n}
    (h : Good ts s) (ht : ts me = .idle b)
    (hhit : ∀ r lk, t = some (r, lk) → Disciplined L (.reading r lk []) hit)
    (hnext : Simulates ts s me (s.setProc me next)) :
    Simulates ts s me (s.probe me t hit next) := by
  cases t with
  | none => exact hnext
  | some rl =>
      rcases rl with ⟨r, lk⟩
      have hD := hhit r lk rfl
      by_cases hf : s.flag me (.recvBuf r) = ssmpBufMessg
      · -- the test succeeds: the call goes on with `hit`, in possession of the slot
        cases lk with
        | true => simpa [Sys.probe, hf] using Simulates.lockRead ht hf hD
        | false => simpa [Sys.probe, hf] using h.beginRead ht hf hD
      · simpa [Sys.probe, hf] using hnext

/-! ### Every action -/

theorem Good.exec (h : Good ts s) (hex : s.exec me = some s') : Simulates ts s me s' := by
  have hD := h.disciplined me
  have hok := h.ok me
  rcases Sys.exec_eq_some hex with ⟨a, c, hcode, rfl⟩
  rw [hcode] at hD
  -- which discipline rule applies is decided by the next action and the typestate
  generalize ht : ts me = t at hD
  cases hD with
  | awaitSend hD => exact h.awaitSend ht hD
  | casSend hD => exact h.casSend ht hD
  | isFree hD => exact h.isFree ht hD
  | mark hD => exact h.mark ht hD
  | fill hst hD => exact h.fill ht hst hD
  | publish hst hall hD => exact h.publish ht hst hall hD
  | trail hst hno hD => exact h.trail ht hst hno hD
  | storeMessg hall hD => exact h.storeMessg ht hall hD
  | @awaitRecv b r c hD =>
      by_cases hf : s.flag me (.recvBuf r) = ssmpBufMessg
      · simpa [Sys.execAct, hf] using h.beginRead ht hf hD
      · simpa [Sys.execAct, hf] using h.stay me
  | @casRecv b r c hD =>
      by_cases hf : s.flag me (.recvBuf r) = ssmpBufMessg
      · simpa [Sys.execAct, hf] using Simulates.lockRead ht hf hD
      · simpa [Sys.execAct, hf] using h.stay me
  | read hD => exact h.read ht hD
  | storeEmpty hall hD => exact Simulates.storeEmpty ht hall hD
  | senderReading hD => exact h.setSender (by simp [ht]) (ht ▸ hD)
  | senderIdle hD => exact h.setSender (by simp [ht]) (ht ▸ hD)
  | advance hD => exact Simulates.silent (ht ▸ hD) ⟨hok.locked, hok.clean, hok.marked⟩ rfl rfl rfl
  | @scan b num k test body c hbody =>
      -- a failed test only changes the index
      have hloop : ∀ k', Simulates ts s me (s.setProc me
          { s.proc me with code := .scan num test body k' :: c }) := fun k' =>
        Simulates.silent (ht ▸ .scan hbody) ⟨hok.locked, hok.clean, hok.marked⟩ rfl rfl rfl
      by_cases hk : k < num
      · simpa [Sys.execAct, hk] using h.probe ht (hbody k hk) (hloop (k + 1))
      · simpa [Sys.execAct, hk] using hloop 0
  | @scanStart b num test body c hbody =>
      have hloop : ∀ k', Simulates ts s me (s.setProc me
          { s.proc me with startRecvFrom := k' }) := fun k' =>
        Simulates.silent (by simpa [ht, hcode] using Disciplined.scanStart hbody)
          ⟨hok.locked, hok.clean, hok.marked⟩ rfl rfl rfl
      by_cases hk : (s.proc me).startRecvFrom < num
      · simpa [Sys.execAct, hk] using h.probe ht (hbody _ hk) (hloop _)
      · simpa [Sys.execAct, hk] using hloop 0

/-! ### Entering a call -/

/-- A process between calls has typestate `.idle b`. -/
theorem Good.idle_of_nil (h : Good ts s) (hcode : (s.proc me).code = []) :
    ∃ b, ts me = .idle b := by
  have hD := h.disciplined me
  rw [hcode] at hD
  generalize ht : ts me = t at hD
  cases hD with
  | @nil b => exact ⟨b, rfl⟩

/-- The message buffers of `me` become `msg`: a load on the pairs it sends on, and no matter on the
pairs it receives on. -/
theorem enter_steps {code : List (Act n)} {msg : Line}
    (hsnd : ∀ j, (view ts s me j).snd = .idle ∨ (view ts s me j).snd = .filling false ∅)
    (hrcv : ∀ i, (view ts s i me).rcv = .idle)
    (hsend : ∀ j, sendPhase L t' (s.proc me).free j = sendPhase L (ts me) (s.proc me).free j)
    (hrecv : ∀ i, recvPhase L t' i = .idle) (i j : Fin n) :
    OneSlot.Steps slotCode (view ts s i j)
      (view (Function.update ts me t') (s.enter me code msg) i j) := by
  -- first the sender side loads the new message, then the receiver side gets a scratch buffer
  have hload : OneSlot.Steps slotCode (view ts s i j)
      { view ts s i j with src := if i = me then L.payload msg else L.payload (s.proc i).arg } := by
    by_cases hi : i = me
    · subst hi
      rw [if_pos rfl]
      exact Relation.ReflTransGen.single (OneSlot.Step.load _ (hsnd j))
    · rw [if_neg hi]
      exact Relation.ReflTransGen.refl
  refine hload.trans ?_
  have hview : view (Function.update ts me t') (s.enter me code msg) i j =
      { view ts s i j with
        src := if i = me then L.payload msg else L.payload (s.proc i).arg
        dst := if j = me then L.payload msg else L.payload (s.proc j).msg } := by
    by_cases hi : i = me <;> by_cases hj : j = me <;>
      simp_all [view, Sys.enter, Sys.setProc]
  rw [hview]
  by_cases hj : j = me
  · subst hj
    rw [if_pos rfl]
    exact Relation.ReflTransGen.single (OneSlot.Step.scratch _ (hrcv i))
  · rw [if_neg hj]
    exact Relation.ReflTransGen.refl

theorem Good.enter {prog : Program n} {code : List (Act n)} {msg : Line} (h : Good ts s)
    (hprog : prog.Disciplined L) (hidle : (s.proc me).code = [])
    (hcall : prog me (s.proc me).free code) : Simulates ts s me (s.enter me code msg) := by
  rcases h.idle_of_nil hidle with ⟨b, ht⟩
  have hlocked : (s.proc me).locked = none := by simpa using (h.at ht).locked
  have hother : ∀ p, p ≠ me → (s.enter me code msg).proc p = s.proc p := by
    intro p hp
    simp [Sys.enter, Sys.setProc, hp]
  rcases hprog me _ code hcall with hD | ⟨d, hfree, hD⟩
  · -- a call that tests its slots itself
    refine ⟨.idle true, by simpa [Sys.enter, Sys.setProc] using hD, ?_, hother, ?_⟩
    · exact LocalOk.idle (by simpa [Sys.enter, Sys.setProc] using hlocked)
        (by simp [Sys.enter, Sys.setProc])
    · exact enter_steps (fun _ => view_snd_idle ht) (fun _ => view_rcv_idle ht) (by simp [ht])
        (by simp)
  · -- a call that relies on `ssmp_send_is_free`: it begins in possession of the slot
    refine ⟨.sending d false false [], by simpa [Sys.enter, Sys.setProc] using hD, ?_, hother, ?_⟩
    · exact LocalOk.sending (by simpa [Sys.enter, Sys.setProc] using hlocked)
        (by simp [Sys.enter, Sys.setProc]) (by simp)
    · refine enter_steps (fun _ => view_snd_idle ht) (fun _ => view_rcv_idle ht) ?_ (by simp)
      intro j
      by_cases hj : j = d
      · subst hj
        simp [ht, sparePhase, hfree]
      · simp [ht, sendPhase_ne hj]

/-- A slot from which everything has been received is empty while its sender is between calls. -/
theorem Good.empty_of_received (h : Good ts s) (hidle : (s.proc me).code = [])
    (heq : s.sent (me, d) = s.recvd (me, d)) : L.stateOf (s.slot (me, d)) = ssmpBufEmpty := by
  rcases h.idle_of_nil hidle with ⟨b, ht⟩
  have hne : (view ts s me d).sent ≠ (view ts s me d).recvd ++ [(view ts s me d).word] := by
    intro hpending
    have hlen := congrArg List.length (hpending.symm.trans heq)
    simp [view] at hlen
  cases hr : (view ts s me d).rcv with
  | reading lk done => exact absurd ((OneSlot.inv_reading hr).1 (h.slots me d)).2.2.1 hne
  | idle =>
      rcases @view_snd_idle L n ts s me d b ht with hs | hs
      · rcases (OneSlot.inv_idle hs hr).1 (h.slots me d) with ⟨hf, _⟩ | ⟨_, hpending⟩
        · exact hf
        · exact absurd hpending hne
      · exact ((OneSlot.inv_filling hs).1 (h.slots me d)).2.1

/-- A call that does not test its slot, while the slot is empty. -/
theorem Good.enterFree {code : List (Act n)} {msg : Line} (h : Good ts s)
    (hidle : (s.proc me).code = []) (hf : L.stateOf (s.slot (me, d)) = ssmpBufEmpty)
    (hD : Disciplined L (.sending d false false []) code) :
    Simulates ts s me (s.enter me code msg) := by
  rcases h.idle_of_nil hidle with ⟨b, ht⟩
  have hlocked : (s.proc me).locked = none := by simpa using (h.at ht).locked
  -- first the process takes the empty slot, then it enters the call
  generalize hts₁ : Function.update ts me (.sending d false false []) = ts₁
  have hme : ts₁ me = .sending d false false [] := by simp [← hts₁]
  have htake : ∀ i j, OneSlot.Steps slotCode (view ts s i j) (view ts₁ s i j) := by
    intro i j
    have hrcv : recvPhase L (ts₁ j) i = recvPhase L (ts j) i := by
      by_cases hj : j = me
      · rw [hj, hme, ht]
        rfl
      · rw [← hts₁, Function.update_of_ne hj]
    by_cases hi : i = me
    · subst hi
      by_cases hj : j = d
      · subst hj
        have hself : OneSlot.Steps slotCode (view ts s i j) _ :=
          OneSlot.Steps.acquire (view_snd_idle ht) hf
        simpa [view, hme, hrcv] using hself
      · have hview : view ts₁ s i j = view ts s i j := by
          simp [view, hme, ht, hrcv, sendPhase_ne hj]
        rw [hview]
        exact Relation.ReflTransGen.refl
    · have hother : ts₁ i = ts i := by rw [← hts₁, Function.update_of_ne hi]
      have hview : view ts₁ s i j = view ts s i j := by simp [view, hrcv, hother]
      rw [hview]
      exact Relation.ReflTransGen.refl
  refine ⟨.sending d false false [], by simpa [Sys.enter, Sys.setProc] using hD, ?_, ?_, ?_⟩
  · exact LocalOk.sending (by simpa [Sys.enter, Sys.setProc] using hlocked)
      (by simp [Sys.enter, Sys.setProc]) (by simp)
  · intro p hp
    simp [Sys.enter, Sys.setProc, hp]
  · intro i j
    have hsnd : ∀ j, (view ts₁ s me j).snd = .idle ∨ (view ts₁ s me j).snd = .filling false ∅ := by
      intro j
      by_cases hj : j = d
      · subst hj
        exact Or.inr (by simp [view, hme])
      · simpa [view, hme, sendPhase_ne hj] using sparePhase_cases (L := L) (s.proc me).free j
    have henter := @enter_steps L n ts₁ (.sending d false false []) s me code msg hsnd
      (fun i => by simp [view, hme]) (fun j => by rw [hme]) (by simp) i j
    rw [← hts₁, Function.update_idem] at henter
    rw [← hts₁] at htake
    exact (htake i j).trans henter

/-! ## Every step of the system -/

theorem Good.of_simulates (h : Good ts s) (hsim : Simulates ts s me s') :
    ∃ ts', Good ts' s' ∧ ∀ i j, OneSlot.Steps slotCode (view ts s i j) (view ts' s' i j) := by
  rcases hsim with ⟨t', hD, hok, hother, hsteps⟩
  refine ⟨Function.update ts me t', ⟨?_, ?_, ?_⟩, hsteps⟩
  · intro p
    by_cases hp : p = me
    · subst hp
      simpa using hD
    · simpa [hp, hother p hp] using h.disciplined p
  · intro p
    by_cases hp : p = me
    · subst hp
      simpa using hok
    · simpa [hp, hother p hp] using h.ok p
  · intro i j
    exact (h.slots i j).steps (hsteps i j)

/-- A step of the system is, on every ordered pair, a run of its one-slot channel. -/
theorem Good.step {prog : Program n} {l : Label n} (hprog : prog.Disciplined L) (h : Good ts s)
    (hst : Sys.Step prog s l s') :
    ∃ ts', Good ts' s' ∧ ∀ i j, OneSlot.Steps slotCode (view ts s i j) (view ts' s' i j) := by
  cases hst with
  | call msg hidle hcall => exact h.of_simulates (h.enter hprog hidle hcall)
  | run hex => exact h.of_simulates (h.exec hex)

theorem Good.init (h : s.Init) : Good (fun _ => .idle false) s := by
  refine ⟨?_, ?_, ?_⟩
  · intro p
    rw [h.idle p]
    exact Disciplined.nil
  · intro p
    exact LocalOk.idle (h.locked p) (by simp)
  · intro i j
    refine OneSlot.Inv.of_idle (by simp [view, sparePhase, h.free]) (by simp [view]) (Or.inl ?_)
    exact ⟨h.empty (i, j), by simp [view, h.sent, h.recvd]⟩

theorem good_of_reachable {prog : Program n} (hprog : prog.Disciplined L)
    (h : (system L n prog).Reachable s) : ∃ ts, Good ts s := by
  -- the typestates are no part of the state, so they change along with each step
  refine TransSys.Reachable.invariant (I := fun s => ∃ ts, Good ts s) ?_ ?_ h
  · intro s hs
    exact ⟨_, Good.init hs⟩
  · rintro s l t ⟨ts, hg⟩ hst
    rcases hg.step hprog hst with ⟨ts', hg', _⟩
    exact ⟨ts', hg'⟩

end View

end Ssmp
