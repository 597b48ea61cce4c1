import Ssmp.Actions
import Ssmp.Discipline

/-!
# Channel — what disciplined calls guarantee on every ordered pair

The consequences of `Good.step` in the terms of the slots and the histories alone: each slot
refines a one-place FIFO buffer, the flag is `SSMP_BUF_LOCKD` exactly while one end holds the slot,
and the two ends never wait for each other.  A system without compare-and-swap never locks a slot.
-/

namespace Ssmp

open Lib

section Channel

variable {L : MsgLayout} {n : Nat} {prog : Program n} {s t : Sys L n} {i j me : Fin n}
variable {ts : Fin n → Typestate n}

/-! ## Refinement of the one-place buffer -/

/-- The one-place buffer that the slot from `i` to `j` stands for. -/
def Sys.buffer (s : Sys L n) (i j : Fin n) : OnePlace L.Payload where
  place :=
    if (s.recvd (i, j)).length < (s.sent (i, j)).length then some (L.payload (s.slot (i, j)))
    else none
  ins := s.sent (i, j)
  outs := s.recvd (i, j)

theorem view_buffer (ts : Fin n → Typestate n) (s : Sys L n) (i j : Fin n) :
    (view ts s i j).buffer = s.buffer i j := rfl

theorem buffer_init (h : s.Init) (i j : Fin n) : s.buffer i j = ⟨none, [], []⟩ := by
  simp [Sys.buffer, h.sent, h.recvd]

/-- A step of the system is a run of the buffer of every pair. -/
theorem buffer_step {l : Label n} (hprog : prog.Disciplined L)
    (h : (system L n prog).Reachable s) (hst : Sys.Step prog s l t) (i j : Fin n) :
    Relation.ReflTransGen OnePlace.Step (s.buffer i j) (t.buffer i j) := by
  rcases good_of_reachable hprog h with ⟨ts, hgood⟩
  rcases hgood.step hprog hst with ⟨ts', _, hsteps⟩
  simpa only [view_buffer] using (hgood.slots i j).buffer_steps (hsteps i j)

/-- Every run of the system is a run of the buffer of every pair, from the empty buffer. -/
theorem buffer_of_reachable (hprog : prog.Disciplined L) (h : (system L n prog).Reachable s)
    (i j : Fin n) : Relation.ReflTransGen OnePlace.Step ⟨none, [], []⟩ (s.buffer i j) := by
  -- by induction on the run, one step of the system at a time
  induction h with
  | init h0 => rw [buffer_init h0 i j]
  | step hr hst ih => exact ih.trans (buffer_step hprog hr hst i j)

/-! ## Histories -/

/-- What the receiver has received is what the sender has sent, up to one message, which is still
in the slot. -/
structure ChannelFifo (s : Sys L n) (i j : Fin n) : Prop where
  received : s.recvd (i, j) <+: s.sent (i, j)
  behind : (s.sent (i, j)).length ≤ (s.recvd (i, j)).length + 1
  pending : s.sent (i, j) ≠ s.recvd (i, j) →
    s.sent (i, j) = s.recvd (i, j) ++ [L.payload (s.slot (i, j))]

theorem Good.channelFifo (h : Good ts s) (i j : Fin n) : ChannelFifo s i j := by
  rcases (h.slots i j).histories with he | ⟨he, _⟩
  · have heq : s.sent (i, j) = s.recvd (i, j) := he
    refine ⟨by simp [heq], by simp [heq], ?_⟩
    intro hne
    exact absurd heq hne
  · have heq : s.sent (i, j) = s.recvd (i, j) ++ [L.payload (s.slot (i, j))] := he
    exact ⟨⟨_, heq.symm⟩, by simp [heq], fun _ => heq⟩

/-- A message on its way lies in a full or locked slot. -/
theorem Good.pending_flag (h : Good ts s) (hne : s.sent (i, j) ≠ s.recvd (i, j)) :
    L.stateOf (s.slot (i, j)) = ssmpBufMessg ∨ L.stateOf (s.slot (i, j)) = ssmpBufLockd := by
  rcases (h.slots i j).histories with he | ⟨_, hf⟩
  · exact absurd he hne
  · exact hf

/-- A full slot holds a message on its way. -/
theorem Good.full_pending (h : Good ts s) (hf : L.stateOf (s.slot (i, j)) = ssmpBufMessg) :
    s.sent (i, j) = s.recvd (i, j) ++ [L.payload (s.slot (i, j))] :=
  ((h.slots i j).of_full hf).2

/-! ## Who holds a locked slot -/

theorem lockedRef_eq_sendBuf {τ : Typestate n} :
    τ.lockedRef = some (.sendBuf j) ↔ ∃ mk done, τ = .sending j true mk done := by
  cases τ with
  | idle b => simp
  | sending d lk mk done => cases lk <;> simp
  | reading r lk done => cases lk <;> simp

theorem lockedRef_eq_recvBuf {τ : Typestate n} :
    τ.lockedRef = some (.recvBuf i) ↔ ∃ done, τ = .reading i true done := by
  cases τ with
  | idle b => simp
  | sending d lk mk done => cases lk <;> simp
  | reading r lk done => cases lk <;> simp

theorem sendPhase_locked {τ : Typestate n} {free : Fin n → Bool} {done : Set (Fin L.payloadBytes)}
    (h : sendPhase L τ free j = .filling true done) : ∃ mk ps, τ = .sending j true mk ps := by
  -- a slot known to be free is not a locked one
  have hspare : sparePhase L free j ≠ .filling true done := by
    cases hf : free j <;> simp [sparePhase, hf]
  cases τ with
  | idle b => exact absurd h hspare
  | reading r lk ps => exact absurd h hspare
  | sending d lk mk ps =>
      by_cases hd : j = d
      · subst hd
        rw [sendPhase_self] at h
        injection h with hlk _
        subst hlk
        exact ⟨mk, ps, rfl⟩
      · rw [sendPhase_ne hd] at h
        exact absurd h hspare

theorem recvPhase_locked {τ : Typestate n} {done : Set (Fin L.payloadBytes)}
    (h : recvPhase L τ i = .reading true done) : ∃ ps, τ = .reading i true ps := by
  cases τ with
  | idle b => simp at h
  | sending d lk mk ps => simp at h
  | reading r lk ps =>
      by_cases hr : i = r
      · subst hr
        rw [recvPhase_self] at h
        injection h with hlk _
        subst hlk
        exact ⟨ps, rfl⟩
      · simp [recvPhase_ne hr] at h

/-- The sender's end is between its compare-and-swap and its releasing store. -/
def Sys.SenderHolds (s : Sys L n) (i j : Fin n) : Prop :=
  (s.proc i).locked = some (.sendBuf j)

/-- The receiver's end is between its compare-and-swap and its releasing store. -/
def Sys.ReceiverHolds (s : Sys L n) (i j : Fin n) : Prop :=
  (s.proc j).locked = some (.recvBuf i)

theorem Good.senderHolds_iff (h : Good ts s) :
    s.SenderHolds i j ↔ ∃ mk done, ts i = .sending j true mk done := by
  rw [Sys.SenderHolds, (h.ok i).locked, lockedRef_eq_sendBuf]

theorem Good.receiverHolds_iff (h : Good ts s) :
    s.ReceiverHolds i j ↔ ∃ done, ts j = .reading i true done := by
  rw [Sys.ReceiverHolds, (h.ok j).locked, lockedRef_eq_recvBuf]

/-- The flag is `SSMP_BUF_LOCKD` exactly while one of the two ends holds the slot. -/
theorem Good.locked_iff (h : Good ts s) (i j : Fin n) :
    L.stateOf (s.slot (i, j)) = ssmpBufLockd ↔ Xor (s.SenderHolds i j) (s.ReceiverHolds i j) := by
  have hinv := h.slots i j
  rw [h.senderHolds_iff, h.receiverHolds_iff]
  constructor
  · -- one end holds the slot, and by the invariant the other does not
    intro hf
    rcases hinv.of_locked hf with ⟨hrcv, done, hsnd⟩ | ⟨hsnd, done, hrcv⟩
    · refine Or.inl ⟨sendPhase_locked hsnd, ?_⟩
      rintro ⟨ps, ht⟩
      simp [view, ht] at hrcv
    · refine Or.inr ⟨recvPhase_locked hrcv, ?_⟩
      rintro ⟨mk, ps, ht⟩
      simp [view, ht] at hsnd
  · rintro (⟨⟨mk, ps, ht⟩, _⟩ | ⟨⟨ps, ht⟩, _⟩)
    · have hsnd : (view ts s i j).snd = .filling true (L.bytesOf ps) := by
        simp [view, ht]
      exact hinv.locked_of_filling hsnd
    · have hrcv : (view ts s i j).rcv = .reading true (L.bytesOf ps) := by
        simp [view, ht]
      exact hinv.locked_of_reading hrcv

/-! ## Nobody waits for nothing -/

/-- A scanning loop over `num` tests includes the slot `q`. -/
def ScansSlot (num : Nat) (test : Nat → Option (Fin n × Bool)) (q : SlotRef n) : Prop :=
  ∃ k, k < num ∧ ∃ r lk, test k = some (r, lk) ∧ .recvBuf r = q

/-- The call of `me` is in a loop that goes on until its slot `q` has state `v`, or one of several
slots with `q` among them. -/
def Sys.Waits (s : Sys L n) (me : Fin n) (q : SlotRef n) (v : UInt8) : Prop :=
  match (s.proc me).code with
  | .await q' v' :: _ => q' = q ∧ v' = v
  | .cas q' old _ :: _ => q' = q ∧ old = v
  | .scan num test _ _ :: _ => ScansSlot num test q ∧ v = ssmpBufMessg
  | .scanStart num test _ :: _ => ScansSlot num test q ∧ v = ssmpBufMessg
  | _ => False

/-- A process that waits is in possession of no slot by its call. -/
theorem Good.idle_of_waits {q : SlotRef n} {v : UInt8} (h : Good ts s) (hw : s.Waits me q v) :
    ∃ b, ts me = .idle b := by
  have hD := h.disciplined me
  -- a wait is the first action of its use of a slot
  generalize ht : ts me = τ at hD
  generalize hcode : (s.proc me).code = code at hD
  cases hD with
  | nil => exact ⟨_, rfl⟩
  | awaitSend _ => exact ⟨_, rfl⟩
  | casSend _ => exact ⟨_, rfl⟩
  | awaitRecv _ => exact ⟨_, rfl⟩
  | casRecv _ => exact ⟨_, rfl⟩
  | scan _ => exact ⟨_, rfl⟩
  | scanStart _ => exact ⟨_, rfl⟩
  | _ => simp [Sys.Waits, hcode] at hw

/-- The two ends of a slot never wait for each other: if both wait on it, the test of one
succeeds. -/
theorem Good.not_both_wait (h : Good ts s)
    (hsend : s.Waits i (.sendBuf j) ssmpBufEmpty) (hrecv : s.Waits j (.recvBuf i) ssmpBufMessg) :
    L.stateOf (s.slot (i, j)) = ssmpBufEmpty ∨ L.stateOf (s.slot (i, j)) = ssmpBufMessg := by
  rcases h.idle_of_waits hsend with ⟨b, hi⟩
  rcases h.idle_of_waits hrecv with ⟨b', hj⟩
  have hrcv : (view ts s i j).rcv = .idle := by simp [view, hj]
  -- with both ends idle the flag is empty or full, never locked
  rcases view_snd_idle (s := s) (d := j) hi with hsnd | hsnd
  · rcases (OneSlot.inv_idle hsnd hrcv).1 (h.slots i j) with ⟨hf, _⟩ | ⟨hf, _⟩
    · exact Or.inl hf
    · exact Or.inr hf
  · exact Or.inl ((OneSlot.inv_filling hsnd).1 (h.slots i j)).2.1

/-! ## Systems without compare-and-swap -/

/-- The action takes no slot by compare-and-swap. -/
def Act.NoLock : Act n → Prop
  | .cas _ _ _ => False
  | .scan _ test _ _ => ∀ k r, test k ≠ some (r, true)
  | .scanStart _ test _ => ∀ k r, test k ≠ some (r, true)
  | _ => True

theorem noLock_scanInvariant : ScanInvariant (Act.NoLock (n := n)) := by
  intro num test body k k' h
  exact h

theorem probe_locked {o : Option (Fin n × Bool)} {hit : List (Act n)} {next : Proc n}
    (ho : ∀ r, o ≠ some (r, true)) (hl : (s.proc me).locked = none) (hnext : next.locked = none) :
    ((s.probe me o hit next).proc me).locked = none := by
  cases o with
  | none => simpa [Sys.probe] using hnext
  | some rl =>
      rcases rl with ⟨r, lk⟩
      cases lk with
      | true => exact absurd rfl (ho r)
      | false =>
          by_cases hf : s.flag me (.recvBuf r) = ssmpBufMessg
          · simpa [Sys.probe, hf] using hl
          · simpa [Sys.probe, hf] using hnext

theorem execAct_locked {a : Act n} {rest : List (Act n)} (ha : a.NoLock)
    (hl : (s.proc me).locked = none) : ((s.execAct me a rest).proc me).locked = none := by
  -- no action but a compare-and-swap sets `locked`
  cases a with
  | cas q old new => exact absurd ha id
  | await q v =>
      simp only [Sys.execAct]
      split
      · simpa using hl
      · exact hl
  | copyOut d pc =>
      simp only [Sys.execAct]
      split
      · simp
      · simpa [Sys.setSlot] using hl
  | store q v =>
      cases q with
      | sendBuf d => simp only [Sys.execAct]; split <;> simp [Sys.logSent]
      | recvBuf r => simp only [Sys.execAct]; split <;> simp [Sys.logRecvd]
  | scan num test body k =>
      simp only [Sys.execAct]
      split
      · exact probe_locked (ha k) hl hl
      · simpa using hl
  | scanStart num test body =>
      simp only [Sys.execAct]
      split
      · exact probe_locked (ha _) hl hl
      · simpa using hl
  | _ => simpa [Sys.execAct] using hl

/-- Without compare-and-swap no process ever holds a slot. -/
theorem locked_of_reachable (hprog : prog.Every Act.NoLock) (h : (system L n prog).Reachable s)
    (p : Fin n) : (s.proc p).locked = none := by
  induction h generalizing p with
  | init h0 => exact h0.locked p
  | @step s t l hr hst ih =>
      cases hst with
      | @call me code msg hidle hcall =>
          by_cases hp : p = me
          · subst hp
            simpa [Sys.enter] using ih p
          · simpa [Sys.enter, setProc_proc_ne hp] using ih p
      | @run _ me hex =>
          have hcodes := everyIn_of_reachable noLock_scanInvariant hprog hr me
          rcases Sys.exec_eq_some hex with ⟨a, rest, hcode, rfl⟩
          have ha : a.Every Act.NoLock := hcodes a (by simp [hcode])
          by_cases hp : p = me
          · subst hp
            exact execAct_locked ha.head (ih p)
          · rw [execAct_proc_ne hp]
            exact ih p

theorem Good.not_locked (h : Good ts s) (hl : ∀ p, (s.proc p).locked = none) (i j : Fin n) :
    L.stateOf (s.slot (i, j)) ≠ ssmpBufLockd := by
  intro hf
  rcases (h.locked_iff i j).1 hf with ⟨hsnd, _⟩ | ⟨hrcv, _⟩
  · simp [Sys.SenderHolds, hl i] at hsnd
  · simp [Sys.ReceiverHolds, hl j] at hrcv

/-- Where no slot is locked, a message is on its way exactly while its slot is full. -/
theorem Good.pending_iff (h : Good ts s) (hl : ∀ p, (s.proc p).locked = none) :
    s.sent (i, j) ≠ s.recvd (i, j) ↔ L.stateOf (s.slot (i, j)) = ssmpBufMessg := by
  constructor
  · intro hne
    exact (h.pending_flag hne).resolve_right (h.not_locked hl i j)
  · intro hf heq
    -- the message in a full slot is missing from what has been received
    have hpend := h.full_pending hf
    rw [heq] at hpend
    simp at hpend

end Channel

end Ssmp
