import Mathlib.Logic.Function.Basic
import Ssmp.Lib.TransSys

/-!
# Tile.Udn — messages on the Tilera

On the Tilera messages go through the hardware network (`src/platform/tilera/ssmp_platf.c`).  The
network keeps the order of the messages of one sender; a receiver has one queue for the messages of
all senders, in the order of their arrival.  Every receive function takes the head of that queue:
the sources that its caller has asked for are honoured exactly if the messages happen to arrive in
the order of the calls (`honoured_iff`).
-/

namespace Ssmp
namespace Tile
namespace Udn

open Lib

/-! ## Messages and queues -/

/-- `ssmp_msg_t` of the Tilera. -/
structure Msg where
  w0 : Int32
  w1 : Int32
  w2 : Int32
  sender : UInt32
  deriving DecidableEq

/-- A message on its way, with the process that has sent it. -/
structure Packet (n : Nat) where
  src : Fin n
  msg : Msg
  deriving DecidableEq

/-- `ssmp_color_buf_t`.  `ssmp_color_buf_init_platf` writes nothing, so all there is of a buffer is
the color function that the caller has named. -/
structure ColorBuf where
  color : Nat → Int32

/-- The receive functions with their arguments. -/
inductive Recv where
  | recvFrom (src : Nat)
  | recv
  | recvColor (cbuf : ColorBuf)
  | recvColorStart (cbuf : ColorBuf)

/-- The messages on their way for every sender and receiver, and the queue of every receiver.  The
other fields record what each process has sent to each other, what has arrived, the receive calls
that have returned and what they returned. -/
structure State (n : Nat) where
  inFlight : Fin n → Fin n → List (Packet n)
  queue : Fin n → List (Packet n)
  sent : Fin n → Fin n → List (Packet n)
  arrived : Fin n → List (Packet n)
  calls : Fin n → List Recv
  returned : Fin n → List (Packet n)

namespace State

variable {n : Nat}

/-! ## The functions -/

/-- What is assumed of `tmc_udn0_receive_buffer` of the library tmc, which is not among the sources;
`none` while there is nothing to receive. -/
def tmcUdn0ReceiveBuffer (s : State n) (me : Fin n) : Option (Packet n × State n) :=
  match s.queue me with
  | [] => none
  | pkt :: rest => some (pkt, { s with queue := Function.update s.queue me rest })

/-- What is assumed of `tmc_udn_send_buffer`, likewise. -/
def tmcUdnSendBuffer (s : State n) (me dest : Fin n) (msg : Msg) : State n :=
  let pkt : Packet n := ⟨me, msg⟩
  { s with
    inFlight := Function.update s.inFlight me
      (Function.update (s.inFlight me) dest (s.inFlight me dest ++ [pkt]))
    sent := Function.update s.sent me (Function.update (s.sent me) dest (s.sent me dest ++ [pkt])) }

/-- The argument `from` is not used. -/
def ssmpRecvFromPlatf (s : State n) (me : Fin n) (_src : Nat) : Option (Packet n × State n) :=
  s.tmcUdn0ReceiveBuffer me

def ssmpRecvPlatf (s : State n) (me : Fin n) : Option (Packet n × State n) :=
  s.tmcUdn0ReceiveBuffer me

/-- Neither is the color buffer. -/
def ssmpRecvColorPlatf (s : State n) (me : Fin n) (_cbuf : ColorBuf) :
    Option (Packet n × State n) :=
  s.tmcUdn0ReceiveBuffer me

def ssmpRecvColorStartPlatf (s : State n) (me : Fin n) (_cbuf : ColorBuf) :
    Option (Packet n × State n) :=
  s.tmcUdn0ReceiveBuffer me

def ssmpSendPlatf (s : State n) (me dest : Fin n) (msg : Msg) : State n :=
  s.tmcUdnSendBuffer me dest { msg with sender := UInt32.ofNat me }

def ssmpSendNoSyncPlatf (s : State n) (me dest : Fin n) (msg : Msg) : State n :=
  s.tmcUdnSendBuffer me dest { msg with sender := UInt32.ofNat me }

/-- The receive call `c` of process `me`. -/
def exec (s : State n) (me : Fin n) (c : Recv) : Option (Packet n × State n) :=
  match c with
  | .recvFrom src => s.ssmpRecvFromPlatf me src
  | .recv => s.ssmpRecvPlatf me
  | .recvColor cbuf => s.ssmpRecvColorPlatf me cbuf
  | .recvColorStart cbuf => s.ssmpRecvColorStartPlatf me cbuf

end State

/-! ## The system -/

/-- What can happen: a call of a process, or an arrival. -/
inductive Event (n : Nat) where
  | send (me dest : Fin n) (msg : Msg)
  | sendNoSync (me dest : Fin n) (msg : Msg)
  | arrive (src dst : Fin n)
  | receive (me : Fin n) (c : Recv)

namespace State

variable {n : Nat}

/-- The oldest message of `src` to `dst` reaches the queue of `dst`. -/
def arrive (s : State n) (src dst : Fin n) : State n :=
  match s.inFlight src dst with
  | [] => s
  | pkt :: rest =>
      { s with
        inFlight := Function.update s.inFlight src (Function.update (s.inFlight src) dst rest)
        queue := Function.update s.queue dst (s.queue dst ++ [pkt])
        arrived := Function.update s.arrived dst (s.arrived dst ++ [pkt]) }

/-- A receive that returns. -/
def record (s : State n) (me : Fin n) (c : Recv) (pkt : Packet n) : State n :=
  { s with
    calls := Function.update s.calls me (s.calls me ++ [c])
    returned := Function.update s.returned me (s.returned me ++ [pkt]) }

/-- A receive from an empty queue waits. -/
def step (s : State n) : Event n → State n
  | .send me dest msg => s.ssmpSendPlatf me dest msg
  | .sendNoSync me dest msg => s.ssmpSendNoSyncPlatf me dest msg
  | .arrive src dst => s.arrive src dst
  | .receive me c =>
      match s.exec me c with
      | none => s
      | some (pkt, t) => t.record me c pkt

def run (s : State n) (events : List (Event n)) : State n :=
  events.foldl State.step s

/-- Nothing has been sent yet. -/
def fresh (n : Nat) : State n where
  inFlight _ _ := []
  queue _ := []
  sent _ _ := []
  arrived _ := []
  calls _ := []
  returned _ := []

end State

/-- Any processes, any order of calls and arrivals. -/
def system (n : Nat) : TransSys (State n) (Event n) where
  init s := s = State.fresh n
  step s e t := t = s.step e

theorem reachable_run {n : Nat} {s : State n} (h : (system n).Reachable s)
    (events : List (Event n)) : (system n).Reachable (s.run events) := by
  induction events generalizing s with
  | nil => exact h
  | cons e events ih => exact ih (TransSys.Reachable.step h rfl)

/-! ## What becomes of a message -/

section Transport

variable {n : Nat} {s : State n} {src dst me : Fin n}

/-- Every receive call takes the head of the queue. -/
theorem exec_eq (s : State n) (me : Fin n) (c : Recv) :
    s.exec me c = s.tmcUdn0ReceiveBuffer me := by
  cases c <;> rfl

/-- Every message is on its way, in the queue, or received; each process receives in the order of
arrival, and of each sender in the order of sending. -/
structure Conserved (s : State n) : Prop where
  arrived : ∀ p, s.arrived p = s.returned p ++ s.queue p
  sent : ∀ src dst,
    s.sent src dst = (s.arrived dst).filter (fun pkt => pkt.src = src) ++ s.inFlight src dst
  owner : ∀ src dst, ∀ pkt ∈ s.inFlight src dst,
    pkt.src = src ∧ pkt.msg.sender = UInt32.ofNat src
  stamped : ∀ p, ∀ pkt ∈ s.arrived p, pkt.msg.sender = UInt32.ofNat pkt.src
  calls : ∀ p, (s.calls p).length = (s.returned p).length

theorem Conserved.send (h : Conserved s) (me dest : Fin n) {msg : Msg}
    (hmsg : msg.sender = UInt32.ofNat me) : Conserved (s.tmcUdnSendBuffer me dest msg) := by
  have hpair : ∀ (f : Fin n → Fin n → List (Packet n)) (x : List (Packet n)) (src dst : Fin n),
      Function.update f me (Function.update (f me) dest x) src dst =
        if src = me ∧ dst = dest then x else f src dst := by
    intro f x src dst
    by_cases hsrc : src = me
    · subst hsrc
      by_cases hdst : dst = dest <;> simp [hdst]
    · simp [hsrc]
  refine ⟨h.arrived, ?_, ?_, h.stamped, h.calls⟩
  · intro src dst
    simp only [State.tmcUdnSendBuffer, hpair]
    by_cases hhere : src = me ∧ dst = dest
    · simp [hhere, h.sent me dest]
    · simp [hhere, h.sent src dst]
  · intro src dst
    simp only [State.tmcUdnSendBuffer, hpair]
    by_cases hhere : src = me ∧ dst = dest
    · rcases hhere with ⟨rfl, rfl⟩
      intro pkt hpkt
      simp only [and_self, if_true, List.mem_append, List.mem_singleton] at hpkt
      rcases hpkt with hold | rfl
      · exact h.owner src dst pkt hold
      · exact ⟨rfl, hmsg⟩
    · simpa only [hhere, if_false] using h.owner src dst

theorem Conserved.arrive (h : Conserved s) (src dst : Fin n) : Conserved (s.arrive src dst) := by
  unfold State.arrive
  cases hflight : s.inFlight src dst with
  | nil => exact h
  | cons pkt rest =>
      rcases h.owner src dst pkt (by simp [hflight]) with ⟨howner, hstamp⟩
      refine ⟨?_, ?_, ?_, ?_, h.calls⟩
      · intro p
        by_cases hp : p = dst
        · subst hp
          simp [h.arrived p]
        · simp [hp, h.arrived p]
      · intro src' dst'
        rw [h.sent src' dst']
        by_cases hdst : dst' = dst
        · subst hdst
          by_cases hsrc : src' = src
          · subst hsrc
            simp [howner, hflight]
          · have hne : pkt.src ≠ src' := fun heq => hsrc (heq.symm.trans howner)
            simp [hsrc, hne]
        · by_cases hsrc : src' = src
          · subst hsrc
            simp [hdst]
          · simp [hdst, hsrc]
      · intro src' dst' pkt' hpkt'
        refine h.owner src' dst' pkt' ?_
        by_cases hsrc : src' = src
        · subst hsrc
          by_cases hdst : dst' = dst
          · subst hdst
            simp only [Function.update_self] at hpkt'
            simp [hflight, hpkt']
          · simpa [hdst] using hpkt'
        · simpa [hsrc] using hpkt'
      · intro p pkt' hpkt'
        by_cases hp : p = dst
        · subst hp
          simp only [Function.update_self, List.mem_append, List.mem_singleton] at hpkt'
          rcases hpkt' with hold | rfl
          · exact h.stamped p pkt' hold
          · rw [hstamp, howner]
        · exact h.stamped p pkt' (by simpa [hp] using hpkt')

theorem Conserved.receive (h : Conserved s) (me : Fin n) (c : Recv) :
    Conserved (s.step (.receive me c)) := by
  simp only [State.step, exec_eq, State.tmcUdn0ReceiveBuffer]
  cases hqueue : s.queue me with
  | nil => exact h
  | cons pkt rest =>
      refine ⟨?_, h.sent, h.owner, h.stamped, ?_⟩
      · intro p
        by_cases hp : p = me
        · subst hp
          simp [State.record, h.arrived p, hqueue]
        · simp [State.record, hp, h.arrived p]
      · intro p
        by_cases hp : p = me
        · subst hp
          simp [State.record, h.calls p]
        · simp [State.record, hp, h.calls p]

theorem Conserved.step (h : Conserved s) (e : Event n) : Conserved (s.step e) := by
  cases e with
  | send me dest msg => exact h.send me dest rfl
  | sendNoSync me dest msg => exact h.send me dest rfl
  | arrive src dst => exact h.arrive src dst
  | receive me c => exact h.receive me c

theorem conserved_of_reachable (h : (system n).Reachable s) : Conserved s := by
  refine h.invariant (I := Conserved) ?_ ?_
  · rintro s rfl
    constructor <;> simp [State.fresh]
  · rintro s e t hs rfl
    exact hs.step e

end Transport

/-! ## The sources that were asked for -/

/-- The call `c` of process `me` asks for messages of `src`: as on the other platforms, a process is
no participant of its own color buffers. -/
def Recv.Admits {n : Nat} (c : Recv) (me src : Fin n) : Prop :=
  match c with
  | .recvFrom src' => src.val = src'
  | .recv => True
  | .recvColor cbuf | .recvColorStart cbuf => cbuf.color src ≠ 0 ∧ src ≠ me

/-- Every receive has returned a message of a source it asked for, which is the sender that the
message names; and the messages of the others are kept in order. -/
structure Honoured {n : Nat} (s : State n) : Prop where
  source : ∀ (p : Fin n) (k : Nat) (c : Recv) (pkt : Packet n),
    (s.calls p)[k]? = some c → (s.returned p)[k]? = some pkt → c.Admits p pkt.src
  sender : ∀ p, ∀ pkt ∈ s.returned p, pkt.msg.sender = UInt32.ofNat pkt.src
  kept : ∀ src dst, s.sent src dst =
    (s.returned dst ++ s.queue dst).filter (fun pkt => pkt.src = src) ++ s.inFlight src dst

/-- In every run: the receives have honoured their sources if and only if, for every process, each
call asks for the sender of the message that has arrived at its place. -/
theorem honoured_iff {n : Nat} {s : State n} (h : (system n).Reachable s) :
    Honoured s ↔
      ∀ (p : Fin n) (k : Nat) (c : Recv) (pkt : Packet n),
        (s.calls p)[k]? = some c → (s.arrived p)[k]? = some pkt → c.Admits p pkt.src := by
  have hcons := conserved_of_reachable h
  -- a call that has returned has returned the message that arrived at its place
  have hplace : ∀ (p : Fin n) (k : Nat) (c : Recv), (s.calls p)[k]? = some c →
      (s.arrived p)[k]? = (s.returned p)[k]? := by
    intro p k c hc
    have hlt : k < (s.returned p).length := by
      rw [← hcons.calls p]
      exact (List.getElem?_eq_some_iff.1 hc).1
    rw [hcons.arrived p, List.getElem?_append_left hlt]
  constructor
  · intro hhonoured p k c pkt hc hpkt
    rw [hplace p k c hc] at hpkt
    exact hhonoured.source p k c pkt hc hpkt
  · intro hall
    refine ⟨?_, ?_, ?_⟩
    · intro p k c pkt hc hpkt
      rw [← hplace p k c hc] at hpkt
      exact hall p k c pkt hc hpkt
    · intro p pkt hpkt
      refine hcons.stamped p pkt ?_
      rw [hcons.arrived p]
      exact List.mem_append_left _ hpkt
    · intro src dst
      rw [hcons.sent src dst, hcons.arrived dst]

/-- Processes 1 and 2 send to 0, and the message of `first` arrives first. -/
def twoSenders (first second : Fin 3) : State 3 :=
  (State.fresh 3).run
    [.send 1 0 ⟨7, 0, 0, 0⟩, .send 2 0 ⟨8, 0, 0, 0⟩, .arrive first 0, .arrive second 0,
      .receive 0 (.recvFrom 1)]

theorem honoured_in_order : Honoured (twoSenders 1 2) := by
  have hreach : (system 3).Reachable (twoSenders 1 2) :=
    reachable_run (TransSys.Reachable.init rfl) _
  refine (honoured_iff hreach).2 ?_
  intro p k c pkt hc hpkt
  have hcalls : (twoSenders 1 2).calls p = if p = 0 then [.recvFrom 1] else [] := by
    simp [twoSenders, State.run, State.step, State.exec, State.ssmpRecvFromPlatf,
      State.tmcUdn0ReceiveBuffer, State.arrive, State.ssmpSendPlatf, State.tmcUdnSendBuffer,
      State.record, State.fresh, Function.update_apply]
  have hfirst : ((twoSenders 1 2).arrived 0)[0]? = some ⟨1, ⟨7, 0, 0, 1⟩⟩ := by decide
  by_cases hp : p = 0
  · -- the only call is the first, and asks for 1
    subst hp
    cases k with
    | zero =>
        rw [hfirst] at hpkt
        rw [hcalls] at hc
        cases hpkt
        cases hc
        rfl
    | succ k => simp [hcalls] at hc
  · simp [hcalls, hp] at hc

/-- The receive from 1 returns what 2 has sent. -/
theorem not_honoured_overtaken :
    (system 3).Reachable (twoSenders 2 1) ∧
      (twoSenders 2 1).returned 0 = [⟨2, ⟨8, 0, 0, 2⟩⟩] ∧ ¬ Honoured (twoSenders 2 1) := by
  refine ⟨reachable_run (TransSys.Reachable.init rfl) _, by decide, ?_⟩
  intro hhonoured
  have hsource := hhonoured.source 0 0 (.recvFrom 1) ⟨2, ⟨8, 0, 0, 2⟩⟩ rfl (by decide)
  exact absurd hsource (by simp [Recv.Admits])

end Udn
end Tile
end Ssmp
