import Ssmp.Barrier.Rounds
import Ssmp.Lib.Meetings
import Ssmp.Linked.Model

/-!
# Whole — programs that run with the whole library

The programs of a network are run with the calls of a build of the library, the barriers among them:
a process that is to meet others calls `ssmp_barrier_wait`, and all accesses to the slots of the
messages and to the records of the barriers interleave.  Slots and records are different memory.

A program says at which barrier it meets the others by where it is (`hall`); `barriers` are the
records as `ssmp_init` and `ssmp_barrier_init` leave them.
-/

namespace Ssmp

open Lib Barrier

/-! ## One more call of `ssmp_barrier_wait` -/

namespace Barrier

/-- Process `p` is to call `ssmp_barrier_wait(bar)` next. -/
def State.ask {n : Nat} (p : Fin n) (bar : Nat) (s : State n) : State n :=
  { s with todo := Function.update s.todo p [bar] }

end Barrier

/-! ## The system -/

/-- The state of the library, where each process is in its program, whether it is in a call that
sends or receives, and whether it is in a call of `ssmp_barrier_wait`. -/
structure Whole (L : MsgLayout) (n : Nat) (σ : Type) where
  sys : Sys L n
  bars : Barrier.State n
  loc : Fin n → σ
  busy : Fin n → Bool
  inWait : Fin n → Bool

namespace Whole

section Steps

variable {n : Nat} {σ : Type} (b : Build) (N : Network (Fin n) b.layout.Payload σ)
variable (hall : Fin n → σ → Nat)

inductive Step : Whole b.layout n σ → Fin n → Whole b.layout n σ → Prop where
  | call {x : Whole b.layout n σ} {me : Fin n} {code : List (Act n)} {msg : Line}
      (hidle : x.busy me = false) (hcall : Linked.Calls b me (N.next me (x.loc me)) code msg) :
      Step x me
        { x with sys := x.sys.enter me code msg, busy := Function.update x.busy me true }
  | run {x : Whole b.layout n σ} {me : Fin n} {t : Sys b.layout n} (hex : x.sys.exec me = some t) :
      Step x me { x with sys := t }
  | ret {x : Whole b.layout n σ} {me : Fin n} {k : σ} (hbusy : x.busy me = true)
      (hcode : (x.sys.proc me).code = [])
      (hret : Linked.Returns b (x.sys.proc me).msg (N.next me (x.loc me)) k) :
      Step x me
        { x with loc := Function.update x.loc me k, busy := Function.update x.busy me false }
  /-- A call of `ssmp_barrier_wait`. -/
  | wait {x : Whole b.layout n σ} {me : Fin n} {k : σ} (hidle : x.busy me = false)
      (hout : x.inWait me = false) (hnext : N.next me (x.loc me) = .meet k) :
      Step x me
        { x with
          bars := x.bars.ask me (hall me (x.loc me))
          inWait := Function.update x.inWait me true }
  /-- An action of the call. -/
  | access {x : Whole b.layout n σ} {me : Fin n} (hin : x.inWait me = true) :
      Step x me { x with bars := x.bars.step me }
  /-- Its return. -/
  | cross {x : Whole b.layout n σ} {me : Fin n} {k : σ} (hin : x.inWait me = true)
      (hpc : x.bars.pc me = .idle) (htodo : x.bars.todo me = [])
      (hnext : N.next me (x.loc me) = .meet k) :
      Step x me
        { x with
          loc := Function.update x.loc me k
          inWait := Function.update x.inWait me false }

/-- The programs begin when the library is set up. -/
structure Init (barriers : Nat → SsmpBarrier) (x : Whole b.layout n σ) : Prop where
  sys : x.sys.Init
  bars : x.bars.Init barriers fun _ => []
  loc : ∀ p, x.loc p = N.start p
  busy : ∀ p, x.busy p = false
  inWait : ∀ p, x.inWait p = false

def system (barriers : Nat → SsmpBarrier) : TransSys (Whole b.layout n σ) (Fin n) where
  init := Init b N barriers
  step := Step b N hall

end Steps

/-- The state without the barriers. -/
def linked {L : MsgLayout} {n : Nat} {σ : Type} (x : Whole L n σ) : Linked L n σ where
  sys := x.sys
  loc := x.loc
  busy := x.busy
  met _ := 0
  waits _ := false

/-- The halls of the library: a number that is out of range names no barrier. -/
def halls {n : Nat} {σ : Type} (hall : Fin n → σ → Nat) (barriers : Nat → SsmpBarrier) :
    Halls (Fin n) σ where
  hall := hall
  member bar p := decide (bar < ssmpNumBarriers) && (barriers bar).member p

/-! ## Computed runs -/

section Runs

variable {n : Nat} {σ : Type} {b : Build} {N : Network (Fin n) b.layout.Payload σ}
variable {hall : Fin n → σ → Nat} {barriers : Nat → SsmpBarrier}

/-- The state in which every run begins. -/
def fresh (N : Network (Fin n) b.layout.Payload σ) (barriers : Nat → SsmpBarrier) :
    Whole b.layout n σ where
  sys := Sys.fresh _ _
  bars := Barrier.State.fresh barriers fun _ => []
  loc := N.start
  busy _ := false
  inWait _ := false

theorem reachable_fresh : (system b N hall barriers).Reachable (fresh N barriers) :=
  TransSys.Reachable.init
    ⟨Sys.init_fresh, Barrier.State.init_fresh _ _, fun _ => rfl, fun _ => rfl, fun _ => rfl⟩

/-- Records in fresh memory. -/
def zeroBarriers (_bar : Nat) : SsmpBarrier where
  participants := 0
  color := none
  ticket := 0
  cleared := 0

/-! ### Step by step -/

/-- A message buffer that holds the payload `m`. -/
def lineOf (L : MsgLayout) (m : L.Payload) : Line :=
  fun i => if h : i.val < L.payloadBytes then m ⟨i, h⟩ else 0

theorem payload_lineOf (L : MsgLayout) (m : L.Payload) : L.payload (lineOf L m) = m := by
  funext i
  exact dif_pos i.isLt

/-- The call of an action, and the message buffer with which it is made.  A scan is that of the color
buffer of `color`. -/
def callOf (b : Build) (color : Int → Int) (me : Fin n) :
    Action (Fin n) b.layout.Payload σ → Option (List (Act n) × Line)
  | .put d m _ => some ((b.platform me).ssmpSendPlatf d, lineOf _ m)
  | .overwrite d m _ => some ((b.platform me).ssmpSendNoSyncPlatf d, lineOf _ m)
  | .take r _ => some ((b.platform me).ssmpRecvFromPlatf r, fun _ => 0)
  | .scan srcs _ =>
      if (ssmpColorBufInitPlatf me color).buf = srcs then
        some ((b.platform me).ssmpRecvColorStartPlatf (ssmpColorBufInitPlatf me color), fun _ => 0)
      else none
  | .meet _ | .stop => none

/-- Where the program goes on after the call. -/
def returnOf (b : Build) (msg : Line) : Action (Fin n) b.layout.Payload σ → Option σ
  | .put _ _ k => some k
  | .overwrite _ _ k => some k
  | .take _ k => some (k (b.layout.payload msg))
  | .scan _ k =>
      if h : b.layout.senderOf msg < n then
        some (k ⟨b.layout.senderOf msg, h⟩ (b.layout.payload msg))
      else none
  | .meet _ | .stop => none

/-- The next step of process `me`, if it can make one. -/
def exec (b : Build) (color : Int → Int) (N : Network (Fin n) b.layout.Payload σ)
    (hall : Fin n → σ → Nat) (x : Whole b.layout n σ) (me : Fin n) : Option (Whole b.layout n σ) :=
  match x.busy me, x.inWait me, N.next me (x.loc me) with
  | true, _, act =>
      -- in a call that sends or receives: its return, or its next action
      match (x.sys.proc me).code with
      | [] => (returnOf b (x.sys.proc me).msg act).map fun k =>
          { x with loc := Function.update x.loc me k, busy := Function.update x.busy me false }
      | a :: rest => some { x with sys := x.sys.execAct me a rest }
  | false, true, .meet k =>
      -- in `ssmp_barrier_wait`
      match x.bars.pc me, x.bars.todo me with
      | .idle, [] => some
          { x with
            loc := Function.update x.loc me k
            inWait := Function.update x.inWait me false }
      | _, _ => some { x with bars := x.bars.step me }
  | false, false, .meet _ => some
      { x with
        bars := x.bars.ask me (hall me (x.loc me))
        inWait := Function.update x.inWait me true }
  | false, _, act => (callOf b color me act).map fun c =>
      { x with sys := x.sys.enter me c.1 c.2, busy := Function.update x.busy me true }

/-- The processes of the list make one step each. -/
def execs (b : Build) (color : Int → Int) (N : Network (Fin n) b.layout.Payload σ)
    (hall : Fin n → σ → Nat) : List (Fin n) → Whole b.layout n σ → Option (Whole b.layout n σ)
  | [], x => some x
  | me :: rest, x => (exec b color N hall x me).bind (execs b color N hall rest)

variable {x y : Whole b.layout n σ} {me : Fin n} {color : Int → Int}

theorem calls_of_callOf {act : Action (Fin n) b.layout.Payload σ} {code : List (Act n)} {msg : Line}
    (h : callOf b color me act = some (code, msg)) : Linked.Calls b me act code msg := by
  cases act with
  | put d m k =>
      cases h
      exact Linked.Calls.send (payload_lineOf _ m)
  | overwrite d m k =>
      cases h
      exact Linked.Calls.sendNoSync (payload_lineOf _ m)
  | take r k =>
      cases h
      exact Linked.Calls.recvFrom _
  | scan srcs k =>
      rw [callOf, ite_eq_iff] at h
      rcases h with ⟨hbuf, hsome⟩ | ⟨_, hnone⟩
      · cases hsome
        exact Linked.Calls.recvColorStart _ hbuf
      · cases hnone
  | meet k => cases h
  | stop => cases h

theorem returns_of_returnOf {act : Action (Fin n) b.layout.Payload σ} {msg : Line} {k : σ}
    (h : returnOf b msg act = some k) : Linked.Returns b msg act k := by
  cases act with
  | put d m k' =>
      cases h
      exact Linked.Returns.send
  | overwrite d m k' =>
      cases h
      exact Linked.Returns.sendNoSync
  | take r k' =>
      cases h
      exact Linked.Returns.recvFrom
  | scan srcs k' =>
      rw [returnOf, dite_eq_iff] at h
      rcases h with ⟨hlt, hsome⟩ | ⟨_, hnone⟩
      · cases hsome
        exact Linked.Returns.recvColorStart rfl
      · cases hnone
  | meet k' => cases h
  | stop => cases h

theorem step_of_exec (h : exec b color N hall x me = some y) : Step b N hall x me y := by
  unfold exec at h
  split at h
  · rename_i hbusy
    split at h
    · rename_i hcode
      rcases Option.map_eq_some_iff.1 h with ⟨k, hk, rfl⟩
      exact Step.ret hbusy hcode (returns_of_returnOf hk)
    · rename_i a rest hcode
      cases h
      exact Step.run (by simp [Sys.exec, hcode])
  · rename_i hbusy hin hnext
    split at h
    · rename_i hpc htodo
      cases h
      exact Step.cross hin hpc htodo hnext
    · cases h
      exact Step.access hin
  · rename_i hbusy hout hnext
    cases h
    exact Step.wait hbusy hout hnext
  · rename_i hbusy _ _
    rcases Option.map_eq_some_iff.1 h with ⟨c, hc, rfl⟩
    exact Step.call hbusy (calls_of_callOf hc)

theorem reachable_execs {schedule : List (Fin n)} (hx : (system b N hall barriers).Reachable x)
    (h : execs b color N hall schedule x = some y) : (system b N hall barriers).Reachable y := by
  induction schedule generalizing x with
  | nil =>
      cases h
      exact hx
  | cons me rest ih =>
      rcases Option.bind_eq_some_iff.1 h with ⟨u, hu, hy⟩
      exact ih (TransSys.Reachable.step hx (step_of_exec hu)) hy

/-- Two processes come to a barrier that holds them, and pass it. -/
def bothPass (p q : Fin n) : List (Fin n) :=
  List.replicate 5 p ++ List.replicate 9 q ++ List.replicate 5 p

/-- The state after a run from the beginning. -/
def after (b : Build) (color : Int → Int) (N : Network (Fin n) b.layout.Payload σ)
    (hall : Fin n → σ → Nat) (barriers : Nat → SsmpBarrier) (schedule : List (Fin n)) :
    Whole b.layout n σ :=
  (execs b color N hall schedule (fresh N barriers)).getD (fresh N barriers)

theorem reachable_after (schedule : List (Fin n)) :
    (system b N hall barriers).Reachable (after b color N hall barriers schedule) := by
  have hfresh := @reachable_fresh n σ b N hall barriers
  unfold after
  cases h : execs b color N hall schedule (fresh N barriers) with
  | none => exact hfresh
  | some y => exact reachable_execs hfresh h

end Runs

end Whole
end Ssmp
