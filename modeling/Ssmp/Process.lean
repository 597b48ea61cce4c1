import Ssmp.Lib.TransSys
import Ssmp.Message

/-!
# Process — processes that exchange messages through slots

A call of a send or receive function is the list of its atomic actions: a flag read, a
compare-and-swap, the copy of one piece of a line, a flag write.  The platform modules translate
each function of `src/platform/*/ssmp_platf.c` into such a list; this module says what one action
does (`Sys.exec`) and lets `n` processes run calls under any interleaving (`system`).

The slot from `i` to `j` is `slot (i, j)`: `ssmp_send_buf[j]` of process `i` and `ssmp_recv_buf[i]`
of process `j` (the module `Memory` shows that the two are one place).
-/

namespace Ssmp

open Lib

/-! ## Atomic actions -/

/-- The two ways a process names a slot: `ssmp_send_buf[dst]` and `ssmp_recv_buf[src]`. -/
inductive SlotRef (n : Nat) where
  | sendBuf (dst : Fin n)
  | recvBuf (src : Fin n)
  deriving DecidableEq

/-- Sender and receiver of the slot that process `me` calls `q`. -/
def SlotRef.pair {n : Nat} (me : Fin n) : SlotRef n → Fin n × Fin n
  | .sendBuf dst => (me, dst)
  | .recvBuf src => (src, me)

inductive Act (n : Nat) where
  /-- `while (q->state != v) ;` -/
  | await (q : SlotRef n) (v : UInt8)
  /-- `while (!__sync_bool_compare_and_swap(&q->state, old, new)) ;` -/
  | cas (q : SlotRef n) (old new : UInt8)
  /-- `return (ssmp_send_buf[dst]->state == SSMP_BUF_EMPTY);` -/
  | isFree (dst : Fin n)
  /-- `msg->state = v;` -/
  | setState (v : UInt8)
  /-- `msg->sender = v;` -/
  | setSender (v : UInt32)
  /-- One piece of a copy from `msg` to `ssmp_send_buf[dst]`. -/
  | copyOut (dst : Fin n) (p : Piece)
  /-- One piece of a copy from `ssmp_recv_buf[src]` to `msg`. -/
  | copyIn (src : Fin n) (p : Piece)
  /-- `q->state = v;` -/
  | store (q : SlotRef n) (v : UInt8)
  /-- `if (++start_recv_from == num_ues) start_recv_from = 0;` -/
  | advance (num : Nat)
  /-- `while (1) for (; k < num; k++) if (test k) { body k; return; }` with a local `k` that
  restarts at 0.  `test k` names the slot whose flag is read (and whether by compare-and-swap to
  `SSMP_BUF_LOCKD`), or is `none` where the condition is false without a read. -/
  | scan (num : Nat) (test : Nat → Option (Fin n × Bool)) (body : Nat → List (Act n)) (k : Nat)
  /-- The same loop over the static variable `start_recv_from`. -/
  | scanStart (num : Nat) (test : Nat → Option (Fin n × Bool)) (body : Nat → List (Act n))

/-! ## States -/

/-- A process: the actions left of its current call and the message buffer of the call.

The last three fields only record what happened: `arg` is the message as it was passed to the call,
`free d` says that `ssmp_send_is_free(d)` has returned 1 since the last send to `d`, and `locked`
is the slot taken by a compare-and-swap and not yet released. -/
structure Proc (n : Nat) where
  code : List (Act n)
  msg : Line
  startRecvFrom : Nat
  arg : Line
  free : Fin n → Bool
  locked : Option (SlotRef n)

/-- The slots, the processes, and for every ordered pair the payloads sent and received so far. -/
structure Sys (L : MsgLayout) (n : Nat) where
  slot : Fin n × Fin n → Line
  proc : Fin n → Proc n
  sent : Fin n × Fin n → List L.Payload
  recvd : Fin n × Fin n → List L.Payload

namespace Sys

variable {L : MsgLayout} {n : Nat}

def setProc (s : Sys L n) (me : Fin n) (p : Proc n) : Sys L n :=
  { s with proc := Function.update s.proc me p }

def setSlot (s : Sys L n) (ij : Fin n × Fin n) (l : Line) : Sys L n :=
  { s with slot := Function.update s.slot ij l }

def logSent (s : Sys L n) (ij : Fin n × Fin n) (m : L.Payload) : Sys L n :=
  { s with sent := Function.update s.sent ij (s.sent ij ++ [m]) }

def logRecvd (s : Sys L n) (ij : Fin n × Fin n) (m : L.Payload) : Sys L n :=
  { s with recvd := Function.update s.recvd ij (s.recvd ij ++ [m]) }

/-- The state byte of the slot that `me` calls `q`. -/
def flag (s : Sys L n) (me : Fin n) (q : SlotRef n) : UInt8 :=
  L.stateOf (s.slot (q.pair me))

/-- Write the state byte of the slot that `me` calls `q`. -/
def setFlag (s : Sys L n) (me : Fin n) (q : SlotRef n) (v : UInt8) : Sys L n :=
  s.setSlot (q.pair me) (L.setState v (s.slot (q.pair me)))

/-! ## One atomic action -/

/-- One test of a scanning loop at index `k`; on success the call goes on with `body k`, otherwise
with `next`. -/
def probe (me : Fin n) (t : Option (Fin n × Bool)) (hit : List (Act n)) (next : Proc n)
    (s : Sys L n) : Sys L n :=
  let p := s.proc me
  match t with
  | none => s.setProc me next
  | some (src, lk) =>
      if s.flag me (.recvBuf src) = ssmpBufMessg then
        if lk then
          (s.setFlag me (.recvBuf src) ssmpBufLockd).setProc me
            { p with code := hit, locked := some (.recvBuf src) }
        else
          s.setProc me { p with code := hit }
      else
        s.setProc me next

/-- Action `a` of process `me`, with `rest` left of the call after it.  A failed wait leaves the
state as it is. -/
def execAct (me : Fin n) (a : Act n) (rest : List (Act n)) (s : Sys L n) : Sys L n :=
  let p := s.proc me
  match a with
  | .await q v =>
      if s.flag me q = v then s.setProc me { p with code := rest } else s
  | .cas q old new =>
      if s.flag me q = old then
        (s.setFlag me q new).setProc me { p with code := rest, locked := some q }
      else s
  | .isFree dst =>
      -- what it has returned before stays known until the next send
      let r := p.free dst || decide (s.flag me (.sendBuf dst) = ssmpBufEmpty)
      s.setProc me { p with code := rest, free := Function.update p.free dst r }
  | .setState v =>
      s.setProc me { p with code := rest, msg := L.setState v p.msg }
  | .setSender v =>
      s.setProc me { p with code := rest, msg := L.setSender v p.msg }
  | .copyOut dst pc =>
      let s' := s.setSlot (me, dst) (copyPiece pc p.msg (s.slot (me, dst)))
      let p' := { p with code := rest, free := Function.update p.free dst false }
      -- the piece with the state byte publishes the message
      if pc.Has L.state ∧ L.stateOf p.msg = ssmpBufMessg then
        (s'.logSent (me, dst) (L.payload p.arg)).setProc me { p' with locked := none }
      else
        s'.setProc me p'
  | .copyIn src pc =>
      s.setProc me { p with code := rest, msg := copyPiece pc (s.slot (src, me)) p.msg }
  | .store q v =>
      let p' := { p with code := rest, locked := none }
      match q with
      | .sendBuf dst =>
          let s' := (s.setFlag me q v).setProc me
            { p' with free := Function.update p.free dst false }
          -- the store publishes the message as it was passed to the call
          if v = ssmpBufMessg then s'.logSent (me, dst) (L.payload p.arg) else s'
      | .recvBuf src =>
          let s' := (s.setFlag me q v).setProc me p'
          -- the store ends the receive
          if v = ssmpBufEmpty then s'.logRecvd (src, me) (L.payload p.msg) else s'
  | .advance num =>
      let k := p.startRecvFrom + 1
      s.setProc me { p with code := rest, startRecvFrom := if k = num then 0 else k }
  | .scan num test body k =>
      if k < num then
        s.probe me (test k) (body k ++ rest) { p with code := .scan num test body (k + 1) :: rest }
      else
        s.setProc me { p with code := .scan num test body 0 :: rest }
  | .scanStart num test body =>
      let k := p.startRecvFrom
      if k < num then
        s.probe me (test k) (body k ++ rest) { p with startRecvFrom := k + 1 }
      else
        s.setProc me { p with startRecvFrom := 0 }

/-- One atomic step of process `me` inside a call; `none` between calls. -/
def exec (me : Fin n) (s : Sys L n) : Option (Sys L n) :=
  match (s.proc me).code with
  | [] => none
  | a :: rest => some (s.execAct me a rest)

end Sys

/-! ## The interleaved system -/

/-- `prog me free code`: process `me` may start a call with the actions `code`, given for which
destinations `ssmp_send_is_free` has returned 1 since the last send. -/
abbrev Program (n : Nat) : Type := Fin n → (Fin n → Bool) → List (Act n) → Prop

inductive Label (n : Nat) where
  /-- Process `me` calls a function with the actions `code` on the message buffer `msg`. -/
  | call (me : Fin n) (code : List (Act n)) (msg : Line)
  | run (me : Fin n)

namespace Sys

variable {L : MsgLayout} {n : Nat}

/-- Process `me` enters a call. -/
def enter (me : Fin n) (code : List (Act n)) (msg : Line) (s : Sys L n) : Sys L n :=
  s.setProc me { s.proc me with code := code, msg := msg, arg := msg }

inductive Step (prog : Program n) : Sys L n → Label n → Sys L n → Prop where
  | call {s : Sys L n} {me : Fin n} {code : List (Act n)} (msg : Line)
      (hidle : (s.proc me).code = []) (hprog : prog me (s.proc me).free code) :
      Step prog s (.call me code msg) (s.enter me code msg)
  | run {s t : Sys L n} {me : Fin n} (h : s.exec me = some t) :
      Step prog s (.run me) t

/-- The state after `ssmp_mem_init`: every slot is empty, with any payload, and no call runs. -/
structure Init (s : Sys L n) : Prop where
  empty : ∀ ij, L.stateOf (s.slot ij) = ssmpBufEmpty
  idle : ∀ p, (s.proc p).code = []
  start : ∀ p, (s.proc p).startRecvFrom = 0
  free : ∀ p d, (s.proc p).free d = false
  locked : ∀ p, (s.proc p).locked = none
  sent : ∀ ij, s.sent ij = []
  recvd : ∀ ij, s.recvd ij = []

end Sys

def system (L : MsgLayout) (n : Nat) (prog : Program n) : TransSys (Sys L n) (Label n) where
  init := Sys.Init
  step := Sys.Step prog

section Runs

variable {L : MsgLayout} {n : Nat} {prog : Program n} {s : Sys L n}

/-- Fresh shared memory is all zero. -/
def Sys.fresh (L : MsgLayout) (n : Nat) : Sys L n where
  slot _ _ := 0
  proc _ :=
    { code := [], msg := fun _ => 0, startRecvFrom := 0, arg := fun _ => 0, free := fun _ => false,
      locked := none }
  sent _ := []
  recvd _ := []

theorem Sys.init_fresh : (Sys.fresh L n).Init where
  empty _ := rfl
  idle _ := rfl
  start _ := rfl
  free _ _ := rfl
  locked _ := rfl
  sent _ := rfl
  recvd _ := rfl

/-- Process `me` alone takes up to `k` steps. -/
def Sys.runAlone (me : Fin n) : Nat → Sys L n → Sys L n
  | 0, s => s
  | k + 1, s =>
      match s.exec me with
      | none => s
      | some t => Sys.runAlone me k t

theorem Sys.exec_eq_some {me : Fin n} {t : Sys L n} (hex : s.exec me = some t) :
    ∃ a rest, (s.proc me).code = a :: rest ∧ s.execAct me a rest = t := by
  cases hcode : (s.proc me).code with
  | nil => simp [Sys.exec, hcode] at hex
  | cons a rest => exact ⟨a, rest, rfl, by simpa [Sys.exec, hcode] using hex⟩

theorem Sys.exec_of_code {me : Fin n} {t : Sys L n} {a : Act n} {rest : List (Act n)}
    (hcode : (s.proc me).code = a :: rest) (hex : s.exec me = some t) :
    s.execAct me a rest = t := by
  simpa [Sys.exec, hcode] using hex

/-- Between calls a process takes no step. -/
theorem Sys.not_exec {me : Fin n} {t : Sys L n} (hidle : (s.proc me).code = []) :
    s.exec me ≠ some t := by
  simp [Sys.exec, hidle]

theorem reachable_call {me : Fin n} {code : List (Act n)} (msg : Line)
    (h : (system L n prog).Reachable s) (hidle : (s.proc me).code = [])
    (hprog : prog me (s.proc me).free code) :
    (system L n prog).Reachable (s.enter me code msg) :=
  TransSys.Reachable.step h (Sys.Step.call msg hidle hprog)

theorem reachable_runAlone (me : Fin n) (k : Nat) (h : (system L n prog).Reachable s) :
    (system L n prog).Reachable (s.runAlone me k) := by
  induction k generalizing s with
  | zero => exact h
  | succ k ih =>
      cases hex : s.exec me with
      | none => simpa [Sys.runAlone, hex] using h
      | some t =>
          simpa [Sys.runAlone, hex] using ih (TransSys.Reachable.step h (Sys.Step.run hex))

end Runs

end Ssmp
