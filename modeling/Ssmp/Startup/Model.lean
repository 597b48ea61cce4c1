import Mathlib.Data.List.FinRange
import Ssmp.Barrier.Model
import Ssmp.Big.Model
import Ssmp.Memory

/-!
# Startup.Model — `ssmp_mem_init` and what comes after it

`ssmp_mem_init_platf` of the two architectures sets the states of message slots and chunks to 0 and
then waits for the other processes: on x86 at barrier 0 and by the array `ues_initialized`, on SPARC
by that array alone.  `ssmp_init` has initialised the barriers; of the slots, the chunks and
`ues_initialized` it has written nothing, so they hold what the shared memory held before.

A process that has returned from `ssmp_mem_init` sends and receives messages, small and big, and
uses barriers.
-/

namespace Ssmp
namespace Startup

open Lib

/-! ## The calls -/

/-- What `ssmp_mem_init_platf` does to the shared memory. -/
inductive InitAct (n : Nat) where
  /-- `ssmp_recv_buf[core]->state = 0;` -/
  | resetSlot (core : Fin n)
  /-- `ssmp_chunk_buf[core]->state = 0;` -/
  | resetChunk (core : Fin n)
  /-- `ssmp_barrier_wait(b);` -/
  | barrierWait (b : Nat)
  /-- `ues_initialized[id] = 1;` -/
  | setInitialized
  /-- `while (!ues_initialized[ue]) ;` -/
  | awaitInitialized (ue : Fin n)
  deriving DecidableEq

/-- A write of the state of a slot or a chunk. -/
def InitAct.isReset {n : Nat} : InitAct n → Bool
  | resetSlot _ | resetChunk _ => true
  | barrierWait _ | setInitialized | awaitInitialized _ => false

def InitAct.barrierNum {n : Nat} : InitAct n → Option Nat
  | barrierWait b => some b
  | _ => none

namespace X86

def ssmpMemInitPlatf {n : Nat} (id : Fin n) : List (InitAct n) :=
  if n = 1 then []
  else
    ((List.finRange n).flatMap fun core =>
        .resetChunk core :: if id = core then [] else [.resetSlot core]) ++
      .barrierWait 0 :: .setInitialized :: (List.finRange n).map .awaitInitialized

end X86

namespace Sparc

def ssmpMemInitPlatf {n : Nat} (id : Fin n) : List (InitAct n) :=
  (List.finRange n).map .resetSlot ++
    .resetChunk id :: .setInitialized :: (List.finRange n).map .awaitInitialized

end Sparc

/-- `ssmp_mem_init_platf` of an architecture. -/
def memInit (A : Arch) {n : Nat} (id : Fin n) : List (InitAct n) :=
  match A with
  | .x86 => X86.ssmpMemInitPlatf id
  | .sparc => Sparc.ssmpMemInitPlatf id

/-- The barriers that `ssmp_mem_init_platf` waits at. -/
def memInitBarriers (A : Arch) {n : Nat} (id : Fin n) : List Nat :=
  (memInit A id).filterMap InitAct.barrierNum

/-! ## States -/

/-- What the processes are to do after start-up: calls on small messages, the chunk size and the
copies of big ones, the big messages to send and the lengths to ask for, and further waits. -/
structure Work (n : Nat) where
  prog : Program n
  chunkSize : ℕ+
  moves : Nat → List Piece
  sends : Fin n → List (Fin n × List UInt8)
  asks : Fin n → Fin n → List Nat
  waits : Fin n → List Nat

/-- What the shared memory held before `ssmp_init`. -/
structure Leftover (n : Nat) where
  messages : Memory
  chunk : Fin n → Nat → UInt8
  uesInitialized : Fin n → Int32
  barriers : Nat → Barrier.SsmpBarrier

/-- The message slots with the calls on them, for every process its chunk with the calls on it, the
array `ues_initialized`, the barriers, and what each process has left of `ssmp_mem_init`.  The last
field records what it has done of it. -/
structure State (L : MsgLayout) (n : Nat) where
  sys : Sys L n
  big : Fin n → Big.State (Fin n)
  uesInitialized : Fin n → Int32
  barrier : Barrier.State n
  code : Fin n → List (InitAct n)
  done : Fin n → List (InitAct n)

/-- The actions of the processes: one of `ssmp_mem_init`, or one of a later call. -/
inductive Label (n : Nat) where
  | memInit (me : Fin n)
  | small (me : Fin n) (l : Ssmp.Label n)
  /-- A step of a big call of `me`, as the sender or a receiver of the chunk of `core`. -/
  | big (me core : Fin n) (party : Big.Party (Fin n))
  | barrier (me : Fin n)

namespace State

variable {L : MsgLayout} {n : Nat}

/-- The state after `ssmp_init`, before any call of `ssmp_mem_init`. -/
def start (A : Arch) (L : MsgLayout) (W : Work n) (M : Leftover n) : State L n where
  sys := { Sys.fresh L n with slot := A.slotAt n M.messages }
  big core := { Big.State.fresh (W.sends core) (W.asks core) with chunk := M.chunk core }
  uesInitialized := M.uesInitialized
  barrier := Barrier.State.fresh (Barrier.ssmpInitBarriers M.barriers)
    fun p => memInitBarriers A p ++ W.waits p
  code := memInit A
  done _ := []

/-- The head `a` of `code me` is done. -/
def next (s : State L n) (me : Fin n) (a : InitAct n) (rest : List (InitAct n)) : State L n :=
  { s with
    code := Function.update s.code me rest
    done := Function.update s.done me (s.done me ++ [a]) }

/-- One step of process `me` in `ssmp_mem_init_platf`.  A failed wait leaves the state as it is. -/
def memInitStep (W : Work n) (s : State L n) (me : Fin n) : State L n :=
  match s.code me with
  | [] => s
  | .resetSlot core :: rest =>
      { s.next me (.resetSlot core) rest with sys := s.sys.setFlag me (.recvBuf core) 0 }
  | .resetChunk core :: rest =>
      { s.next me (.resetChunk core) rest with
        big := Function.update s.big core
          { s.big core with chunk := Function.update (s.big core).chunk (W.chunkSize - 1) 0 } }
  | .barrierWait b :: rest =>
      let t := { s with barrier := s.barrier.step me }
      -- the step with which the wait returns
      if s.barrier.pc me = .ret b then t.next me (.barrierWait b) rest else t
  | .setInitialized :: rest =>
      { s.next me .setInitialized rest with
        uesInitialized := Function.update s.uesInitialized me 1 }
  | .awaitInitialized ue :: rest =>
      if s.uesInitialized ue = 0 then s else s.next me (.awaitInitialized ue) rest

/-- The steps of a schedule of calls of `ssmp_mem_init`. -/
def runInit (W : Work n) (s : State L n) (schedule : List (Fin n)) : State L n :=
  schedule.foldl (State.memInitStep W) s

end State

/-- The process whose action `l` is. -/
def smallActor {n : Nat} : Ssmp.Label n → Fin n
  | .call me _ _ => me
  | .run me => me

/-- The process that plays `party` for the chunk of `core`. -/
def bigActor {n : Nat} (core : Fin n) : Big.Party (Fin n) → Fin n
  | .sender => core
  | .receiver r => r

section System

variable {L : MsgLayout} {n : Nat}

/-- A process makes its other calls after it has returned from `ssmp_mem_init`. -/
inductive Step (W : Work n) : State L n → Label n → State L n → Prop where
  | memInit {s : State L n} {me : Fin n} : Step W s (.memInit me) (s.memInitStep W me)
  | small {s : State L n} {me : Fin n} {l : Ssmp.Label n} {t : Sys L n}
      (hdone : s.code me = []) (hme : smallActor l = me) (h : Sys.Step W.prog s.sys l t) :
      Step W s (.small me l) { s with sys := t }
  | big {s : State L n} {me core : Fin n} {party : Big.Party (Fin n)}
      (hdone : s.code me = []) (hme : bigActor core party = me) :
      Step W s (.big me core party)
        { s with
          big := Function.update s.big core ((s.big core).step W.chunkSize W.moves party) }
  | barrier {s : State L n} {me : Fin n} (hdone : s.code me = []) :
      Step W s (.barrier me) { s with barrier := s.barrier.step me }

def system (A : Arch) (L : MsgLayout) (W : Work n) (M : Leftover n) :
    TransSys (State L n) (Label n) where
  init s := s = State.start A L W M
  step := Step W

theorem reachable_runInit {A : Arch} {L : MsgLayout} {n : Nat} {W : Work n} {M : Leftover n}
    {s : State L n} (h : (system A L W M).Reachable s) (schedule : List (Fin n)) :
    (system A L W M).Reachable (s.runInit W schedule) := by
  induction schedule generalizing s with
  | nil => exact h
  | cons me schedule ih => exact ih (TransSys.Reachable.step h Step.memInit)

end System

end Startup
end Ssmp
