import Ssmp.Bench.Procs
import Ssmp.Lib.LocalProof
import Ssmp.Xorshf96

/-!
# Bench.BarrierTest — `benchmarks/barrier_test.c`

In every round process 0 draws a barrier at random and broadcasts its number, and all processes wait
there.  Before the first round they wait at barrier 0, and behind the last one at barrier 10.  The
model begins behind `ssmp_mem_init`; it leaves out the measured times.
-/

namespace Ssmp
namespace Bench

open Lib Network

/-- `int num_procs = 2` -/
def BarrierTest.defaultNumProcs : Nat := 2

/-- The options, the first of which is read by `atoi`, and the seeds of process 0.  The ids are in a
byte. -/
structure BarrierTestArgs where
  numReps : Int
  numProcs : Nat
  seeds : Seeds
  numReps_lt : numReps < 2 ^ 31
  numProcs_pos : 0 < numProcs
  numProcs_le : numProcs ≤ 256

namespace BarrierTestArgs

variable (args : BarrierTestArgs)

abbrev Id : Type := Fin args.numProcs

/-- The process that draws. -/
def first : args.Id := ⟨0, args.numProcs_pos⟩

/-- The number of rounds. -/
def rounds : Nat := args.numReps.toNat

/-- The barrier of round `i`. -/
def draw (i : Nat) : Nat :=
  ((xorshf96 (Seeds.next^[i] args.seeds)).1 % 16).toNat

variable {args}

theorem draw_lt (i : Nat) : args.draw i < 16 := by
  have hmod := UInt64.toNat_mod (xorshf96 (Seeds.next^[i] args.seeds)).1 16
  rw [draw, hmod]
  exact Nat.mod_lt _ (by decide)

end BarrierTestArgs

namespace BarrierTest

/-- Where a process is: at the first barrier, at `ssmp_send(core, msg)` of the broadcast, at
`ssmp_recv_from`, at the barrier of a round, at the last one, or behind it. -/
inductive Pc where
  | opening
  | send (core : Nat)
  | recv
  | wait
  | last
  | done
  deriving DecidableEq

/-- The variables `num`, `seeds` and `barr`.  When `num` is `k`, the rounds before the `k`-th are
over. -/
structure Proc where
  pc : Pc
  num : Nat
  seeds : Seeds
  barr : Int32

section Programs

variable (args : BarrierTestArgs) {M : Type} (W : MsgWords M) (buf : Nat → M)

/-- `for (; core < ssmp_num_ues_; core++) { if (core == ssmp_id_) continue; ssmp_send(core, msg); }` -/
def Proc.broadcast (me : args.Id) (core : Nat) (l : Proc) : Proc :=
  let core := if core = me.val then core + 1 else core
  if core < args.numProcs then { l with pc := .send core } else { l with pc := .wait }

/-- `while (num++ < num_reps)` and the turn of process 0 up to the broadcast. -/
def Proc.test (me : args.Id) (l : Proc) : Proc :=
  let l' := { l with num := l.num + 1 }
  if (l.num : Int) < args.numReps then
    if me.val = 0 then
      let r := xorshf96 l.seeds
      Proc.broadcast args me 0
        { l' with seeds := r.2, barr := Int32.ofNat (r.1 % 16).toNat }
    else { l' with pc := .recv }
  else { l' with pc := .last }

/-- The message of a round; `buf` is what the stack holds. -/
def Proc.message (l : Proc) : M :=
  W.set 0 l.barr (buf (l.num - 1))

def next (me : args.Id) (l : Proc) : Action args.Id M Proc :=
  match l.pc with
  | .opening => .meet (Proc.test args me l)
  | .send core =>
      if h : core < args.numProcs then
        .put ⟨core, h⟩ (l.message W buf) (Proc.broadcast args me (core + 1) l)
      else .stop
  | .recv => .take args.first fun m => { l with pc := .wait, barr := W.get 0 m }
  | .wait => .meet (Proc.test args me l)
  | .last => .meet { l with pc := .done }
  | .done => .stop

/-- The argument of `ssmp_barrier_wait`. -/
def hall (_me : args.Id) (l : Proc) : Nat :=
  match l.pc with
  | .wait => l.barr.toInt.toNat
  | .last => 10
  | _ => 0

/-- Only process 0 draws; what the others have for seeds does not matter. -/
def start (_me : args.Id) : Proc where
  pc := .opening
  num := 0
  seeds := args.seeds
  barr := 0

def network : Network args.Id M Proc where
  next := next args W buf
  group _ := true
  start := start args

end Programs

end BarrierTest
end Bench
end Ssmp
