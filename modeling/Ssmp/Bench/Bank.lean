import Ssmp.Bench.Procs

/-!
# Bench.Bank — applications and servers of `benchmarks/bank.c`

An application calls `deposit`, `withdraw` and `check`, each with a server; only the last two wait for
a reply.  When all applications have met at a barrier, process 1 sends `EXIT` to every server.  They
meet again, and every application sends its throughput to process 0.  The model begins behind the
barrier that both `bank_app` and `bank_dsl` pass first, and ends where they return.
-/

namespace Ssmp
namespace Bench

open Lib

namespace Bank

/-! ## Operations -/

/-! `enum bank_op` -/

def bankDeposit : Int32 := 0
def bankWithdraw : Int32 := 1
def bankCheck : Int32 := 2
def bankExit : Int32 := 3

/-- A call of `deposit`, `withdraw` or `check`. -/
inductive Op (Id : Type) where
  | deposit (acc : UInt32) (dsl : Id) (amount : UInt32)
  | withdraw (acc : UInt32) (dsl : Id) (amount : UInt32)
  | check (acc : UInt32) (dsl : Id)
  deriving DecidableEq

def Op.dsl {Id : Type} : Op Id → Id
  | .deposit _ dsl _ => dsl
  | .withdraw _ dsl _ => dsl
  | .check _ dsl => dsl

/-- The calls that wait for a reply. -/
def Op.asks {Id : Type} : Op Id → Bool
  | .deposit _ _ _ => false
  | .withdraw _ _ _ => true
  | .check _ _ => true

section Words

variable {M Id : Type} (W : MsgWords M)

/-- What a call writes into the message; `check` leaves `w2` as it is. -/
def Op.fill (msg : M) : Op Id → M
  | .deposit acc _ amount => W.set 2 amount.toInt32 (W.set 1 acc.toInt32 (W.set 0 bankDeposit msg))
  | .withdraw acc _ amount => W.set 2 amount.toInt32 (W.set 1 acc.toInt32 (W.set 0 bankWithdraw msg))
  | .check acc _ => W.set 1 acc.toInt32 (W.set 0 bankCheck msg)

/-- The balances of a server, by the index `msg->w1`. -/
abbrev Balances : Type := Int32 → Int32

/-- The `switch` of `bank_dsl`: the balances and the message to send back, if there is one; `none` is
the default, which leaves the loop. -/
def serve (accs : Balances) (msg : M) : Option (Balances × Option M) :=
  let acc := W.get 1 msg
  let amount := W.get 2 msg
  if W.get 0 msg = bankDeposit then
    some (Function.update accs acc (accs acc + amount), none)
  else if W.get 0 msg = bankWithdraw then
    if amount ≤ accs acc then
      some (Function.update accs acc (accs acc - amount), some (W.set 2 1 msg))
    else some (accs, some (W.set 2 0 msg))
  else if W.get 0 msg = bankCheck then
    some (accs, some (W.set 2 (accs acc) msg))
  else none

end Words

/-! ## Locations -/

/-- Where an application is in `bank_app`: before a call, waiting for its reply, at the barrier, at
the `i`-th `EXIT`, at the barrier again, before its report, or behind it. -/
inductive AppPc where
  | call
  | await
  | barrier
  | exit (i : Nat)
  | barrierAgain
  | report
  | done
  deriving DecidableEq

/-- The message buffer of an application and the calls it has left, the present one included. -/
structure App (M Id : Type) where
  pc : AppPc
  msg : M
  ops : List (Op Id)

/-- Where a server is in `bank_dsl`: at `ssmp_recv_color_start`, at the reply, or behind its loop. -/
inductive DslPc where
  | recv
  | reply
  | done
  deriving DecidableEq

/-- The variables `msg`, `msg->sender` and `accs` of a server.  The last field only records the
messages that it has taken, with the processes that sent them. -/
structure Dsl (M Id : Type) where
  pc : DslPc
  msg : M
  sender : Nat
  accs : Balances
  handled : List (Id × M)

inductive Loc (M Id : Type) where
  | app (a : App M Id)
  | dsl (sv : Dsl M Id)

end Bank

/-- The processes, and the calls that the applications make, each with a server. -/
structure BankRun extends Procs where
  ops : toProcs.Id → List (Bank.Op toProcs.Id)
  dsl : ∀ p, ∀ op ∈ ops p, toProcs.isDsl op.dsl = true

namespace Bank

/-! ## Programs -/

section Programs

variable (run : BankRun) {M : Type} (W : MsgWords M) (report : run.Id → M → M)

/-- `for (ops = 0; ops < num_ops; ops++)` -/
def App.loop (msg : M) (ops : List (Op run.Id)) : App M run.Id :=
  { pc := if ops = [] then .barrier else .call, msg := msg, ops := ops }

/-- `for (i = 0; i < num_dsl; i++)` of process 1, from `i` on. -/
def App.exits (a : App M run.Id) (i : Nat) : App M run.Id :=
  { a with pc := if i < run.numDsl then .exit i else .barrierAgain }

/-- Behind the barrier: `if (ssmp_id() == 1)`. -/
def App.passed (me : run.Id) (a : App M run.Id) : App M run.Id :=
  if me.val = 1 then a.exits run 0 else { a with pc := .barrierAgain }

def bankApp (me : run.Id) (a : App M run.Id) : Action run.Id M (Loc M run.Id) :=
  match a.pc, a.ops with
  | .call, op :: ops =>
      let msg := op.fill W a.msg
      .put op.dsl msg (.app (if op.asks then { a with pc := .await, msg := msg }
        else App.loop run msg ops))
  | .await, op :: ops => .take op.dsl fun msg => .app (App.loop run msg ops)
  | .barrier, _ => .meet (.app (a.passed run me))
  | .exit i, _ =>
      let msg := W.set 0 bankExit a.msg
      run.atId (run.dslSeq i) fun d => .put d msg (.app (App.exits run { a with msg := msg } (i + 1)))
  | .barrierAgain, _ => .meet (.app { a with pc := .report })
  | .report, _ =>
      -- `report` stands for the `memcpy` of the throughput
      let msg := report me a.msg
      run.atId 0 fun d => .put d msg (.app { a with pc := .done, msg := msg })
  | _, _ => .stop

/-- What a server goes on with after it has taken `msg` from `src`. -/
def Dsl.took (sv : Dsl M run.Id) (src : run.Id) (msg : M) : Dsl M run.Id :=
  let sv' := { sv with msg := msg, sender := src.val, handled := sv.handled ++ [(src, msg)] }
  match serve W sv.accs msg with
  | none => { sv' with pc := .done }
  | some (accs, none) => { sv' with pc := .recv, accs := accs }
  | some (accs, some answer) => { sv' with pc := .reply, accs := accs, msg := answer }

def bankDsl (me : run.Id) (sv : Dsl M run.Id) : Action run.Id M (Loc M run.Id) :=
  match sv.pc with
  | .recv => .scan (run.cbuf me) fun src msg => .dsl (sv.took run W src msg)
  | .reply => run.atId sv.sender fun p => .put p sv.msg (.dsl { sv with pc := .recv })
  | .done => .stop

def next (me : run.Id) : Loc M run.Id → Action run.Id M (Loc M run.Id)
  | .app a => bankApp run W report me a
  | .dsl sv => bankDsl run W me sv

/-- The locations behind the first barrier; `buf` is what the allocations leave in the message
buffers. -/
def start (buf : run.Id → M) (me : run.Id) : Loc M run.Id :=
  if run.isDsl me then
    .dsl { pc := .recv, msg := buf me, sender := 0, accs := fun _ => 0, handled := [] }
  else .app (App.loop run (buf me) (run.ops me))

/-- The applications meet at barrier 1. -/
def network (buf : run.Id → M) : Network run.Id M (Loc M run.Id) where
  next := next run W report
  group := run.isApp
  start := start run buf

end Programs

end Bank
end Bench
end Ssmp
