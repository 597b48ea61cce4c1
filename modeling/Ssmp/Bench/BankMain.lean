import Ssmp.Bench.BankShutdown
import Ssmp.Lib.Part
import Ssmp.Barrier.Participants

/-!
# Bench.BankMain — `main` of `benchmarks/bank.c`

Behind `ssmp_mem_init` all processes meet at barrier 4, which is the first call in `bank_app` and in
`bank_dsl`.  The applications meet at barrier 1, and behind both functions all meet at barrier 0, as far
as it holds them.  Then process 0 takes a message from every application, for the total throughput, and
all meet at barrier 3.
-/

namespace Ssmp
namespace Bench

open Lib Network

namespace Bank

section Locations

variable {M Id : Type}

/-- The process has returned from `bank_app` or from `bank_dsl`. -/
def Loc.over : Loc M Id → Bool
  | .app a => a.pc = .done
  | .dsl sv => sv.pc = .done

/-- The message buffer. -/
def Loc.msg : Loc M Id → M
  | .app a => a.msg
  | .dsl sv => sv.msg

end Locations

namespace Main

/-- Where a process is: at barrier 4, in `bank_app` or `bank_dsl` behind it, at barrier 0, at
`ssmp_recv_from`, at barrier 3, or at the end. -/
inductive Pc where
  | opening
  | run
  | leaving
  | gather
  | closing
  | done
  deriving DecidableEq

/-- The variables of `bank_app` or `bank_dsl`, the variable `c`, and the messages whose throughputs
`total_throughput` is the sum of, with the processes from which they have been taken. -/
structure Proc (M Id : Type) where
  pc : Pc
  part : Loc M Id
  c : Nat
  added : List (Id × M)

section Programs

variable (run : BankRun) {M : Type} (W : MsgWords M) (report : run.Id → M → M)

/-- Behind a call in `bank_app` or `bank_dsl`. -/
def Proc.resume (l : Proc M run.Id) : Proc M run.Id :=
  { l with pc := if l.part.over then .leaving else .run }

/-- `for (; c < ssmp_num_ues(); c++)`, up to the next call. -/
def Proc.gather (c : Nat) (l : Proc M run.Id) : Proc M run.Id :=
  match (List.range run.numProcs).find? fun i => c ≤ i && colorApp1 run.dslPerCore i with
  | some i => { l with pc := .gather, c := i }
  | none => { l with pc := .closing }

def next (me : run.Id) (l : Proc M run.Id) : Action run.Id M (Proc M run.Id) :=
  match l.pc with
  | .opening => .meet { l with pc := .run }
  | .run => (Bank.next run W report me l.part).map fun k => Proc.resume run { l with part := k }
  | .leaving => .meet (if me.val = 0 then Proc.gather run 0 l else { l with pc := .closing })
  | .gather =>
      run.atId l.c fun c => .take c fun m =>
        Proc.gather run (l.c + 1) { l with added := l.added ++ [(c, m)] }
  | .closing => .meet { l with pc := .done }
  | .done => .stop

/-- `buf` is what the allocations leave in the message buffers. -/
def start (buf : run.Id → M) (me : run.Id) : Proc M run.Id where
  pc := .opening
  part := Bank.start run buf me
  c := 0
  added := []

def hall (_me : run.Id) (l : Proc M run.Id) : Nat :=
  match l.pc with
  | .opening => 4
  | .leaving => 0
  | .closing => 3
  | _ => 1

def network (buf : run.Id → M) : Network run.Id M (Proc M run.Id) where
  next := next run W report
  group _ := true
  start := start run buf

/-- The barriers as `main` initialises them. -/
def barriers (old : Nat → Barrier.SsmpBarrier) : Nat → Barrier.SsmpBarrier :=
  let colorAll : Nat → Int32 := fun _ => 1
  let colorOf (color : Nat → Bool) : Nat → Int32 := fun id => if color id then 1 else 0
  Barrier.ssmpBarrierInitPlatf 3 0 (some colorAll)
    (Barrier.ssmpBarrierInitPlatf 4 0 (some colorAll)
      (Barrier.ssmpBarrierInitPlatf 1 0 (some (colorOf (colorApp1 run.dslPerCore)))
        (Barrier.ssmpBarrierInitPlatf 2 0 (some (colorOf (colorDsl run.dslPerCore)))
          (Barrier.ssmpInitBarriers old))))

end Programs

/-! ## Where a process can be -/

section Places

variable (run : BankRun) {M : Type} (W : MsgWords M) (report : run.Id → M → M) (buf : run.Id → M)

/-- Where process `me` can be in `main`. -/
def Fit (me : run.Id) (l : Proc M run.Id) : Prop :=
  match l.pc with
  | .opening => l.part = Bank.start run buf me ∧ l.added = []
  | .run => l.part.over = false ∧ l.added = []
  | .leaving => l.part.over = true ∧ l.added = []
  | .gather => l.part.over = true ∧ me.val = 0 ∧ (∃ h : l.c < run.numProcs, run.isApp ⟨l.c, h⟩ = true) ∧
      l.added.map Prod.fst = run.appsBelow l.c
  | _ => l.part.over = true ∧ (me.val = 0 → l.added.map Prod.fst = run.appsBelow run.numProcs)

/-- An application runs `bank_app`, and a server `bank_dsl`. -/
def InRole (me : run.Id) : Loc M run.Id → Prop
  | .app _ => run.isApp me = true
  | .dsl _ => run.isDsl me = true

variable {run}

/-- How many of the barriers 4, 0 and 3 a process has passed. -/
def pos (l : Proc M run.Id) : Nat :=
  match l.pc with
  | .opening => 0
  | .run => 1
  | .leaving => 1
  | .gather => 2
  | .closing => 2
  | .done => 3

/-- The process is in `bank_app` or `bank_dsl`, behind the first barrier. -/
def inside (_p : run.Id) (l : Proc M run.Id) : Bool :=
  l.pc = .run

/-- Where it is there, or will be, or has been. -/
def inPart (_p : run.Id) (l : Proc M run.Id) : Loc M run.Id :=
  l.part

/-- From `l` a process can go on to `k`. -/
inductive Onward (me : run.Id) (l : Proc M run.Id) : Proc M run.Id → Prop where
  | opening (hpc : l.pc = .opening) : Onward me l { l with pc := .run }
  | run {k : Loc M run.Id} (hpc : l.pc = .run) (hk : (Bank.next run W report me l.part).Leads k) :
      Onward me l (Proc.resume run { l with part := k })
  | leaving (hpc : l.pc = .leaving) :
      Onward me l (if me.val = 0 then Proc.gather run 0 l else { l with pc := .closing })
  | gather {c : run.Id} (hpc : l.pc = .gather) (hc : c.val = l.c) (m : M) :
      Onward me l (Proc.gather run (l.c + 1) { l with added := l.added ++ [(c, m)] })
  | closing (hpc : l.pc = .closing) : Onward me l { l with pc := .done }

/-- At the barrier of `l` a process meets others, and goes on to `k`. -/
inductive Meets (me : run.Id) (l : Proc M run.Id) : Nat → Proc M run.Id → Prop where
  | opening (hpc : l.pc = .opening) : Meets me l 4 { l with pc := .run }
  | run {k : Loc M run.Id} (hpc : l.pc = .run) (hk : Bank.next run W report me l.part = .meet k) :
      Meets me l 1 (Proc.resume run { l with part := k })
  | leaving (hpc : l.pc = .leaving) :
      Meets me l 0 (if me.val = 0 then Proc.gather run 0 l else { l with pc := .closing })
  | closing (hpc : l.pc = .closing) : Meets me l 3 { l with pc := .done }

end Places

/-! ## The calls -/

section Calls

variable {run : BankRun} {M : Type} {W : MsgWords M} {report : run.Id → M → M} {buf : run.Id → M}
variable {me p q : run.Id} {l k : Proc M run.Id} {c : Nat}

theorem next_opening (hpc : l.pc = .opening) :
    next run W report me l = .meet { l with pc := .run } := by
  simp only [next, hpc]

theorem next_run (hpc : l.pc = .run) : next run W report me l =
    (Bank.next run W report me l.part).map fun k => Proc.resume run { l with part := k } := by
  simp only [next, hpc]

theorem next_leaving (hpc : l.pc = .leaving) : next run W report me l =
    .meet (if me.val = 0 then Proc.gather run 0 l else { l with pc := .closing }) := by
  simp only [next, hpc]

theorem next_gather (hpc : l.pc = .gather) (hc : l.c < run.numProcs) : next run W report me l =
    .take ⟨l.c, hc⟩ fun m =>
      Proc.gather run (l.c + 1) { l with added := l.added ++ [(⟨l.c, hc⟩, m)] } := by
  simp only [next, hpc, Procs.atId, dif_pos hc]

theorem next_closing (hpc : l.pc = .closing) :
    next run W report me l = .meet { l with pc := .done } := by
  simp only [next, hpc]

theorem next_done (hpc : l.pc = .done) : next run W report me l = .stop := by
  simp only [next, hpc]

theorem onward_of_leads (h : (next run W report me l).Leads k) : Onward W report me l k := by
  cases hpc : l.pc with
  | opening =>
      rw [next_opening hpc] at h
      have hk : k = _ := h
      exact hk ▸ Onward.opening hpc
  | run =>
      rw [next_run hpc] at h
      rcases leads_map h with ⟨k', hk', rfl⟩
      exact Onward.run hpc hk'
  | leaving =>
      rw [next_leaving hpc] at h
      have hk : k = _ := h
      exact hk ▸ Onward.leaving hpc
  | gather =>
      by_cases hc : l.c < run.numProcs
      · rw [next_gather hpc hc] at h
        rcases h with ⟨m, rfl⟩
        exact Onward.gather hpc rfl m
      · simp only [next, hpc, Procs.atId, dif_neg hc] at h
        exact h.elim
  | closing =>
      rw [next_closing hpc] at h
      have hk : k = _ := h
      exact hk ▸ Onward.closing hpc
  | done =>
      rw [next_done hpc] at h
      exact h.elim

theorem meets_of_next (h : next run W report me l = .meet k) :
    Meets W report me l (hall run me l) k := by
  cases hpc : l.pc with
  | opening =>
      rw [next_opening hpc, Action.meet.injEq] at h
      simp only [hall, hpc]
      exact h ▸ Meets.opening hpc
  | run =>
      rcases map_eq_meet ((next_run hpc).symm.trans h) with ⟨k', hk', rfl⟩
      simp only [hall, hpc]
      exact Meets.run hpc hk'
  | leaving =>
      rw [next_leaving hpc, Action.meet.injEq] at h
      simp only [hall, hpc]
      exact h ▸ Meets.leaving hpc
  | gather =>
      simp only [next, hpc, Procs.atId] at h
      split at h <;> cases h
  | closing =>
      rw [next_closing hpc, Action.meet.injEq] at h
      simp only [hall, hpc]
      exact h ▸ Meets.closing hpc
  | done => cases (next_done hpc).symm.trans h

/-! ### The loop of process 0 -/

theorem appsBelow_of_none {i : Nat} (hle : c ≤ i)
    (hnone : ∀ j, c ≤ j → j < i → colorApp1 run.dslPerCore j = false) :
    run.appsBelow i = run.appsBelow c := by
  induction i, hle using Nat.le_induction with
  | base => rfl
  | succ i hle ih =>
      rw [Procs.appsBelow_of_not fun _ => hnone i hle (Nat.lt_succ_self i)]
      exact ih fun j hj hlt => hnone j hj (Nat.lt_succ_of_lt hlt)

/-- The loop goes on to the next application, or ends behind the last. -/
theorem gather_cases (hc : c ≤ run.numProcs) :
    (∃ i, ∃ h : i < run.numProcs, Proc.gather run c l = { l with pc := .gather, c := i } ∧
      run.isApp ⟨i, h⟩ = true ∧ run.appsBelow i = run.appsBelow c) ∨
    Proc.gather run c l = { l with pc := .closing } ∧
      run.appsBelow run.numProcs = run.appsBelow c := by
  unfold Proc.gather
  cases hfind : (List.range run.numProcs).find? fun i => c ≤ i && colorApp1 run.dslPerCore i with
  | some i =>
      left
      rw [List.find?_range_eq_some] at hfind
      rcases hfind with ⟨htest, hlt, hbefore⟩
      rw [Bool.and_eq_true, decide_eq_true_eq] at htest
      refine ⟨i, List.mem_range.1 hlt, rfl, htest.2, appsBelow_of_none htest.1 ?_⟩
      intro j hj hji
      simpa [hj] using hbefore j hji
  | none =>
      right
      rw [List.find?_range_eq_none] at hfind
      refine ⟨rfl, appsBelow_of_none hc ?_⟩
      intro j hj hlt
      simpa [hj] using hfind j hlt

theorem gather_part : (Proc.gather run c l).part = l.part := by
  unfold Proc.gather
  split <;> rfl

theorem gather_added : (Proc.gather run c l).added = l.added := by
  unfold Proc.gather
  split <;> rfl

theorem pos_gather : pos (Proc.gather run c l) = 2 := by
  unfold Proc.gather
  split <;> rfl

theorem fit_gather (hc : c ≤ run.numProcs) (hover : l.part.over = true) (hme : me.val = 0)
    (hadded : l.added.map Prod.fst = run.appsBelow c) : Fit run buf me (Proc.gather run c l) := by
  rcases @gather_cases run M l c hc with ⟨i, hi, heq, happ, hbelow⟩ | ⟨heq, hbelow⟩
  · rw [heq]
    exact ⟨hover, hme, ⟨hi, happ⟩, hadded.trans hbelow.symm⟩
  · rw [heq]
    exact ⟨hover, fun _ => hadded.trans hbelow.symm⟩

theorem pos_resume : pos (Proc.resume run l) = 1 := by
  unfold Proc.resume pos
  cases l.part.over <;> rfl

theorem fit_resume (hadded : l.added = []) : Fit run buf me (Proc.resume run l) := by
  unfold Proc.resume Fit
  cases hover : l.part.over with
  | true => exact ⟨rfl, hadded⟩
  | false => exact ⟨rfl, hadded⟩

theorem start_over : (Bank.start run buf me).over = false := by
  unfold Bank.start
  split_ifs
  · rfl
  · rcases @pc_loop run M (buf me) (run.ops me) with hpc | hpc <;> simp [Loc.over, hpc]

/-! ### One call after the other -/

theorem Fit.onward (h : Fit run buf me l) (hk : Onward W report me l k) : Fit run buf me k := by
  unfold Fit at h
  cases hk with
  | opening hpc =>
      rw [hpc] at h
      refine ⟨?_, h.2⟩
      rw [h.1]
      exact start_over
  | run hpc _ =>
      rw [hpc] at h
      exact fit_resume h.2
  | leaving hpc =>
      rw [hpc] at h
      split_ifs with hme
      · exact fit_gather (Nat.zero_le _) h.1 hme (by rw [h.2]; rfl)
      · exact ⟨h.1, fun hzero => absurd hzero hme⟩
  | @gather c hpc hc m =>
      rw [hpc] at h
      rcases h with ⟨hover, hme, ⟨hlt, happ⟩, hadded⟩
      have hsame : c = ⟨l.c, hlt⟩ := Fin.ext hc
      refine fit_gather (Nat.succ_le_of_lt hlt) hover hme ?_
      rw [Procs.appsBelow_of_app hlt happ, ← hsame, ← hadded, List.map_append]
      rfl
  | closing hpc =>
      rw [hpc] at h
      exact h

/-- Behind `bank_app` and `bank_dsl` nothing more is done there. -/
theorem Onward.part (hk : Onward W report me l k) :
    k.part = l.part ∨ l.pc = .run ∧ (Bank.next run W report me l.part).Leads k.part := by
  cases hk with
  | opening _ => exact Or.inl rfl
  | run hpc hk => exact Or.inr ⟨hpc, hk⟩
  | leaving _ =>
      left
      split_ifs
      · exact gather_part
      · rfl
  | gather _ _ _ => exact Or.inl gather_part
  | closing _ => exact Or.inl rfl

/-- In `bank_app` and `bank_dsl` it goes on there. -/
theorem Onward.of_run (hk : Onward W report me l k) (hpc : l.pc = .run) :
    ∃ k', (Bank.next run W report me l.part).Leads k' ∧ k = Proc.resume run { l with part := k' } := by
  cases hk with
  | run _ hk => exact ⟨_, hk, rfl⟩
  | opening hpc' => cases hpc.symm.trans hpc'
  | leaving hpc' => cases hpc.symm.trans hpc'
  | gather hpc' _ _ => cases hpc.symm.trans hpc'
  | closing hpc' => cases hpc.symm.trans hpc'

theorem Meets.pos {n : Nat} (h : Meets W report me l n k) :
    n = 1 ∧ Main.pos k = Main.pos l ∨
      Main.pos k = Main.pos l + 1 ∧ ([4, 0, 3] : List Nat)[Main.pos l]? = some n := by
  cases h with
  | opening hpc => exact Or.inr (by simp [Main.pos, hpc])
  | run hpc _ =>
      left
      rw [pos_resume]
      simp [Main.pos, hpc]
  | leaving hpc =>
      right
      have hl : Main.pos l = 1 := by simp [Main.pos, hpc]
      rw [hl]
      split_ifs
      · exact ⟨pos_gather, rfl⟩
      · exact ⟨rfl, rfl⟩
  | closing hpc => exact Or.inr (by simp [Main.pos, hpc])

/-- Without one of the barriers nobody gets past one. -/
theorem Onward.pos (hk : Onward W report me l k)
    (hnot : ∀ k', next run W report me l = .meet k' → hall run me l ∉ ([4, 0, 3] : List Nat)) :
    Main.pos k = Main.pos l := by
  cases hk with
  | opening hpc => exact absurd (by simp [hall, hpc]) (hnot _ (next_opening hpc))
  | run hpc _ =>
      rw [pos_resume]
      simp [Main.pos, hpc]
  | leaving hpc => exact absurd (by simp [hall, hpc]) (hnot _ (next_leaving hpc))
  | gather hpc _ _ =>
      rw [pos_gather]
      simp [Main.pos, hpc]
  | closing hpc => exact absurd (by simp [hall, hpc]) (hnot _ (next_closing hpc))

/-! ### Roles -/

/-- What an application does in one call or at one barrier. -/
inductive AppStep (run : BankRun) (W : MsgWords M) (report : run.Id → M → M) (me : run.Id)
    (a : App M run.Id) : App M run.Id → Prop where
  | asks {op : Op run.Id} {ops : List (Op run.Id)} (hpc : a.pc = .call) (hops : a.ops = op :: ops) :
      AppStep run W report me a { a with pc := .await, msg := op.fill W a.msg }
  | tells {op : Op run.Id} {ops : List (Op run.Id)} (hpc : a.pc = .call) (hops : a.ops = op :: ops) :
      AppStep run W report me a (App.loop run (op.fill W a.msg) ops)
  | reply {op : Op run.Id} {ops : List (Op run.Id)} (m : M) (hpc : a.pc = .await)
      (hops : a.ops = op :: ops) : AppStep run W report me a (App.loop run m ops)
  | barrier (hpc : a.pc = .barrier) : AppStep run W report me a (a.passed run me)
  | exit {i : Nat} (hpc : a.pc = .exit i) :
      AppStep run W report me a (App.exits run { a with msg := W.set 0 bankExit a.msg } (i + 1))
  | barrierAgain (hpc : a.pc = .barrierAgain) : AppStep run W report me a { a with pc := .report }
  | report (hpc : a.pc = .report) :
      AppStep run W report me a { a with pc := .done, msg := report me a.msg }

theorem app_of_leads {a : App M run.Id} {k : Loc M run.Id}
    (h : (bankApp run W report me a).Leads k) : ∃ a', k = .app a' ∧ AppStep run W report me a a' := by
  cases hpc : a.pc with
  | call =>
      cases hops : a.ops with
      | nil =>
          simp only [bankApp, hpc, hops] at h
          exact h.elim
      | cons op ops =>
          simp only [bankApp, hpc, hops] at h
          have hk : k = _ := h
          rw [hk]
          split_ifs
          · refine ⟨{ a with pc := .await, msg := op.fill W a.msg }, ?_, AppStep.asks hpc hops⟩
            rw [← hops]
          · exact ⟨_, rfl, AppStep.tells hpc hops⟩
  | await =>
      cases hops : a.ops with
      | nil =>
          simp only [bankApp, hpc, hops] at h
          exact h.elim
      | cons op ops =>
          simp only [bankApp, hpc, hops] at h
          rcases h with ⟨m, rfl⟩
          exact ⟨_, rfl, AppStep.reply m hpc hops⟩
  | barrier =>
      simp only [bankApp, hpc] at h
      exact ⟨_, h, AppStep.barrier hpc⟩
  | exit i =>
      simp only [bankApp, hpc, Procs.atId] at h
      split at h
      · exact ⟨_, h, AppStep.exit hpc⟩
      · exact h.elim
  | barrierAgain =>
      simp only [bankApp, hpc] at h
      exact ⟨_, h, AppStep.barrierAgain hpc⟩
  | report =>
      simp only [bankApp, hpc, Procs.atId] at h
      split at h
      · exact ⟨_, h, AppStep.report hpc⟩
      · exact h.elim
  | done =>
      simp only [bankApp, hpc] at h
      exact h.elim

theorem dsl_of_leads {sv : Dsl M run.Id} {k : Loc M run.Id}
    (h : (bankDsl run W me sv).Leads k) : ∃ sv', k = .dsl sv' := by
  cases hpc : sv.pc with
  | recv =>
      simp only [bankDsl, hpc] at h
      rcases h with ⟨src, m, hk⟩
      exact ⟨_, hk⟩
  | reply =>
      simp only [bankDsl, hpc, Procs.atId] at h
      split at h
      · exact ⟨_, h⟩
      · exact h.elim
  | done =>
      simp only [bankDsl, hpc] at h
      exact h.elim

theorem InRole.leads {l k : Loc M run.Id} (h : InRole run me l)
    (hk : (Bank.next run W report me l).Leads k) : InRole run me k := by
  cases l with
  | app a =>
      rcases app_of_leads hk with ⟨a', rfl, _⟩
      exact h
  | dsl sv =>
      rcases dsl_of_leads hk with ⟨sv', rfl⟩
      exact h

theorem inRole_start : InRole run me (Bank.start run buf me) := by
  unfold Bank.start
  split_ifs with hdsl
  · exact hdsl
  · exact Procs.isApp_iff.2 hdsl

/-- A server meets nobody in its loop. -/
theorem dsl_not_meet {sv : Dsl M run.Id} {k : Loc M run.Id} : bankDsl run W me sv ≠ .meet k := by
  intro h
  cases hpc : sv.pc with
  | recv => simp [bankDsl, hpc] at h
  | reply =>
      simp only [bankDsl, hpc, Procs.atId] at h
      split at h <;> cases h
  | done => simp [bankDsl, hpc] at h

end Calls

/-! ## The order of the barriers -/

section Order

variable {run : BankRun} {M : Type} {W : MsgWords M} {report : run.Id → M → M} {buf : run.Id → M}
variable {H : Halls run.Id (Proc M run.Id)} {s : Meetings run.Id M (Proc M run.Id)} {p q : run.Id}

theorem fit (h : (Meetings.system (network run W report buf) H).Reachable s) (p : run.Id) :
    Fit run buf p (s.net.loc p) := by
  refine loc_invariant (I := Fit run buf) ?_ (fun _ _ _ hfit hk => hfit.onward (onward_of_leads hk)) h p
  exact fun _ => ⟨rfl, rfl⟩

theorem inRole (h : (Meetings.system (network run W report buf) H).Reachable s) (p : run.Id) :
    InRole run p (s.net.loc p).part := by
  refine loc_invariant (I := fun p (l : Proc M run.Id) => InRole run p l.part) ?_ ?_ h p
  · exact fun _ => inRole_start
  · intro p l k hrole hk
    rcases (onward_of_leads hk).part with hsame | ⟨_, hleads⟩
    · rw [hsame]
      exact hrole
    · exact hrole.leads hleads

theorem visits (hhall : H.hall = hall run) :
    Meetings.Visits (network run W report buf) H [4, 0, 3] fun _ => pos where
  start _ := rfl
  stays s p k _ hgoes hmeet := by
    refine (onward_of_leads (leads_of_goes hgoes)).pos ?_
    intro k' hk'
    have hnot := hmeet k' hk'
    rwa [Meetings.hallOf, hhall] at hnot
  passes s p k _ hnext hmem := by
    have hmeets := meets_of_next hnext
    have hhere : s.hallOf H p = hall run p (s.net.loc p) := by rw [Meetings.hallOf, hhall]
    rw [hhere] at hmem ⊢
    rcases hmeets.pos with ⟨hone, _⟩ | hpos
    · rw [hone] at hmem
      exact absurd hmem (by decide)
    · exact hpos

theorem app_of_isApp (h : (Meetings.system (network run W report buf) H).Reachable s)
    (hp : run.isApp p = true) : ∃ a, (s.net.loc p).part = .app a := by
  have hrole := inRole h p
  cases hloc : (s.net.loc p).part with
  | app a => exact ⟨a, rfl⟩
  | dsl sv =>
      rw [hloc] at hrole
      exact absurd hrole (Procs.isApp_iff.1 hp)

theorem dsl_of_isDsl (h : (Meetings.system (network run W report buf) H).Reachable s)
    (hp : run.isDsl p = true) : ∃ sv, (s.net.loc p).part = .dsl sv := by
  have hrole := inRole h p
  cases hloc : (s.net.loc p).part with
  | app a =>
      rw [hloc] at hrole
      exact absurd hp (Procs.isApp_iff.1 hrole)
  | dsl sv => exact ⟨sv, rfl⟩

/-- `bank_app` and `bank_dsl` are a part of the programs; there the applications meet at barrier 1. -/
theorem part (hhall : H.hall = hall run) (happs : ∀ p, H.member 1 p = run.isApp p) :
    Part (Bank.network run W report buf) (network run W report buf) H 1 inside inPart where
  start _ := rfl
  group := happs
  next p l hin := ⟨_, next_run (of_decide_eq_true hin), fun _ => rfl⟩
  meets s p k h hin hnext := by
    have hpc : (s.net.loc p).pc = .run := of_decide_eq_true hin
    refine ⟨by rw [Meetings.hallOf, hhall, hall, hpc], ?_⟩
    rw [happs]
    have hrole := inRole h p
    cases hloc : (s.net.loc p).part with
    | app a =>
        rw [hloc] at hrole
        exact hrole
    | dsl sv =>
        rcases map_eq_meet ((next_run hpc).symm.trans hnext) with ⟨k', hk', _⟩
        rw [hloc] at hk'
        exact absurd hk' dsl_not_meet
  apart p l k hout hnext := by
    have hpc : l.pc ≠ .run := of_decide_eq_false hout
    have hmeets := meets_of_next hnext
    rw [hhall]
    generalize hall run p l = n at hmeets
    cases hmeets with
    | run hpc' _ => exact absurd hpc' hpc
    | _ => decide
  noScan p l srcs k hout hnext := by
    have hpc : l.pc ≠ .run := of_decide_eq_false hout
    cases hpc' : l.pc with
    | run => exact hpc hpc'
    | opening => cases (next_opening hpc').symm.trans hnext
    | leaving => cases (next_leaving hpc').symm.trans hnext
    | gather =>
        simp only [network, next, hpc', Procs.atId] at hnext
        split at hnext <;> cases hnext
    | closing => cases (next_closing hpc').symm.trans hnext
    | done => cases (next_done hpc').symm.trans hnext
  stays p l k hout hk := by
    rcases (onward_of_leads hk).part with hsame | ⟨hpc, _⟩
    · exact hsame
    · exact absurd hpc (of_decide_eq_false hout)

end Order

end Main
end Bank
end Bench
end Ssmp
