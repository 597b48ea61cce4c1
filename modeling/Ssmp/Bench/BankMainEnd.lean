import Ssmp.Bench.BankMainRuns

/-!
# Bench.BankMainEnd — how `main` of `benchmarks/bank.c` ends

Nobody waits for ever in `bank_app` and `bank_dsl`, if those servers that have left `bank_dsl` have done
so on the `EXIT` of process 1 and process 0 has left none of its requests (`over_of_not_ready`).  So
there is one reason only for which the processes can all be blocked before they have come to their end:
process 0 has left a deposit in its slot, or has taken the report of an application for a request
(`done_of_blocked`).  What a process has left to do is bounded (`ranked`).
-/

namespace Ssmp
namespace Bench

open Lib Network Accounts

namespace Bank
namespace Main

/-! ## Nobody waits for ever -/

section Waiting

variable {run : BankRun} {M : Type} {W : MsgWords M} {report : run.Id → M → M} {buf : run.Id → M}
variable {r : State run.Id M (Loc M run.Id)} {p q c d : run.Id} {a b : App M run.Id}
variable {sv : Dsl M run.Id}

/-- What holds of `bank_app` and `bank_dsl` while no report has been taken for a request and no deposit
has been left to server 0. -/
structure Sound (run : BankRun) (W : MsgWords M) (r : State run.Id M (Loc M run.Id)) : Prop where
  role : ∀ p, InRole run p (r.loc p)
  apps : ∀ p a, r.loc p = .app a → AppInv run W r p a
  calls : ∀ p a, r.loc p = .app a → a.pc = .call → a.ops ≠ []
  meeting : Meeting run r
  fifo : ∀ ij, (r.chan ij).Fifo
  servers : ∀ d sv, r.loc d = .dsl sv → sv.pc ≠ .done → DslInv run W r d sv
  exited : ∀ d sv, r.loc d = .dsl sv → sv.pc = .done → ∀ p a, p.val = 1 → r.loc p = .app a →
    a.exited run p d = true
  report : ∀ sv, r.loc run.first = .dsl sv → sv.pc = .done → ∀ p a, r.loc p = .app a →
    a.pc = .report → (r.chan (p, run.first)).place = none

theorem Sound.exists_app (h : Sound run W r) (happ : run.isApp p = true) : ∃ a, r.loc p = .app a := by
  have hrole := h.role p
  cases hloc : r.loc p with
  | app a => exact ⟨a, rfl⟩
  | dsl sv =>
      rw [hloc] at hrole
      exact absurd hrole (Procs.isApp_iff.1 happ)

theorem Sound.exists_dsl (h : Sound run W r) (hd : run.isDsl d = true) : ∃ sv, r.loc d = .dsl sv := by
  have hrole := h.role d
  cases hloc : r.loc d with
  | app a =>
      rw [hloc] at hrole
      exact absurd hd (Procs.isApp_iff.1 hrole)
  | dsl sv => exact ⟨sv, rfl⟩

/-- How many of the messages of an application ask for a reply: those that it has had, the one that it
waits for, and perhaps its report. -/
theorem asks_of_app (h : AppInv run W r p a) (hd : run.isDsl d = true) :
    ∃ n ≤ (a.reported d).toNat, (r.chan (p, d)).ins.countP (fun m => (decode W m).any Request.asks) =
      (r.chan (d, p)).outs.length + (a.waitsFor d).toNat + n := by
  rcases h.done with ⟨issued, _, hall⟩
  rcases hall d hd with ⟨⟨reqs, reports, heq, hmap, hlen⟩, hreplies⟩
  refine ⟨reports.countP fun m => (decode W m).any Request.asks, ?_, ?_⟩
  · rw [← hlen]
    exact List.countP_le_length
  · have hreqs : reqs.countP (fun m => (decode W m).any Request.asks) = (asksTo d issued).length := by
      have hcount := congrArg (List.countP fun x : Option (Request Int32) => x.any Request.asks) hmap
      rw [List.countP_map, List.countP_append, List.countP_map] at hcount
      rw [length_asksTo]
      cases hex : a.exited run p d <;> rw [hex] at hcount <;> simpa [Function.comp_def] using hcount
    rw [heq, List.countP_append, hreqs, hreplies]

/-- Not both. -/
theorem waits_or_reported (d : run.Id) : (a.waitsFor d).toNat + (a.reported d).toNat ≤ 1 := by
  by_cases hpc : a.pc = .await
  · have hreported : a.reported d = false := by simp [App.reported, hpc]
    rw [hreported]
    exact Bool.toNat_le _
  · rw [waitsFor_of_pc hpc, Bool.toNat_false, Nat.zero_add]
    exact Bool.toNat_le _

/-- The slot for a reply is empty. -/
theorem Sound.reply_ready (h : Sound run W r) (hloc : r.loc d = .dsl sv) (hpc : sv.pc = .reply) :
    (Bank.network run W report buf).Ready r d := by
  have hinv := h.servers d sv hloc (by simp [hpc])
  rcases hinv.sender hpc with ⟨c, happ, hsender⟩
  have hready : (r.chan (d, c)).place = none := by
    by_contra hplace
    rcases h.exists_app happ with ⟨a, hlocc⟩
    rcases asks_of_app (h.apps c a hlocc) hinv.dsl with ⟨n, hn, hasks⟩
    have hanswers := length_answers (W := W) sv.handled c
    have hserves : sv.serves c = [sv.msg] := if_pos ⟨hpc, hsender⟩
    rw [hinv.answers, hinv.log, hserves, List.length_append, List.length_singleton] at hanswers
    have hle : (r.chan (c, d)).outs.countP (fun m => (decode W m).any Request.asks) ≤
        (r.chan (c, d)).ins.countP fun m => (decode W m).any Request.asks :=
      (h.fifo (c, d)).outs_isPrefix.sublist.countP_le
    have hback := congrArg List.length (h.fifo (d, c))
    rcases Option.ne_none_iff_exists'.1 hplace with ⟨m, hm⟩
    rw [List.length_append, hm, Option.toList_some, List.length_singleton] at hback
    have hone := @waits_or_reported run M a d
    omega
  simp only [Network.Ready, Bank.network, hloc, Bank.next, bankDsl, hpc, hsender, Procs.atId_val]
  exact hready

/-! ### Nobody can go on -/

section Stuck

variable (h : Sound run W r)
variable (hno : ∀ p, (r.loc p).over = false → ¬ (Bank.network run W report buf).Ready r p)

include h hno

/-- A server that cannot go on waits for a message, and has none. -/
theorem waits_of_dsl (hloc : r.loc d = .dsl sv) (hpc : sv.pc ≠ .done) :
    sv.pc = .recv ∧ ∀ p, run.isApp p = true → (r.chan (p, d)).place = none := by
  have hdsl := (h.servers d sv hloc hpc).dsl
  have hnot := hno d (by rw [hloc]; exact decide_eq_false hpc)
  cases hpc' : sv.pc with
  | done => exact absurd hpc' hpc
  | reply => exact absurd (h.reply_ready hloc hpc') hnot
  | recv =>
      refine ⟨rfl, ?_⟩
      intro p happ
      by_contra hplace
      refine hnot ?_
      simp only [Network.Ready, Bank.network, hloc, Bank.next, bankDsl, hpc']
      exact ⟨p, (Procs.mem_cbuf hdsl).2 happ, hplace⟩

/-- An application that has not come to the barrier finds the servers in their loops. -/
theorem empty_of_early (hloc : r.loc p = .app a) (hearly : a.pc = .call ∨ a.pc = .await)
    (hd : run.isDsl d = true) : ∃ sv, r.loc d = .dsl sv ∧ sv.pc = .recv ∧
      ∀ q, run.isApp q = true → (r.chan (q, d)).place = none := by
  rcases h.exists_dsl hd with ⟨sv, hlocd⟩
  have hpc : sv.pc ≠ .done := by
    intro hpc
    -- process 1 would have passed the barrier
    rcases h.exists_app Procs.isApp_one with ⟨b, hlocOne⟩
    have hpassed := passed_of_exited (h.exited d sv hlocd hpc _ b rfl hlocOne)
    have hle := h.meeting.passed_le (h.apps p a hloc).app hloc hlocOne
    have hout := h.meeting.not_waits hloc (by rcases hearly with hpc | hpc <;> simp [hpc])
    rw [hout, Bool.toNat_false, Nat.add_zero] at hle
    have hzero : a.pc.passed = 0 := by rcases hearly with hpc | hpc <;> rw [hpc] <;> rfl
    omega
  rcases waits_of_dsl h hno hlocd hpc with ⟨hrecv, hempty⟩
  exact ⟨sv, hlocd, hrecv, hempty⟩

/-- An application can make its calls. -/
theorem not_call (hloc : r.loc p = .app a) : a.pc ≠ .call := by
  intro hpc
  have hinv := h.apps p a hloc
  rcases hinv.done with ⟨issued, hissued, _⟩
  have hops := hissued.at_call hpc
  cases hcalls : a.ops with
  | nil => exact h.calls p a hloc hpc hcalls
  | cons op ops =>
      have hmem : op ∈ run.ops p := by simp [hops, hcalls]
      rcases empty_of_early h hno hloc (Or.inl hpc) (run.dsl p op hmem) with ⟨_, _, _, hempty⟩
      refine hno p (by rw [hloc]; simp [Loc.over, hpc]) ?_
      simp only [Network.Ready, Bank.network, hloc, Bank.next, bankApp, hpc, hcalls]
      exact hempty p hinv.app

/-- And it gets its replies. -/
theorem not_await (hloc : r.loc p = .app a) : a.pc ≠ .await := by
  intro hpc
  have hinv := h.apps p a hloc
  rcases hinv.done with ⟨issued, hissued, _⟩
  cases hcalls : a.ops with
  | nil =>
      cases hissued with
      | call hpc' _ => exact absurd (hpc.symm.trans hpc') (by simp)
      | await _ hops _ _ => exact absurd (hcalls.symm.trans hops) (by simp)
      | ended _ hawait => exact hawait hpc
  | cons op ops =>
      rcases hissued.at_await hpc hcalls with ⟨_, l, _, hrun⟩
      have hmem : op ∈ run.ops p := by simp [hrun]
      have hd := run.dsl p op hmem
      rcases empty_of_early h hno hloc (Or.inr hpc) hd with ⟨sv, hlocd, hrecv, hempty⟩
      refine hno p (by rw [hloc]; simp [Loc.over, hpc]) ?_
      simp only [Network.Ready, Bank.network, hloc, Bank.next, bankApp, hpc, hcalls]
      -- its request has been taken, and answered
      intro hplace
      rcases asks_of_app hinv hd with ⟨n, _, hasks⟩
      have hsv := h.servers _ sv hlocd (by simp [hrecv])
      have hanswers := length_answers (W := W) sv.handled p
      have hwaits : a.waitsFor op.dsl = true := by simp [App.waitsFor, hpc, hcalls]
      rw [hsv.answers, hsv.log, serves_of_pc (by simp [hrecv]), List.append_nil,
        ← (h.fifo (p, op.dsl)).ins_eq (hempty p hinv.app), hasks, hwaits,
        (h.fifo (op.dsl, p)).ins_eq hplace, Bool.toNat_true] at hanswers
      omega

/-- Process 1 can send `EXIT`. -/
theorem not_exit (hloc : r.loc p = .app a) (i : Nat) : a.pc ≠ .exit i := by
  intro hpc
  have hinv := h.apps p a hloc
  rcases hinv.exit i hpc with ⟨hone, hi⟩
  have hlt := Procs.dslSeq_lt hi
  have hd : run.isDsl ⟨run.dslSeq i, hlt⟩ = true := Procs.isDsl_dslSeq hi
  rcases h.exists_dsl hd with ⟨sv, hlocd⟩
  have hnot : sv.pc ≠ .done := by
    intro hdone
    have hexited := h.exited _ sv hlocd hdone p a hone hloc
    rw [App.exited, hpc, Bool.and_eq_true, decide_eq_true_eq, decide_eq_true_eq] at hexited
    exact Procs.not_before hi rfl hexited.2
  refine hno p (by rw [hloc]; simp [Loc.over, hpc]) ?_
  simp only [Network.Ready, Bank.network, hloc, Bank.next, bankApp, hpc, Procs.atId, dif_pos hlt]
  exact (waits_of_dsl h hno hlocd hnot).2 p hinv.app

/-- And every application its report. -/
theorem not_report (hloc : r.loc p = .app a) : a.pc ≠ .report := by
  intro hpc
  have hinv := h.apps p a hloc
  rcases h.exists_dsl Procs.isDsl_first with ⟨sv, hlocd⟩
  have hempty : (r.chan (p, run.first)).place = none := by
    by_cases hdone : sv.pc = .done
    · exact h.report sv hlocd hdone p a hloc hpc
    · exact (waits_of_dsl h hno hlocd hdone).2 p hinv.app
  refine hno p (by rw [hloc]; simp [Loc.over, hpc]) ?_
  simp only [Network.Ready, Bank.network, hloc, Bank.next, bankApp, hpc, Procs.atId,
    dif_pos Procs.numProcs_pos]
  exact hempty

/-- At a barrier it waits for another that has come to fewer. -/
theorem waits_of_barrier (hloc : r.loc p = .app a) (hover : a.pc ≠ .done) :
    (a.pc = .barrier ∨ a.pc = .barrierAgain) ∧ r.waits p = true ∧
      ∃ q, run.isApp q = true ∧ r.met q < r.met p := by
  have hpc : a.pc = .barrier ∨ a.pc = .barrierAgain := by
    cases hpc : a.pc with
    | call => exact absurd hpc (not_call h hno hloc)
    | await => exact absurd hpc (not_await h hno hloc)
    | barrier => exact Or.inl rfl
    | exit i => exact absurd hpc (not_exit h hno hloc i)
    | barrierAgain => exact Or.inr rfl
    | report => exact absurd hpc (not_report h hno hloc)
    | done => exact absurd hpc hover
  have hnot := hno p (by rw [hloc]; exact decide_eq_false hover)
  have hmeets : ∃ k, (Bank.network run W report buf).next p (r.loc p) = .meet k := by
    simp only [Bank.network, hloc, Bank.next, bankApp]
    rcases hpc with hpc | hpc <;> rw [hpc] <;> exact ⟨_, rfl⟩
  rcases hmeets with ⟨k, hk⟩
  simp only [Network.Ready, hk] at hnot
  push Not at hnot
  exact ⟨hpc, hnot⟩

/-- So every application has come to its end. -/
theorem app_over (hloc : r.loc p = .app a) : a.pc = .done := by
  by_contra hover
  generalize hn : r.met p = n
  induction n using Nat.strong_induction_on generalizing p a with
  | _ n ih =>
      rcases waits_of_barrier h hno hloc hover with ⟨hpc, hwaits, q, happ, hlt⟩
      rcases h.exists_app happ with ⟨b, hlocq⟩
      by_cases hdone : b.pc = .done
      · have hmetp := h.meeting.met p a hloc
        have hmetq := h.meeting.met q b hlocq
        rw [hdone] at hmetq
        have htwo : AppPc.done.passed = 2 := rfl
        have hle : a.pc.passed ≤ 1 := by rcases hpc with hpc | hpc <;> rw [hpc] <;> decide
        rw [hwaits, Bool.toNat_true] at hmetp
        omega
      · exact ih (r.met q) (hn ▸ hlt) hlocq hdone rfl

/-- And every server. -/
theorem dsl_over (hloc : r.loc d = .dsl sv) : sv.pc = .done := by
  by_contra hpc
  have hinv := h.servers d sv hloc hpc
  rcases waits_of_dsl h hno hloc hpc with ⟨_, hempty⟩
  -- the `EXIT` of process 1 has been taken
  rcases h.exists_app Procs.isApp_one with ⟨a, hlocOne⟩
  have hdone := app_over h hno hlocOne
  have hone := h.apps _ a hlocOne
  rcases hone.over (by simp [hdone]) (by simp [hdone]) hinv.dsl with ⟨reqs, reports, hins, hmap, _⟩
  have hexited : a.exited run ⟨1, run.two_le_numProcs⟩ d = true := by simp [App.exited, hdone]
  rw [hexited, if_pos rfl] at hmap
  have hmem : none ∈ reqs.map (decode W) := by rw [hmap]; simp
  rcases List.mem_map.1 hmem with ⟨m, hm, hdec⟩
  have hout : m ∈ (r.chan (⟨1, run.two_le_numProcs⟩, d)).outs := by
    rw [← (h.fifo _).ins_eq (hempty _ Procs.isApp_one), hins]
    exact List.mem_append_left _ hm
  rw [← hinv.log] at hout
  rcases List.mem_map.1 hout with ⟨e, he, rfl⟩
  exact hinv.in_loop hpc e (List.mem_filter.1 he).1 hdec

theorem over_of_not_ready (p : run.Id) : (r.loc p).over = true := by
  cases hloc : r.loc p with
  | app a => exact decide_eq_true (app_over h hno hloc)
  | dsl sv => exact decide_eq_true (dsl_over h hno hloc)

end Stuck

end Waiting

/-! ## In `main` -/

section Blocked

variable {run : BankRun} {M : Type} {W : MsgWords M} {report : run.Id → M → M} {buf : run.Id → M}
variable {H : Halls run.Id (Proc M run.Id)} {s t : Meetings run.Id M (Proc M run.Id)}
variable {p q c d : run.Id} {a : App M run.Id} {sv : Dsl M run.Id} {l k : Proc M run.Id}

/-- If process 0 has left `bank_dsl`, it has taken all requests there, `EXIT`, and no report. -/
def Clean (run : BankRun) (W : MsgWords M) (l : Proc M run.Id) : Prop :=
  l.Left → ∀ sv, l.part = .dsl sv → ∀ c, run.isApp c = true → TakenAll run W sv c

theorem ops_of_loop {msg : M} {ops : List (Op run.Id)} (hpc : (App.loop run msg ops).pc = .call) :
    (App.loop run msg ops).ops ≠ [] := by
  intro hnil
  have hops : ops = [] := hnil
  simp [App.loop, hops] at hpc

theorem AppStep.calls {a a' : App M run.Id} (h : AppStep run W report p a a') (hpc : a'.pc = .call) :
    a'.ops ≠ [] := by
  cases h with
  | asks _ _ => simp at hpc
  | tells _ _ => exact ops_of_loop hpc
  | reply _ _ _ => exact ops_of_loop hpc
  | barrier _ =>
      simp only [App.passed, App.exits] at hpc
      split_ifs at hpc
  | exit _ =>
      simp only [App.exits] at hpc
      split_ifs at hpc
  | barrierAgain _ => simp at hpc
  | report _ => simp at hpc

/-- An application that is at a call has one to make. -/
theorem calls (h : (Meetings.system (network run W report buf) H).Reachable s)
    (hloc : (s.net.loc p).part = .app a) (hpc : a.pc = .call) : a.ops ≠ [] := by
  refine loc_invariant (I := fun _ (l : Proc M run.Id) => ∀ a, l.part = .app a → a.pc = .call →
    a.ops ≠ []) ?_ ?_ h p a hloc hpc
  · intro p a hloc hpc
    have hstart : Bank.start run buf p = .app a := hloc
    unfold Bank.start at hstart
    split_ifs at hstart
    rw [Loc.app.injEq] at hstart
    rw [← hstart] at hpc ⊢
    exact ops_of_loop hpc
  · intro p l k hI hk a hloc hpc
    rcases (onward_of_leads hk).part with hsame | ⟨_, hleads⟩
    · exact hI a (hsame ▸ hloc) hpc
    · rw [hloc] at hleads
      cases hpart : l.part with
      | app a₀ =>
          rw [hpart] at hleads
          rcases app_of_leads hleads with ⟨a', ha', hstep⟩
          rw [Loc.app.injEq] at ha'
          subst ha'
          exact hstep.calls hpc
      | dsl sv =>
          rw [hpart] at hleads
          rcases dsl_of_leads hleads with ⟨_, hcases⟩
          cases hcases

/-- Who has taken a message that is no request has taken `EXIT`, if it is no report. -/
theorem exited_of_none {r : State run.Id M (Loc M run.Id)} (h : AppInv run W r p a)
    (hd : run.isDsl d = true) (hreported : a.reported d = false ∨ p.val = 1) {m : M}
    (hm : m ∈ (r.chan (p, d)).ins) (hdec : decode W m = none) : a.exited run p d = true := by
  by_contra hnot
  rw [Bool.not_eq_true] at hnot
  have hreported' : a.reported d = false := by
    rcases hreported with hreported | hone
    · exact hreported
    · by_contra hrep
      simp only [App.reported, Bool.not_eq_false, Bool.and_eq_true, decide_eq_true_eq] at hrep
      simp [App.exited, hone, hrep.1] at hnot
  rcases h.done with ⟨issued, _, hall⟩
  rcases (hall d hd).1 with ⟨reqs, reports, hins, hmap, hlen⟩
  rw [hreported'] at hlen
  rw [hnot] at hmap
  have hnil : reports = [] := List.eq_nil_of_length_eq_zero hlen
  rw [hins, hnil, List.append_nil] at hm
  have hmem : decode W m ∈ reqs.map (decode W) := List.mem_map_of_mem hm
  rw [hmap, hdec] at hmem
  simp at hmem

section Invariants

variable (hhall : H.hall = hall run) (happs : ∀ p, H.member 1 p = run.isApp p)

include hhall happs

omit hhall happs in
theorem left_of_over (h : (Meetings.system (network run W report buf) H).Reachable s)
    (hover : (s.net.loc p).part.over = true) : (s.net.loc p).Left := by
  have hfit := fit h p
  unfold Fit at hfit
  refine ⟨?_, ?_⟩
  · intro hpc
    rw [hpc] at hfit
    rw [hfit.1, start_over] at hover
    cases hover
  · intro hpc
    rw [hpc] at hfit
    rw [hfit.1] at hover
    cases hover

/-- A server that has left `bank_dsl` has taken the `EXIT` of process 1. -/
theorem exited_of_done (h : (Meetings.system (network run W report buf) H).Reachable s)
    (hclean : Clean run W (s.net.loc run.first)) (hloc : (s.net.loc d).part = .dsl sv)
    (hpc : sv.pc = .done) (hone : p.val = 1) (hlocp : (s.net.loc p).part = .app a) :
    a.exited run p d = true := by
  have hinv : AppInv run W (bankOf s) p a := appInv hhall happs h hlocp
  by_cases hd : d = run.first
  · subst hd
    have hleft := left_of_over h (p := run.first) (by rw [hloc]; exact decide_eq_true hpc)
    have hall := hclean hleft sv hloc p hinv.app
    rw [TakenAll, if_pos hone] at hall
    have hmem : none ∈ (ofClient p sv.handled).map (decode W) := by rw [hall]; simp
    rcases List.mem_map.1 hmem with ⟨m, hm, hdec⟩
    have hout : m ∈ (s.net.chan (p, run.first)).outs := by
      rw [taken hhall happs h hloc p, ofClient_append]
      exact List.mem_append_left _ hm
    have hpre := (Meetings.fifo (fun s _ => safe s) h (p, run.first)).outs_isPrefix
    exact exited_of_none hinv Procs.isDsl_first (Or.inr hone) (hpre.subset hout) hdec
  · -- what it has taken last is no request
    have hserver := dslInv_ne hhall happs h hd hloc
    rcases hserver.requests with ⟨l, last, heq, _, hlast⟩
    rw [if_pos hpc, List.map_eq_singleton_iff] at hlast
    rcases hlast with ⟨e, rfl, hdec⟩
    have hmem : e ∈ sv.handled := by simp [heq]
    have happ := hserver.apps e hmem
    rcases app_of_isApp h happ with ⟨b, hlocb⟩
    have hb : AppInv run W (bankOf s) e.1 b := appInv hhall happs h hlocb
    have hout : e.2 ∈ (s.net.chan (e.1, d)).outs := by
      have hlog : ofClient e.1 sv.handled = (s.net.chan (e.1, d)).outs := hserver.log e.1
      rw [← hlog]
      exact List.mem_map.2 ⟨e, List.mem_filter.2 ⟨hmem, by simp⟩, rfl⟩
    have hpre := (Meetings.fifo (fun s _ => safe s) h (e.1, d)).outs_isPrefix
    have hzero : d.val ≠ 0 := fun hzero => hd (Fin.ext hzero)
    have hexited := exited_of_none hb hserver.dsl (Or.inl (by simp [App.reported, hzero]))
      (hpre.subset hout) hdec
    have hsame : e.1 = p := by
      simp only [App.exited, Bool.and_eq_true, decide_eq_true_eq] at hexited
      exact Fin.ext (hexited.1.trans hone.symm)
    rw [hsame] at hexited hlocb
    rw [hlocb, Loc.app.injEq] at hlocp
    exact hlocp ▸ hexited

/-- And process 0 leaves the reports a free slot. -/
theorem free_of_done (h : (Meetings.system (network run W report buf) H).Reachable s)
    (hclean : Clean run W (s.net.loc run.first)) (hloc : (s.net.loc run.first).part = .dsl sv)
    (hpc : sv.pc = .done) (hlocp : (s.net.loc p).part = .app a) (hreport : a.pc = .report) :
    (s.net.chan (p, run.first)).place = none := by
  have hinv : AppInv run W (bankOf s) p a := appInv hhall happs h hlocp
  have hleft := left_of_over h (p := run.first) (by rw [hloc]; exact decide_eq_true hpc)
  have hlen := length_of_map (hclean hleft sv hloc p hinv.app)
  rcases hinv.over (by simp [hreport]) (by simp [hreport]) Procs.isDsl_first with
    ⟨reqs, reports, hins, hmap, hreports⟩
  -- behind the barrier it has made all its calls, and it has sent nothing else but `EXIT`
  have hreported : a.reported run.first = false := by simp [App.reported, hreport]
  rw [hreported] at hreports
  have hnil : reports = [] := List.eq_nil_of_length_eq_zero hreports
  rw [hnil, List.append_nil] at hins
  have hexited : a.exited run p run.first = decide (p.val = 1) := by simp [App.exited, hreport]
  rw [hexited] at hmap
  have hsent : reqs.length = quota run p := by
    refine length_of_map (hmap.trans ?_)
    simp
  -- what has been taken is not less than what has been sent
  have hfifo := congrArg List.length (Meetings.fifo (fun s _ => safe s) h (p, run.first))
  have hins' : (s.net.chan (p, run.first)).ins = reqs := hins
  rw [hins', List.length_append, taken hhall happs h hloc p, ofClient_append, List.length_append,
    hsent, hlen] at hfifo
  cases hplace : (s.net.chan (p, run.first)).place with
  | none => rfl
  | some m =>
      rw [hplace, Option.toList_some, List.length_singleton] at hfifo
      omega

theorem sound (h : (Meetings.system (network run W report buf) H).Reachable s)
    (hclean : Clean run W (s.net.loc run.first)) : Sound run W (bankOf s) where
  role := inRole h
  apps _ _ hloc := appInv hhall happs h hloc
  calls _ _ hloc hpc := calls h hloc hpc
  meeting := meeting hhall happs h
  fifo := Meetings.fifo (fun s _ => safe s) h
  servers d sv hloc hpc := by
    refine dslInv hhall happs h ?_ hloc
    intro hleft
    have hover := (fit h d).over hleft
    rw [show (s.net.loc d).part = .dsl sv from hloc] at hover
    exact hpc (of_decide_eq_true hover)
  exited _ _ hloc hpc _ _ hone hlocp := exited_of_done hhall happs h hclean hloc hpc hone hlocp
  report _ hloc hpc _ _ hlocp hreport := free_of_done hhall happs h hclean hloc hpc hlocp hreport

/-! ### All are blocked -/

section Quiet

variable (h : (Meetings.system (network run W report buf) H).Reachable s)
variable (hblocked : ∀ p, Meetings.Blocked (network run W report buf) H s p)

include h hblocked

omit happs in
/-- Everybody has passed the first barrier. -/
theorem not_opening (p : run.Id) : (s.net.loc p).pc ≠ .opening := by
  intro hpc
  have hmem : s.hallOf H p ∈ ([4, 0, 3] : List Nat) := by
    rw [Meetings.hallOf, hhall, hall, hpc]
    decide
  rcases (visits hhall).exists_behind h hblocked (next_opening hpc) hmem with ⟨q, hnot, hleast⟩
  have hle := hleast p _ (next_opening hpc) hmem
  -- so it has passed none, and stands at the first itself
  have hzero : pos (s.net.loc p) = 0 := by simp [pos, hpc]
  rw [hzero] at hle
  cases hpcq : (s.net.loc q).pc with
  | opening =>
      refine hnot _ (next_opening hpcq) ?_
      rw [Meetings.hallOf, hhall, hall, hpcq]
      decide
  | _ =>
      rw [pos, hpcq] at hle
      exact absurd hle (by decide)

theorem over_of_blocked (hclean : Clean run W (s.net.loc run.first)) (p : run.Id) :
    (s.net.loc p).part.over = true := by
  refine @over_of_not_ready run M W report buf _ (sound hhall happs h hclean) ?_ p
  intro q hnot hready
  have hin : (s.net.loc q).pc = .run := by
    by_contra hrun
    have hover := (fit h q).over ⟨not_opening hhall h hblocked q, hrun⟩
    exact absurd (hnot.symm.trans hover) (by decide)
  exact Part.follows_project.not_blocked (part hhall happs) h rfl (decide_eq_true hin) hready
    (hblocked q)

/-- Process 0 has not come to wait for a report that it has taken before. -/
theorem not_gather (hclean : Clean run W (s.net.loc run.first)) : (s.net.loc p).pc ≠ .gather := by
  intro hpc
  have hfit := fit h p
  simp only [Fit, hpc] at hfit
  rcases hfit with ⟨_, hme, ⟨hc, happ⟩, hadded⟩
  have hfirst : p = run.first := Fin.ext hme
  subst hfirst
  generalize hsrc : (⟨(s.net.loc run.first).c, hc⟩ : run.Id) = c at happ
  have hplace : (s.net.chan (c, run.first)).place = none := by
    have hwait := hblocked run.first
    unfold Meetings.Blocked at hwait
    simp only [network, next_gather hpc hc] at hwait
    rwa [hsrc] at hwait
  -- all that the application has sent has been taken
  rcases app_of_isApp h happ with ⟨a, hlocc⟩
  have hover := over_of_blocked hhall happs h hblocked hclean c
  rw [hlocc] at hover
  rcases ins_of_done hhall happs h hlocc (of_decide_eq_true hover) with ⟨reqs, hins, hmap⟩
  rcases dsl_of_isDsl h Procs.isDsl_first with ⟨sv, hlocd⟩
  have hall := hclean ⟨by simp [hpc], by simp [hpc]⟩ sv hlocd c happ
  have hnone : ofClient c (s.net.loc run.first).added = [] := by
    rw [ofClient, List.map_eq_nil_iff, List.filter_eq_nil_iff]
    intro e he hec
    have hmem : e.1 ∈ (s.net.loc run.first).added.map Prod.fst := List.mem_map_of_mem he
    rw [hadded, of_decide_eq_true hec] at hmem
    have hlt := (Procs.mem_appsBelow.1 hmem).1
    rw [← hsrc] at hlt
    exact Nat.lt_irrefl _ hlt
  have hfifo := Meetings.fifo (fun s _ => safe s) h (c, run.first)
  have hlen := congrArg List.length (hins.symm.trans (hfifo.ins_eq hplace))
  rw [taken hhall happs h hlocd c, ofClient_append, hnone, List.append_nil, List.length_append,
    List.length_singleton, length_of_map hmap, length_of_map hall] at hlen
  exact Nat.succ_ne_self _ hlen

theorem done_of_blocked (hclean : Clean run W (s.net.loc run.first)) (p : run.Id) :
    (s.net.loc p).pc = .done := by
  have hplaces : ∀ p, (s.net.loc p).pc = .leaving ∨ (s.net.loc p).pc = .closing ∨
      (s.net.loc p).pc = .done := by
    intro p
    have hleft := left_of_over h (over_of_blocked hhall happs h hblocked hclean p)
    have hgather := not_gather hhall happs h hblocked (p := p) hclean
    cases hpc : (s.net.loc p).pc with
    | opening => exact absurd hpc hleft.1
    | run => exact absurd hpc hleft.2
    | gather => exact absurd hpc hgather
    | leaving => simp
    | closing => simp
    | done => simp
  -- nobody waits at a barrier, as nobody is before it
  have hnobody : ∀ k, (network run W report buf).next p (s.net.loc p) = .meet k →
      s.hallOf H p ∉ ([4, 0, 3] : List Nat) := by
    intro k hk hmem
    rcases (visits hhall).exists_behind h hblocked hk hmem with ⟨q, hnot, hleast⟩
    have hle := hleast p k hk hmem
    rcases hplaces q with hpc | hpc | hpc
    · exact hnot _ (next_leaving hpc) (by rw [Meetings.hallOf, hhall, hall, hpc]; decide)
    · exact hnot _ (next_closing hpc) (by rw [Meetings.hallOf, hhall, hall, hpc]; decide)
    · have hthree : pos (s.net.loc q) = 3 := by simp [pos, hpc]
      rw [hthree] at hle
      rcases hplaces p with hpc | hpc | hpc
      · simp [pos, hpc] at hle
      · simp [pos, hpc] at hle
      · cases (next_done hpc).symm.trans hk
  rcases hplaces p with hpc | hpc | hpc
  · exact absurd (by rw [Meetings.hallOf, hhall, hall, hpc]; decide) (hnobody _ (next_leaving hpc))
  · exact absurd (by rw [Meetings.hallOf, hhall, hall, hpc]; decide) (hnobody _ (next_closing hpc))
  · exact hpc

end Quiet

end Invariants

end Blocked

/-! ## What is left to do -/

section Left

variable (run : BankRun) {M : Type}

/-- An application sends a server at most its requests, `EXIT` and its report. -/
def capacity (c : run.Id) : Nat :=
  (run.ops c).length + 2

/-- How many messages of the applications process `p` can still take. -/
def remaining (p : run.Id) (chan : run.Id × run.Id → OnePlace M) : Nat :=
  Meetings.remaining (Finset.univ.filter fun c => run.isApp c = true) (capacity run) p chan

/-- What a process has left to do in `bank_app` or `bank_dsl`, if it can take `rem` messages. -/
def partLeft (rem : Nat) : Loc M run.Id → Nat
  | .app a =>
      match a.pc with
      | .call => 2 * a.ops.length + (run.numDsl + 3)
      | .await => 2 * a.ops.length + (run.numDsl + 2)
      | .barrier => run.numDsl + 3
      | .exit i => run.numDsl - i + 2
      | .barrierAgain => 2
      | .report => 1
      | .done => 0
  | .dsl sv =>
      match sv.pc with
      | .recv => 2 * rem
      | .reply => 2 * rem + 1
      | .done => 0

/-- At most what a process has left to do. -/
def left (rem : Nat) (l : Proc M run.Id) : Nat :=
  match l.pc with
  | .opening => run.numProcs + 3 + partLeft run (∑ c with run.isApp c = true, capacity run c) l.part
  | .run => run.numProcs + 2 + partLeft run rem l.part
  | .leaving => run.numProcs + 2
  | .gather => run.numProcs - l.c + 1
  | .closing => 1
  | .done => 0

def rank (p : run.Id) (v : State run.Id M (Proc M run.Id)) : Nat :=
  left run (remaining run p v.chan) (v.loc p)

end Left

section Ranks

variable {run : BankRun} {M : Type} {W : MsgWords M} {report : run.Id → M → M} {buf : run.Id → M}
variable {H : Halls run.Id (Proc M run.Id)} {s : Meetings run.Id M (Proc M run.Id)}
variable {r u : State run.Id M (Loc M run.Id)} {p c d : run.Id} {a a' : App M run.Id}
variable {l k : Proc M run.Id} {rem rem' n : Nat}

theorem partLeft_mono (h : rem ≤ rem') (l : Loc M run.Id) :
    partLeft run rem l ≤ partLeft run rem' l := by
  cases l with
  | app a => exact Nat.le_refl _
  | dsl sv => cases hpc : sv.pc <;> simp only [partLeft, hpc] <;> omega

/-! ### In `bank_app` -/

theorem partLeft_loop {msg : M} {ops : List (Op run.Id)} :
    partLeft run rem (.app (App.loop run msg ops)) ≤ 2 * ops.length + (run.numDsl + 3) := by
  cases ops with
  | nil => simp [partLeft, App.loop]
  | cons op ops => simp [partLeft, App.loop]

theorem partLeft_exits (i : Nat) :
    partLeft run rem (.app (App.exits run a i)) ≤ run.numDsl - i + 2 := by
  by_cases hi : i < run.numDsl
  · simp [partLeft, App.exits, hi]
  · simp [partLeft, App.exits, hi]

/-- Every call and every barrier leaves an application less to do. -/
theorem AppStep.left_lt (h : AppStep run W report p a a')
    (hexit : ∀ i, a.pc = .exit i → i < run.numDsl) :
    partLeft run rem (.app a') < partLeft run rem' (.app a) := by
  cases h with
  | asks hpc _ => simp [partLeft, hpc]
  | tells hpc hops =>
      refine Nat.lt_of_le_of_lt partLeft_loop ?_
      simp [partLeft, hpc, hops]
  | reply _ hpc hops =>
      refine Nat.lt_of_le_of_lt partLeft_loop ?_
      simp only [partLeft, hpc, hops, List.length_cons]
      omega
  | barrier hpc =>
      unfold App.passed
      split_ifs
      · refine Nat.lt_of_le_of_lt (partLeft_exits 0) ?_
        simp [partLeft, hpc]
      · simp only [partLeft, hpc]
        omega
  | @exit i hpc =>
      have hi := hexit i hpc
      refine Nat.lt_of_le_of_lt (partLeft_exits (i + 1)) ?_
      simp only [partLeft, hpc]
      omega
  | barrierAgain hpc => simp [partLeft, hpc]
  | report hpc => simp [partLeft, hpc]

/-- An application waits for one process at a time. -/
theorem app_not_scan {srcs : List run.Id} {f : run.Id → M → Loc M run.Id} :
    bankApp run W report p a ≠ .scan srcs f := by
  intro h
  cases hpc : a.pc with
  | call => cases hops : a.ops <;> simp [bankApp, hpc, hops] at h
  | await => cases hops : a.ops <;> simp [bankApp, hpc, hops] at h
  | barrier => simp [bankApp, hpc] at h
  | exit i =>
      simp only [bankApp, hpc, Procs.atId] at h
      split at h <;> cases h
  | barrierAgain => simp [bankApp, hpc] at h
  | report =>
      simp only [bankApp, hpc, Procs.atId] at h
      split at h <;> cases h
  | done => simp [bankApp, hpc] at h

/-! ### In `bank_dsl` -/

theorem issued_length_le {ops : List (Op run.Id)} (h : a.Issued run p ops) :
    ops.length ≤ (run.ops p).length := by
  cases h with
  | call _ hops => simp [hops]
  | await _ _ _ hops => simp [hops]
  | ended _ _ => exact Nat.le_refl _

/-- A message that is there can still be taken. -/
theorem length_lt (h : AppInv run W r c a) (hd : run.isDsl d = true)
    (hfifo : (r.chan (c, d)).Fifo) {m : M} (hm : (r.chan (c, d)).place = some m) :
    (r.chan (c, d)).outs.length < capacity run c := by
  rcases h.done with ⟨issued, hissued, hall⟩
  rcases (hall d hd).1 with ⟨reqs, reports, hins, hmap, hreports⟩
  have hreqs := congrArg List.length hmap
  have hexit :
      (if a.exited run c d = true then [(none : Option (Request Int32))] else []).length ≤ 1 := by
    split_ifs <;> simp
  have hrequests : (requestsTo d issued).length ≤ issued.length := by
    rw [requestsTo, List.length_map]
    exact List.length_filter_le _ _
  have hbool := Bool.toNat_le (a.reported d)
  have hlen := congrArg List.length (hins.symm.trans hfifo)
  rw [hm, Option.toList_some, List.length_append, List.length_append, List.length_singleton] at hlen
  rw [List.length_map, List.length_append, List.length_map] at hreqs
  have hle := issued_length_le hissued
  unfold capacity
  omega

/-- A step there that is not a turn of a scan in vain leaves less to do. -/
theorem partLeft_lt (hst : (Bank.network run W report buf).Step r p u)
    (hacts : Meetings.Acts (Bank.network run W report buf) r p u)
    (hrole : InRole run p (r.loc p)) (happs : ∀ c, run.isApp c = true → ∃ a, AppInv run W r c a)
    (hfifo : ∀ ij, (r.chan ij).Fifo) (hexit : ∀ a i, r.loc p = .app a → a.pc = .exit i → i < run.numDsl)
    (hmeet : ∀ k, (Bank.network run W report buf).next p (r.loc p) ≠ .meet k) :
    partLeft run (remaining run p u.chan) (u.loc p) <
      partLeft run (remaining run p r.chan) (r.loc p) := by
  cases hloc : r.loc p with
  | app a =>
      rcases Meetings.goes_of_step hst hmeet with ⟨k, hk, hu⟩ | ⟨_, _, srcs, k, hscan⟩
      · have hleads := leads_of_goes hk
        simp only [Bank.network, hloc, Bank.next] at hleads
        rcases app_of_leads hleads with ⟨a', rfl, hstep⟩
        rw [hu]
        exact hstep.left_lt fun i hpc => hexit a i hloc hpc
      · simp only [Bank.network, hloc, Bank.next] at hscan
        exact absurd hscan app_not_scan
  | dsl sv =>
      have hdsl : run.isDsl p = true := by
        rw [hloc] at hrole
        exact hrole
      have heff := hst.effect
      cases hpc : sv.pc with
      | recv =>
          simp only [Bank.network, hloc, Bank.next, bankDsl, hpc] at heff
          rcases heff with ⟨k, rfl⟩ | ⟨src, hsrc, m, k, hm, rfl⟩
          · exfalso
            rcases hacts with hchan | hscan
            · exact hchan rfl
            · refine hscan (run.cbuf p) (fun src msg => .dsl (sv.took run W src msg)) ?_
              simp only [Bank.network, hloc, Bank.next, bankDsl, hpc]
          · have happ := (Procs.mem_cbuf hdsl).1 hsrc
            rcases happs src happ with ⟨a, ha⟩
            have hless : remaining run p (r.onChan (src, p) (.clear m)).chan < remaining run p r.chan :=
              Meetings.remaining_clear (Finset.mem_filter.2 ⟨Finset.mem_univ src, happ⟩)
                (length_lt ha hdsl (hfifo _) hm)
            rw [goto_loc_self, goto_chan, seek_chan]
            unfold Dsl.took
            simp only
            split <;> simp only [partLeft, hpc] <;> omega
      | reply =>
          simp only [Bank.network, hloc, Bank.next, bankDsl, hpc] at heff
          rcases Procs.effect_atId heff with ⟨c, _, _, rfl⟩
          have hsame : remaining run p ((r.onChan (p, c) (.write sv.msg)).goto p
              (.dsl { sv with pc := .recv })).chan = remaining run p r.chan :=
            Meetings.remaining_congr fun _ => by rw [goto_chan, outs_write]
          rw [hsame, goto_loc_self]
          simp [partLeft, hpc]
      | done =>
          simp only [Bank.network, hloc, Bank.next, bankDsl, hpc] at heff
          exact heff.elim

/-! ### In `main` -/

theorem left_gather_le {i : Nat} (hi : i ≤ run.numProcs) :
    left run rem (Proc.gather run i l) ≤ run.numProcs - i + 1 := by
  unfold Proc.gather
  cases hfind : (List.range run.numProcs).find? fun j => i ≤ j && colorApp1 run.dslPerCore j with
  | none => simp [left]
  | some j =>
      rw [List.find?_range_eq_some] at hfind
      rcases hfind with ⟨htest, _, _⟩
      rw [Bool.and_eq_true, decide_eq_true_eq] at htest
      simp only [left]
      omega

theorem left_resume (h : partLeft run rem l.part < n) :
    left run rem (Proc.resume run l) < run.numProcs + 2 + n := by
  unfold Proc.resume
  cases l.part.over with
  | true =>
      simp only [left, if_true]
      omega
  | false =>
      simp only [left, Bool.false_eq_true, if_false]
      omega

section Programs

variable (hhall : H.hall = hall run) (happs : ∀ p, H.member 1 p = run.isApp p)

include hhall happs

/-- In `bank_app` and `bank_dsl` a process goes on. -/
theorem left_run (h : (Meetings.system (network run W report buf) H).Reachable s)
    (hpc : (s.net.loc p).pc = .run) {v : State run.Id M (Proc M run.Id)}
    (hmove : (network run W report buf).Step s.net p v)
    (hacts : Meetings.Acts (network run W report buf) s.net p v)
    (hmeet : ∀ k, (network run W report buf).next p (s.net.loc p) ≠ .meet k) :
    partLeft run (remaining run p v.chan) (v.loc p).part <
      partLeft run (remaining run p s.net.chan) (s.net.loc p).part := by
  have hstep := @Meetings.Step.move _ _ _ _ _ H _ _ _ hmove hmeet
  have hst := Part.project_step (part hhall happs) h (decide_eq_true hpc) hstep
  have hnext : (network run W report buf).next p (s.net.loc p) =
      (Bank.next run W report p (s.net.loc p).part).map fun k =>
        Proc.resume run { s.net.loc p with part := k } := next_run hpc
  refine partLeft_lt hst ?_ (inRole h p) ?_ (Meetings.fifo (fun s _ => safe s) h) ?_ ?_
  · rcases hacts with hchan | hscan
    · exact Or.inl hchan
    · right
      intro srcs k hk
      have hk' : Bank.next run W report p (s.net.loc p).part = .scan srcs k := hk
      rw [hk'] at hnext
      exact hscan _ _ hnext
  · intro c happ
    rcases app_of_isApp h happ with ⟨a, hloc⟩
    exact ⟨a, appInv hhall happs h hloc⟩
  · exact fun a i hloc hexit => ((appInv hhall happs h hloc).exit i hexit).2
  · intro k hk
    have hk' : Bank.next run W report p (s.net.loc p).part = .meet k := hk
    rw [hk'] at hnext
    exact hmeet _ hnext

theorem ranked : Meetings.Ranked (network run W report buf) H (rank run) where
  same p v u h := by
    unfold rank
    rw [h.loc, remaining, Meetings.remaining_congr h.outs]
    rfl
  moves s p v hs hmove hacts hmeet := by
    have heff := hmove.effect
    unfold rank
    cases hpc : (s.net.loc p).pc with
    | opening => exact absurd (next_opening hpc) (hmeet _)
    | leaving => exact absurd (next_leaving hpc) (hmeet _)
    | closing => exact absurd (next_closing hpc) (hmeet _)
    | done =>
        simp only [network, next_done hpc] at heff
        exact heff.elim
    | gather =>
        -- `c` goes on to the next application
        have hfit := fit hs p
        simp only [Fit, hpc] at hfit
        rcases hfit with ⟨_, _, ⟨hc, _⟩, _⟩
        simp only [network, next_gather hpc hc] at heff
        rcases heff with ⟨m, _, rfl⟩
        rw [goto_loc_self]
        refine Nat.lt_of_le_of_lt (left_gather_le (Nat.succ_le_of_lt hc)) ?_
        simp only [left, hpc]
        omega
    | run =>
        have hless := left_run hhall happs hs hpc hmove hacts hmeet
        have hleft : left run (remaining run p s.net.chan) (s.net.loc p) = run.numProcs + 2 +
            partLeft run (remaining run p s.net.chan) (s.net.loc p).part := by
          simp [left, hpc]
        rw [hleft]
        have hstep := @Meetings.Step.move _ _ _ _ _ H _ _ _ hmove hmeet
        rcases onward_of_step hstep with hsame | hk
        · -- it has only taken a turn of its scan
          have hsame' : v.loc p = s.net.loc p := hsame
          rw [hsame'] at hless ⊢
          simp only [left, hpc]
          omega
        · have hk' : Onward W report p (s.net.loc p) (v.loc p) := hk
          rcases hk'.of_run hpc with ⟨k, _, hresume⟩
          rw [hresume] at hless ⊢
          exact left_resume hless
  meets s p k hs hnext := by
    unfold rank
    rw [goto_chan, goto_loc_self]
    have hmeets := meets_of_next hnext
    generalize hall run p (s.net.loc p) = i at hmeets
    cases hmeets with
    | opening hpc =>
        have hcap : remaining run p s.net.chan ≤ ∑ c with run.isApp c = true, capacity run c :=
          Meetings.remaining_le
        have hle := partLeft_mono hcap (s.net.loc p).part
        simp only [left, hpc]
        omega
    | @run k hpc hk =>
        -- barrier 1, where only applications meet
        have hleads : (Bank.next run W report p (s.net.loc p).part).Leads k := by
          rw [hk]
          rfl
        simp only [left, hpc]
        refine left_resume ?_
        cases hloc : (s.net.loc p).part with
        | dsl sv =>
            rw [hloc] at hk
            exact absurd hk dsl_not_meet
        | app a =>
            rw [hloc] at hleads
            rcases app_of_leads hleads with ⟨a', rfl, hstep⟩
            exact hstep.left_lt fun i hexit => ((appInv hhall happs hs hloc).exit i hexit).2
    | leaving hpc =>
        have hleft : left run (remaining run p s.net.chan) (s.net.loc p) = run.numProcs + 2 := by
          simp [left, hpc]
        rw [hleft]
        split_ifs
        · have hle := @left_gather_le run M (s.net.loc p) (remaining run p s.net.chan) 0 (Nat.zero_le _)
          omega
        · simp only [left]
          omega
    | closing hpc => simp [left, hpc]

end Programs

end Ranks

end Main
end Bank
end Bench
end Ssmp
