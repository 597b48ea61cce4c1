import Ssmp.Bench.BankMain

/-!
# Bench.BankMainRuns — the runs of `main` of `benchmarks/bank.c`

What an application has sent and received, and the order in which the applications have met, is in
`main` as it is in `bank_app` and `bank_dsl` alone (`appInv`, `meeting`), and until process 0 has left
`bank_dsl` a run of `main` is one of these functions (`bank_reachable`).  Behind `bank_dsl` process 0
takes from each application the message that it has not taken there (`taken`).
-/

namespace Ssmp
namespace Bench

open Lib Network Accounts

namespace Bank
namespace Main

section Runs

variable {run : BankRun} {M : Type} {W : MsgWords M} {report : run.Id → M → M} {buf : run.Id → M}
variable {H : Halls run.Id (Proc M run.Id)} {s t : Meetings run.Id M (Proc M run.Id)}
variable {p q c d : run.Id} {a a' : App M run.Id} {sv : Dsl M run.Id} {l k : Proc M run.Id}

/-- The state of `bank_app` and `bank_dsl`. -/
abbrev bankOf (s : Meetings run.Id M (Proc M run.Id)) : State run.Id M (Loc M run.Id) :=
  Part.project 1 inside inPart s

/-- The process has returned from `bank_app` or `bank_dsl`. -/
def Proc.Left (l : Proc M run.Id) : Prop :=
  l.pc ≠ .opening ∧ l.pc ≠ .run

theorem Fit.over (h : Fit run buf p l) (hleft : l.Left) : l.part.over = true := by
  unfold Fit at h
  cases hpc : l.pc with
  | opening => exact absurd hpc hleft.1
  | run => exact absurd hpc hleft.2
  | _ =>
      rw [hpc] at h
      exact h.1

theorem left_gather {c : Nat} : (Proc.gather run c l).Left := by
  unfold Proc.gather
  split
  · exact ⟨by simp, by simp⟩
  · exact ⟨by simp, by simp⟩

theorem Onward.left (hk : Onward W report p l k) (h : l.Left) : k.Left := by
  cases hk with
  | opening hpc => exact absurd hpc h.1
  | run hpc _ => exact absurd hpc h.2
  | leaving _ =>
      split_ifs
      · exact left_gather
      · exact ⟨by simp, by simp⟩
  | gather _ _ _ => exact left_gather
  | closing _ => exact ⟨by simp, by simp⟩

/-- What has been done there stays as it is. -/
theorem Onward.part_of_left (hk : Onward W report p l k) (h : l.Left) : k.part = l.part :=
  hk.part.resolve_right fun hrun => h.2 hrun.1

theorem onward_of_step (hst : Meetings.Step (network run W report buf) H s p t) :
    t.net.loc p = s.net.loc p ∨ Onward W report p (s.net.loc p) (t.net.loc p) := by
  rcases leads_of_step hst with hsame | hk
  · exact Or.inl hsame
  · exact Or.inr (onward_of_leads hk)

theorem left_step (hst : Meetings.Step (network run W report buf) H s q t)
    (h : (s.net.loc p).Left) : (t.net.loc p).Left := by
  by_cases hp : p = q
  · subst hp
    rcases onward_of_step hst with hsame | hk
    · rw [hsame]
      exact h
    · exact hk.left h
  · rw [(hst.waits_ne hp).2.1]
    exact h

theorem Meets.added {n : Nat} (h : Meets W report p l n k) : k.added = l.added := by
  cases h with
  | opening _ => rfl
  | run _ _ => rfl
  | leaving _ =>
      split_ifs
      · exact gather_added
      · rfl
  | closing _ => rfl

/-- Process 0 begins with the throughputs behind barrier 0. -/
theorem crosses (hk : Onward W report p l k) (hbefore : ¬ 1 < pos l) (hcrossed : 1 < pos k) :
    l.pc = .leaving ∧ k.added = l.added := by
  cases hk with
  | opening _ => exact absurd hcrossed (Nat.lt_irrefl 1)
  | run _ _ =>
      rw [pos_resume] at hcrossed
      exact absurd hcrossed (Nat.lt_irrefl 1)
  | leaving hpc =>
      refine ⟨hpc, ?_⟩
      split_ifs
      · exact gather_added
      · rfl
  | gather hpc _ _ => exact absurd (by simp [pos, hpc]) hbefore
  | closing hpc => exact absurd (by simp [pos, hpc]) hbefore

/-- Nothing is overwritten. -/
theorem safe (s : Meetings run.Id M (Proc M run.Id)) : (network run W report buf).Safe s.net := by
  intro p d m k hnext
  cases hpc : (s.net.loc p).pc with
  | run =>
      rcases map_eq_overwrite ((next_run hpc).symm.trans hnext) with ⟨k', hk', _⟩
      exact @Bank.safe run M W report buf (bankOf s) p d m k' hk'
  | opening => cases (next_opening hpc).symm.trans hnext
  | leaving => cases (next_leaving hpc).symm.trans hnext
  | gather =>
      simp only [network, next, hpc, Procs.atId] at hnext
      split at hnext <;> cases hnext
  | closing => cases (next_closing hpc).symm.trans hnext
  | done => cases (next_done hpc).symm.trans hnext

/-- Who has left has been in `bank_app` or `bank_dsl`. -/
theorem run_of_leaves (hst : Meetings.Step (network run W report buf) H s p t)
    (hnot : ¬ (s.net.loc p).Left) (hleft : (t.net.loc p).Left) :
    (s.net.loc p).pc = .run ∧ (t.net.loc p).added = (s.net.loc p).added := by
  rcases onward_of_step hst with hsame | hk
  · rw [hsame] at hleft
    exact absurd hleft hnot
  · generalize t.net.loc p = k at hk hleft
    cases hk with
    | opening _ => exact absurd rfl hleft.2
    | run hpc _ => exact ⟨hpc, rfl⟩
    | leaving hpc => exact absurd ⟨by simp [hpc], by simp [hpc]⟩ hnot
    | gather hpc _ _ => exact absurd ⟨by simp [hpc], by simp [hpc]⟩ hnot
    | closing hpc => exact absurd ⟨by simp [hpc], by simp [hpc]⟩ hnot

/-! ## Before `EXIT` -/

/-- Before its first `EXIT` process 1 was before it too. -/
theorem AppStep.early (h : AppStep run W report p a a')
    (hpc : a'.pc = .call ∨ a'.pc = .await ∨ a'.pc = .barrier ∨ a'.pc = .exit 0) :
    a.pc = .call ∨ a.pc = .await ∨ a.pc = .barrier ∨ a.pc = .exit 0 := by
  cases h with
  | asks hpc' _ => exact Or.inl hpc'
  | tells hpc' _ => exact Or.inl hpc'
  | reply _ hpc' _ => exact Or.inr (Or.inl hpc')
  | barrier hpc' => exact Or.inr (Or.inr (Or.inl hpc'))
  | exit _ =>
      simp only [App.exits] at hpc
      split at hpc <;> simp at hpc
  | barrierAgain _ => simp at hpc
  | report _ => simp at hpc

theorem beforeExit_of_step (hst : Meetings.Step (network run W report buf) H s q t)
    (hexit : BeforeExit run (bankOf t)) : BeforeExit run (bankOf s) := by
  intro p a hp hloc
  have hloc' : (s.net.loc p).part = .app a := hloc
  by_cases hpq : p = q
  · subst hpq
    rcases onward_of_step hst with hsame | hk
    · exact hexit p a hp (by rw [← hloc']; exact congrArg Proc.part hsame)
    · rcases hk.part with hsame | ⟨hpc, hleads⟩
      · exact hexit p a hp (hsame.trans hloc')
      · rw [hloc'] at hleads
        rcases app_of_leads hleads with ⟨a', ha', hstep⟩
        exact hstep.early (hexit p a' hp ha')
  · refine hexit p a hp ?_
    have hsame := (hst.waits_ne hpq).2.1
    exact (congrArg Proc.part hsame).trans hloc'

/-! ## Outside of both functions -/

/-- Process 0 takes messages there, and nothing else is done to a channel. -/
theorem chan_outside (h : (Meetings.system (network run W report buf) H).Reachable s)
    (hout : inside p (s.net.loc p) = false)
    (hst : Meetings.Step (network run W report buf) H s p t) :
    t.net.chan = s.net.chan ∧ (t.net.loc p).added = (s.net.loc p).added ∨
      p = run.first ∧ (s.net.loc p).pc = .gather ∧ ∃ c m,
      c.val = (s.net.loc p).c ∧ (s.net.chan (c, p)).place = some m ∧
      t.net.chan = (s.net.onChan (c, p) (.clear m)).chan ∧
      t.net.loc p = Proc.gather run ((s.net.loc p).c + 1)
        { s.net.loc p with added := (s.net.loc p).added ++ [(c, m)] } := by
  cases hst with
  | come _ _ _ => exact Or.inl ⟨rfl, rfl⟩
  | skip hnext _ =>
      left
      rw [goto_loc_self]
      exact ⟨rfl, (meets_of_next hnext).added⟩
  | pass hnext _ _ =>
      left
      rw [goto_loc_self]
      exact ⟨rfl, (meets_of_next hnext).added⟩
  | @move v hmove hmeet =>
      have heff := hmove.effect
      cases hpc : (s.net.loc p).pc with
      | opening => exact absurd (next_opening hpc) (hmeet _)
      | run => exact absurd hpc (of_decide_eq_false hout)
      | leaving => exact absurd (next_leaving hpc) (hmeet _)
      | closing => exact absurd (next_closing hpc) (hmeet _)
      | done =>
          simp only [network, next_done hpc] at heff
          exact heff.elim
      | gather =>
          have hfit := fit h p
          simp only [Fit, hpc] at hfit
          rcases hfit with ⟨_, hme, ⟨hc, _⟩, _⟩
          simp only [network, next_gather hpc hc] at heff
          rcases heff with ⟨m, hm, rfl⟩
          exact Or.inr ⟨Fin.ext hme, rfl, _, m, rfl, hm, rfl, goto_loc_self⟩

/-- So it makes no difference to the others. -/
theorem sameAt_outside (h : (Meetings.system (network run W report buf) H).Reachable s)
    (hout : inside q (s.net.loc q) = false)
    (hst : Meetings.Step (network run W report buf) H s q t) (hp : p ≠ run.first) :
    SameAt p (bankOf s) { bankOf s with chan := t.net.chan } := by
  by_cases hpq : p = q
  · subst hpq
    rcases chan_outside h hout hst with ⟨hsame, _⟩ | ⟨hfirst, _⟩
    · exact ⟨rfl, fun d => by rw [hsame]; rfl, fun d => by rw [hsame]; rfl⟩
    · exact absurd hfirst hp
  · have hsame := hst.sameAt hpq
    exact ⟨rfl, hsame.ins, hsame.outs⟩

section Invariants

variable (hhall : H.hall = hall run) (happs : ∀ p, H.member 1 p = run.isApp p)

include hhall happs

theorem appInv (h : (Meetings.system (network run W report buf) H).Reachable s)
    (hloc : (s.net.loc p).part = .app a) : AppInv run W (bankOf s) p a := by
  refine Part.project_invariant (part hhall happs)
    (I := fun r => ∀ p a, r.loc p = .app a → AppInv run W r p a) ?_ ?_ ?_ h p a hloc
  · exact fun r hr p a hloc => AppInv.init hr hloc
  · intro r q u hI hst p a hloc
    by_cases hp : p = q
    · subst hp
      exact AppInv.move (hI p) (Move.of_step hst) hloc
    · have hsame := Step.sameAt hst hp
      exact (hI p a (hsame.loc.symm.trans hloc)).frame hsame
  · intro s q t hs hout hst hI p a hloc
    have hinv := hI p a hloc
    exact hinv.frame (sameAt_outside hs hout hst (Procs.ne_of_isApp hinv.app Procs.isDsl_first))

theorem meeting (h : (Meetings.system (network run W report buf) H).Reachable s) :
    Meeting run (bankOf s) := by
  refine Part.project_invariant (part hhall happs) (I := Meeting run) ?_ ?_ ?_ h
  · exact fun r hr => Meeting.init hr
  · exact fun r q u hI hst => hI.move (Move.of_step hst)
  · exact fun s q t _ _ _ hI => ⟨hI.met, hI.waits, hI.passed⟩

/-- The message in the buffer of an application that has come to its end is the one sent last. -/
theorem report_last (h : (Meetings.system (network run W report buf) H).Reachable s)
    (hloc : (s.net.loc p).part = .app a) (hpc : a.pc = .done) :
    (s.net.chan (p, run.first)).ins.getLast? = some a.msg := by
  refine Part.project_invariant (part hhall happs)
    (I := fun r => ∀ p a, r.loc p = .app a → a.pc = .done →
      (r.chan (p, run.first)).ins.getLast? = some a.msg) ?_ ?_ ?_ h p a hloc hpc
  · intro r hr p a hloc hpc
    have hstart := hr.loc p
    have hover := @start_over run M buf p
    rw [hloc] at hstart
    have hstart' : Loc.app a = Bank.start run buf p := hstart
    rw [← hstart', Loc.over, hpc] at hover
    cases hover
  · intro r q u hI hst p a hloc hpc
    by_cases hp : p = q
    · subst hp
      rcases (Move.of_step hst).reported hloc hpc with ⟨a₀, hloc₀, hpc₀ | hpc₀⟩
      · exact absurd hst.effect (by simp [Bank.network, hloc₀, Bank.next, bankApp, hpc₀, Network.Effect])
      · have heff := hst.effect
        simp only [Bank.network, hloc₀, Bank.next, bankApp, hpc₀] at heff
        rcases Procs.effect_atId heff with ⟨d, hd, _, rfl⟩
        have hfirst : d = run.first := Fin.ext hd.symm
        rw [goto_loc_self, Loc.app.injEq] at hloc
        rw [← hloc, hfirst, goto_chan, ins_write, if_pos rfl, List.getLast?_concat]
    · have hsame := Step.sameAt hst hp
      rw [hsame.ins]
      exact hI p a (hsame.loc.symm.trans hloc) hpc
  · intro s q t hs hout hst hI p a hloc hpc
    have hinv : AppInv run W (bankOf s) p a := appInv hhall happs hs hloc
    have hsame := sameAt_outside hs hout hst (Procs.ne_of_isApp hinv.app Procs.isDsl_first)
    rw [hsame.ins]
    exact hI p a hloc hpc

/-- A server other than process 0 is not concerned. -/
theorem dslInv_ne (h : (Meetings.system (network run W report buf) H).Reachable s)
    (hd : d ≠ run.first) (hloc : (s.net.loc d).part = .dsl sv) : DslInv run W (bankOf s) d sv := by
  refine Part.project_invariant (part hhall happs)
    (I := fun r => ∀ d sv, d ≠ run.first → r.loc d = .dsl sv → DslInv run W r d sv)
    ?_ ?_ ?_ h d sv hd hloc
  · exact fun r hr d sv _ hloc => DslInv.init hr hloc
  · intro r q u hI hst d sv hd hloc
    by_cases hdq : d = q
    · subst hdq
      exact DslInv.move (fun sv => hI d sv hd) (Move.of_step hst) hloc
    · have hsame := Step.sameAt hst hdq
      exact (hI d sv hd (hsame.loc.symm.trans hloc)).frame hsame
  · intro s q t hs hout hst hI d sv hd hloc
    exact (hI d sv hd hloc).frame (sameAt_outside hs hout hst hd)

/-- Until process 0 has left `bank_dsl`, a run of `main` is one of `bank_app` and `bank_dsl`. -/
theorem bank_reachable (h : (Meetings.system (network run W report buf) H).Reachable s)
    (hnot : ¬ (s.net.loc run.first).Left) :
    (Bank.network run W report buf).system.Reachable (bankOf s) := by
  have hpast : ∀ s q t, (Meetings.system (network run W report buf) H).Reachable s →
      Meetings.Step (network run W report buf) H s q t → (s.net.loc run.first).Left →
      (t.net.loc run.first).Left := fun s q t _ hst hleft => left_step hst hleft
  refine Part.project_reachable (part hhall happs) hpast ?_ h hnot
  · intro s q t hs hout hst hnot
    rcases chan_outside hs hout hst with ⟨hsame, _⟩ | ⟨rfl, _, c, m, _, _, _, hloc⟩
    · exact hsame
    · rw [hloc] at hnot
      exact absurd left_gather hnot

theorem dslInv (h : (Meetings.system (network run W report buf) H).Reachable s)
    (hpc : ¬ (s.net.loc d).Left) (hloc : (s.net.loc d).part = .dsl sv) :
    DslInv run W (bankOf s) d sv := by
  by_cases hd : d = run.first
  · subst hd
    exact Bank.dslInv (bank_reachable hhall happs h hpc) hloc
  · exact dslInv_ne hhall happs h hd hloc

/-! ## Process 0 -/

/-- Process 0 does not leave `bank_dsl` before process 1 has come to its second `EXIT`. -/
theorem not_left (h : (Meetings.system (network run W report buf) H).Reachable s)
    (hexit : BeforeExit run (bankOf s)) : ¬ (s.net.loc run.first).Left := by
  induction h with
  | @init s h0 =>
      have hinit : Meetings.Init (network run W report buf) s := h0
      intro hleft
      rw [hinit.net.loc] at hleft
      exact hleft.1 rfl
  | @step s t q hs hst ih =>
      have hstep : Meetings.Step (network run W report buf) H s q t := hst
      have hbefore := ih (beforeExit_of_step hstep hexit)
      intro hleft
      -- it would have left with this step, and taken a message that is no request
      have hfirst : run.first = q := by
        by_contra hne
        rw [(hstep.waits_ne hne).2.1] at hleft
        exact hbefore hleft
      subst hfirst
      have hin : inside run.first (s.net.loc run.first) = true :=
        decide_eq_true (run_of_leaves hstep hbefore hleft).1
      have ht := TransSys.Reachable.step hs hst
      have hreach := TransSys.Reachable.step (bank_reachable hhall happs hs hbefore)
        (Part.project_step (part hhall happs) hs hin hstep)
      rcases dsl_of_isDsl ht Procs.isDsl_first with ⟨sv, hloc⟩
      have hover := (fit ht run.first).over hleft
      rw [hloc] at hover
      have hinv : DslInv run W (bankOf t) run.first sv := Bank.dslInv hreach hloc
      rcases hinv.requests with ⟨l, last, heq, _, hlast⟩
      rw [if_pos (of_decide_eq_true hover), List.map_eq_singleton_iff] at hlast
      rcases hlast with ⟨e, rfl, he⟩
      exact hexit.handled hreach hloc e (by simp [heq]) he

omit hhall happs in
theorem added_nil (h : (Meetings.system (network run W report buf) H).Reachable s)
    (hnot : ¬ (s.net.loc p).Left ∨ (s.net.loc p).pc = .leaving) : (s.net.loc p).added = [] := by
  have hfit := fit h p
  unfold Fit at hfit
  cases hpc : (s.net.loc p).pc with
  | opening =>
      rw [hpc] at hfit
      exact hfit.2
  | run =>
      rw [hpc] at hfit
      exact hfit.2
  | leaving =>
      rw [hpc] at hfit
      exact hfit.2
  | _ =>
      rcases hnot with hnot | hpc'
      · exact absurd ⟨by simp [hpc], by simp [hpc]⟩ hnot
      · cases hpc.symm.trans hpc'

/-- What process 0 has taken of an application, in `bank_dsl` and behind it. -/
theorem taken (h : (Meetings.system (network run W report buf) H).Reachable s)
    (hloc : (s.net.loc run.first).part = .dsl sv) (c : run.Id) :
    (s.net.chan (c, run.first)).outs = ofClient c (sv.handled ++ (s.net.loc run.first).added) := by
  have hearly : ∀ {s : Meetings run.Id M (Proc M run.Id)} {sv : Dsl M run.Id},
      (s.net.loc run.first).added = [] → (s.net.loc run.first).part = .dsl sv →
      (Bank.network run W report buf).system.Reachable (bankOf s) →
        (s.net.chan (c, run.first)).outs = ofClient c (sv.handled ++ (s.net.loc run.first).added) := by
    intro s sv hadded hloc hreach
    have hinv : DslInv run W (bankOf s) run.first sv := Bank.dslInv hreach hloc
    rw [hadded, List.append_nil]
    exact (hinv.log c).symm
  induction h generalizing sv with
  | @init s h0 =>
      have hinit : Meetings.Init (network run W report buf) s := h0
      have hnot : ¬ (s.net.loc run.first).Left := by
        rw [hinit.net.loc]
        exact fun hleft => hleft.1 rfl
      have hs := TransSys.Reachable.init h0
      exact hearly (added_nil hs (Or.inl hnot)) hloc (bank_reachable hhall happs hs hnot)
  | @step s t q hs hst ih =>
      have hstep : Meetings.Step (network run W report buf) H s q t := hst
      have ht := TransSys.Reachable.step hs hst
      by_cases hleft' : (t.net.loc run.first).Left
      · by_cases hq : run.first = q
        · subst hq
          by_cases hleft : (s.net.loc run.first).Left
          · have hout : inside run.first (s.net.loc run.first) = false := decide_eq_false hleft.2
            have hpart : (t.net.loc run.first).part = (s.net.loc run.first).part := by
              rcases onward_of_step hstep with hsame | hk
              · rw [hsame]
              · exact hk.part_of_left hleft
            rw [hpart] at hloc
            rcases chan_outside hs hout hstep with ⟨hsame, hadded⟩ | ⟨_, _, c', m, _, _, hchan, hgoes⟩
            · rw [hsame, hadded]
              exact ih hloc
            · rw [hchan, hgoes, gather_added, outs_clear, ih hloc]
              show _ = ofClient c (sv.handled ++ ((s.net.loc run.first).added ++ [(c', m)]))
              rw [← List.append_assoc, @ofClient_append _ _ _ _ _ [(c', m)], ofClient_singleton]
              by_cases hc : c' = c
              · rw [if_pos (by rw [hc]), if_pos hc]
              · rw [if_neg fun heq => hc (Prod.mk.inj heq).1.symm, if_neg hc]
          · have hrun := run_of_leaves hstep hleft hleft'
            refine hearly (hrun.2.trans (added_nil hs (Or.inl hleft))) hloc ?_
            exact TransSys.Reachable.step (bank_reachable hhall happs hs hleft)
              (Part.project_step (part hhall happs) hs (decide_eq_true hrun.1) hstep)
        · have hsame := hstep.sameAt hq
          rw [hsame.loc] at hloc ⊢
          rw [hsame.outs]
          exact ih hloc
      · exact hearly (added_nil ht (Or.inl hleft')) hloc (bank_reachable hhall happs ht hleft')

/-! ## The throughputs -/

/-- Process 0 has taken in `bank_dsl` the requests of application `c`, the `EXIT` of process 1, and
nothing else of it. -/
def TakenAll (run : BankRun) (W : MsgWords M) (sv : Dsl M run.Id) (c : run.Id) : Prop :=
  (ofClient c sv.handled).map (decode W) =
    (requestsTo run.first (run.ops c)).map some ++ if c.val = 1 then [none] else []

/-- How many messages that are. -/
def quota (run : BankRun) (c : run.Id) : Nat :=
  (requestsTo run.first (run.ops c)).length + if c.val = 1 then 1 else 0

omit hhall happs in
theorem length_of_map {msgs : List M} (h : msgs.map (decode W) =
    (requestsTo run.first (run.ops c)).map some ++ if c.val = 1 then [none] else []) :
    msgs.length = quota run c := by
  have hlen := congrArg List.length h
  unfold quota
  split_ifs at hlen ⊢ <;> simpa using hlen

/-- What an application has sent to process 0 when it has come to its end. -/
theorem ins_of_done (h : (Meetings.system (network run W report buf) H).Reachable s)
    (hloc : (s.net.loc c).part = .app a) (hpc : a.pc = .done) :
    ∃ reqs, (s.net.chan (c, run.first)).ins = reqs ++ [a.msg] ∧ reqs.map (decode W) =
      (requestsTo run.first (run.ops c)).map some ++ if c.val = 1 then [none] else [] := by
  have hinv : AppInv run W (bankOf s) c a := appInv hhall happs h hloc
  rcases hinv.over (by simp [hpc]) (by simp [hpc]) Procs.isDsl_first with
    ⟨reqs, reports, heq, hmap, hlen⟩
  have hins : (s.net.chan (c, run.first)).ins = reqs ++ reports := heq
  have hreported : a.reported run.first = true := by simp [App.reported, hpc, Procs.first]
  rw [hreported, Bool.toNat_true, List.length_eq_one_iff] at hlen
  rcases hlen with ⟨m, rfl⟩
  have hlast := report_last hhall happs h hloc hpc
  rw [hins, List.getLast?_concat] at hlast
  refine ⟨reqs, by rw [hins, Option.some.inj hlast], ?_⟩
  rw [hmap]
  simp [App.exited, hpc]

section Together

variable (hmember : ∀ p, H.member 0 p = true)

include hmember

end Together

end Invariants

end Runs

end Main
end Bank
end Bench
end Ssmp
