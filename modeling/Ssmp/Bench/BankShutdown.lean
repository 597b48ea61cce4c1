import Ssmp.Bench.BankLedger

/-!
# Bench.BankShutdown — how the servers of `benchmarks/bank.c` end

A deposit is not answered, so an application can pass the barrier while its last deposit is still in
the slot, and the scan of a server can come to the `EXIT` of process 1 first: the deposit is then lost
(`shutdown_lost`).  Nor does the second barrier wait for server 0, which can find a report before it
finds `EXIT`.  In the runs in which neither happens a server leaves its loop with `EXIT`, after it has
handled every request once (`shutdown`).
-/

namespace Ssmp
namespace Bench

open Lib Network Accounts

namespace Bank

section Shutdown

variable {run : BankRun} {M : Type} {W : MsgWords M} {report : run.Id → M → M}
variable {buf : run.Id → M} {s t : State run.Id M (Loc M run.Id)} {p q r d : run.Id}
variable {a a' : App M run.Id} {sv : Dsl M run.Id} {l : List (Op run.Id)}

/-! ## What has been taken -/

/-- What has been taken are the messages before the last ones, if it is as many. -/
theorem place_of_outs {reqs reports : List M} (hfifo : (s.chan (p, d)).Fifo)
    (hins : (s.chan (p, d)).ins = reqs ++ reports)
    (hlen : (s.chan (p, d)).outs.length = reqs.length) :
    (s.chan (p, d)).outs = reqs ∧ (s.chan (p, d)).place.toList = reports := by
  have hsplit : (s.chan (p, d)).outs ++ (s.chan (p, d)).place.toList = reqs ++ reports :=
    Eq.trans hfifo.symm hins
  exact List.append_inj hsplit hlen

/-- Two lists agree up to the first `none`. -/
theorem eq_of_first_none {α : Type} {xs ys us vs : List (Option α)}
    (h : xs ++ none :: us = ys ++ none :: vs) (hx : none ∉ xs) (hy : none ∉ ys) : xs = ys := by
  induction xs generalizing ys with
  | nil =>
      cases ys with
      | nil => rfl
      | cons y ys =>
          rw [List.nil_append, List.cons_append, List.cons.injEq] at h
          exact absurd (h.1 ▸ List.mem_cons_self) hy
  | cons x xs ih =>
      cases ys with
      | nil =>
          rw [List.nil_append, List.cons_append, List.cons.injEq] at h
          exact absurd (h.1 ▸ List.mem_cons_self) hx
      | cons y ys =>
          rw [List.cons_append, List.cons_append, List.cons.injEq] at h
          rw [h.1, ih h.2 (fun hmem => hx (List.mem_cons_of_mem _ hmem))
            fun hmem => hy (List.mem_cons_of_mem _ hmem)]

/-- Behind its calls an application has issued all of them. -/
theorem AppInv.over (h : AppInv run W s p a) (hcall : a.pc ≠ .call) (hawait : a.pc ≠ .await)
    (hd : run.isDsl d = true) :
    Sent W d (run.ops p) (a.exited run p d) (a.reported d) (s.chan (p, d)).ins := by
  rcases h.done with ⟨issued, hissued, hall⟩
  rw [← hissued.at_over hcall hawait]
  exact (hall d hd).1

/-- An application that has not reported has sent its requests, and process 1 perhaps `EXIT`. -/
theorem AppInv.requests (h : AppInv run W s p a) (hp : p.val ≠ 1) (hreported : a.reported d = false)
    (hd : run.isDsl d = true) : ∀ m ∈ (s.chan (p, d)).ins, decode W m ≠ none := by
  rcases h.done with ⟨issued, _, hall⟩
  rcases (hall d hd).1 with ⟨reqs, reports, heq, hmap, hlen⟩
  have hexited : a.exited run p d = false := by simp [App.exited, hp]
  rw [hreported] at hlen
  have hnil : reports = [] := List.eq_nil_of_length_eq_zero hlen
  subst hnil
  intro m hm
  rw [heq, List.append_nil] at hm
  have hmem : decode W m ∈ reqs.map (decode W) := List.mem_map_of_mem hm
  rw [hmap, hexited] at hmem
  simp only [Bool.false_eq_true, if_false, List.append_nil] at hmem
  rcases List.mem_map.1 hmem with ⟨r, _, hr⟩
  simp [← hr]

theorem passed_of_exited (h : a.exited run q d = true) : 1 ≤ a.pc.passed := by
  unfold App.exited at h
  cases hpc : a.pc <;> simp [hpc, AppPc.passed] at h ⊢

/-- When an application has passed the barrier, every application has made all its calls. -/
theorem over_of_passed (h : (network run W report buf).system.Reachable s)
    (hlocq : s.loc q = .app a') (hpassed : 1 ≤ a'.pc.passed) (hp : run.isApp p = true)
    (hlocp : s.loc p = .app a) : a.pc ≠ .call ∧ a.pc ≠ .await := by
  have hle := (meeting h).passed_le hp hlocp hlocq
  refine ⟨?_, ?_⟩
  · intro hpc
    rw [(meeting h).not_waits hlocp (by simp [hpc]), hpc] at hle
    exact absurd (Nat.le_trans hpassed hle) (by decide)
  · intro hpc
    rw [(meeting h).not_waits hlocp (by simp [hpc]), hpc] at hle
    exact absurd (Nat.le_trans hpassed hle) (by decide)

/-- Between its calls and its report an application other than process 1 has sent its requests. -/
theorem AppInv.all_requests (h : AppInv run W s p a) (hover : a.pc ≠ .call ∧ a.pc ≠ .await)
    (hp : p.val ≠ 1) (hreported : a.reported d = false) (hd : run.isDsl d = true) :
    (s.chan (p, d)).ins.map (decode W) = (requestsTo d (run.ops p)).map some := by
  rcases h.over hover.1 hover.2 hd with ⟨reqs, reports, heq, hmap, hlen⟩
  have hexited : a.exited run p d = false := by simp [App.exited, hp]
  rw [hreported] at hlen
  have hnil : reports = [] := List.eq_nil_of_length_eq_zero hlen
  rw [heq, hnil, List.append_nil, hmap, hexited]
  simp

/-! ## The condition -/

/-- Process 1 sends `EXIT` to server `d` when no other application has a message in its slot there,
and, if `d` is process 0, no other application reports before `d` has left its loop. -/
structure Settled (run : BankRun) (d : run.Id) (s : State run.Id M (Loc M run.Id)) (p : run.Id) :
    Prop where
  exit : ∀ a i, s.loc p = .app a → a.pc = .exit i → run.dslSeq i = d.val →
    ∀ q, run.isApp q = true → q ≠ p → (s.chan (q, d)).place = none
  report : ∀ a sv, s.loc p = .app a → a.pc = .report → p.val ≠ 1 → d.val = 0 → s.loc d = .dsl sv →
    sv.pc = .done

/-- What the condition ensures: who has reported to `d` has done so after `d` has left its loop, so
that it takes requests and the `EXIT` of process 1 only; and it has taken all requests of the others
when `EXIT` is sent. -/
structure Calm (run : BankRun) (W : MsgWords M) (d : run.Id) (s : State run.Id M (Loc M run.Id)) :
    Prop where
  report : ∀ p a sv, s.loc p = .app a → a.pc = .done → p.val ≠ 1 → d.val = 0 → s.loc d = .dsl sv →
    sv.pc = .done
  requests : ∀ p, run.isApp p = true → p.val ≠ 1 → ∀ m ∈ (s.chan (p, d)).outs, decode W m ≠ none
  exit : ∀ q a, s.loc q = .app a → a.exited run q d = true →
    ∀ p, run.isApp p = true → p.val ≠ 1 →
      (s.chan (p, d)).outs.map (decode W) = (requestsTo d (run.ops p)).map some

/-! ## Its consequences -/

theorem Move.outs (h : Move run W report s d t) (hloc : s.loc d = .dsl sv) (p : run.Id) :
    (t.chan (p, d)).outs = (s.chan (p, d)).outs ∨
      sv.pc = .recv ∧ ∃ m, (t.chan (p, d)).outs = (s.chan (p, d)).outs ++ [m] := by
  cases h with
  | seek k hloc' hpc => exact Or.inl rfl
  | @hit sv' src m k hloc' hpc hsrc =>
      rw [hloc, Loc.dsl.injEq] at hloc'
      subst hloc'
      rw [goto_chan, seek_chan, outs_clear]
      by_cases hp : (p, d) = (src, d)
      · exact Or.inr ⟨hpc, m, by rw [if_pos hp]⟩
      · exact Or.inl (by rw [if_neg hp, List.append_nil])
  | answer hloc' hpc hc => exact Or.inl (by rw [goto_chan, outs_write])
  | call hloc' hpc hops =>
      rw [hloc] at hloc'
      cases hloc'
  | await hloc' hpc hops =>
      rw [hloc] at hloc'
      cases hloc'
  | arrive hloc' hpc hout => exact Or.inl rfl
  | leave hloc' hpc hin hall => exact Or.inl rfl
  | leaveAgain hloc' hpc hin hall => exact Or.inl rfl
  | exit hloc' hpc hd => exact Or.inl (by rw [goto_chan, outs_write])
  | report hloc' hpc hd => exact Or.inl (by rw [goto_chan, outs_write])

/-- Nothing but the scan of a server takes what is sent to it. -/
theorem outs_step (h : (network run W report buf).system.Reachable s)
    (hst : (network run W report buf).Step s q t) (hd : run.isDsl d = true) (p : run.Id) :
    (t.chan (p, d)).outs = (s.chan (p, d)).outs ∨ d = q ∧ ∃ sv m, s.loc d = .dsl sv ∧
      sv.pc = .recv ∧ (t.chan (p, d)).outs = (s.chan (p, d)).outs ++ [m] := by
  rcases exists_dsl h hd with ⟨sv, hloc⟩
  by_cases hq : d = q
  · subst hq
    rcases (Move.of_step hst).outs hloc p with heq | ⟨hpc, m, heq⟩
    · exact Or.inl heq
    · exact Or.inr ⟨rfl, sv, m, hloc, hpc, heq⟩
  · exact Or.inl ((Step.sameAt hst hq).outs p)

/-- `EXIT` to `d` is sent by the step that sends it. -/
theorem Move.exited (h : Move run W report s q t) (hinv : ∀ a, s.loc q = .app a → AppInv run W s q a)
    (hloc : t.loc q = .app a) (hd : run.isDsl d = true) (hexited : a.exited run q d = true) :
    ∃ a₀, s.loc q = .app a₀ ∧ (a₀.exited run q d = true ∨
      ∃ i, a₀.pc = .exit i ∧ run.dslSeq i = d.val) := by
  cases h with
  | @call a₀ op ops hloc' hpc hops =>
      rw [goto_loc_self, Loc.app.injEq] at hloc
      have hearly : a.exited run q d = false := by
        rw [← hloc]
        split
        · exact (flags_early (Or.inr (Or.inl rfl)) q d).1
        · exact (flags_loop q d).1
      rw [hearly] at hexited
      cases hexited
  | await hloc' hpc hops =>
      rw [goto_loc_self, Loc.app.injEq] at hloc
      rw [← hloc, (flags_loop q d).1] at hexited
      cases hexited
  | arrive hloc' hpc hout => exact ⟨a, hloc, Or.inl hexited⟩
  | leave hloc' hpc hin hall =>
      rw [goto_loc_self, Loc.app.injEq] at hloc
      subst hloc
      unfold App.passed at hexited
      split at hexited
      · rw [exited_exits hd (Nat.zero_le _) ‹_›] at hexited
        simp at hexited
      · rename_i hone
        simp [App.exited, hone] at hexited
  | @leaveAgain a₀ hloc' hpc hin hall =>
      rw [goto_loc_self, Loc.app.injEq] at hloc
      subst hloc
      refine ⟨a₀, hloc', Or.inl ?_⟩
      simpa [App.exited, hpc] using hexited
  | @exit a₀ i d' hloc' hpc hseq =>
      rcases (hinv a₀ hloc').exit i hpc with ⟨hone, hi⟩
      rw [goto_loc_self, Loc.app.injEq] at hloc
      rw [← hloc, exited_exits hd (by omega) hone, decide_eq_true_eq] at hexited
      rcases hexited with ⟨j, hj, heq⟩
      refine ⟨a₀, hloc', ?_⟩
      by_cases hji : j = i
      · exact Or.inr ⟨i, hpc, hji ▸ heq⟩
      · refine Or.inl ?_
        have hex : ∃ j, j < i ∧ run.dslSeq j = d.val := ⟨j, by omega, heq⟩
        simp [App.exited, hpc, hone, hex]
  | @report a₀ d' hloc' hpc hd' =>
      rw [goto_loc_self, Loc.app.injEq] at hloc
      subst hloc
      refine ⟨a₀, hloc', Or.inl ?_⟩
      simpa [App.exited, hpc] using hexited
  | seek k hloc' hpc => exact ⟨a, hloc, Or.inl hexited⟩
  | hit k hloc' hpc hsrc =>
      rw [goto_loc_self] at hloc
      cases hloc
  | answer hloc' hpc hc =>
      rw [goto_loc_self] at hloc
      cases hloc

/-- An application reports by the step that sends the report. -/
theorem Move.reported (h : Move run W report s q t) (hloc : t.loc q = .app a) (hpc : a.pc = .done) :
    ∃ a₀, s.loc q = .app a₀ ∧ (a₀.pc = .done ∨ a₀.pc = .report) := by
  cases h with
  | call hloc' hpc' hops =>
      rw [goto_loc_self, Loc.app.injEq] at hloc
      rw [← hloc] at hpc
      split at hpc
      · cases hpc
      · rcases @pc_loop run M _ _ with h | h <;> rw [h] at hpc <;> cases hpc
  | await hloc' hpc' hops =>
      rw [goto_loc_self, Loc.app.injEq] at hloc
      rw [← hloc] at hpc
      rcases @pc_loop run M _ _ with h | h <;> rw [h] at hpc <;> cases hpc
  | arrive hloc' hpc' hout => exact ⟨a, hloc, Or.inl hpc⟩
  | leave hloc' hpc' hin hall =>
      rw [goto_loc_self, Loc.app.injEq] at hloc
      rw [← hloc, App.passed] at hpc
      split at hpc
      · rw [App.exits] at hpc
        simp at hpc
        split at hpc <;> cases hpc
      · cases hpc
  | leaveAgain hloc' hpc' hin hall =>
      rw [goto_loc_self, Loc.app.injEq] at hloc
      rw [← hloc] at hpc
      cases hpc
  | exit hloc' hpc' hseq =>
      rw [goto_loc_self, Loc.app.injEq] at hloc
      rw [← hloc, App.exits] at hpc
      simp at hpc
      split at hpc <;> cases hpc
  | report hloc' hpc' hd' => exact ⟨_, hloc', Or.inr hpc'⟩
  | seek k hloc' hpc' => exact ⟨a, hloc, Or.inl hpc⟩
  | hit k hloc' hpc' hsrc =>
      rw [goto_loc_self] at hloc
      cases hloc
  | answer hloc' hpc' hc =>
      rw [goto_loc_self] at hloc
      cases hloc

theorem Calm.init (h : (network run W report buf).Init s) : Calm run W d s := by
  have hearly : ∀ p a, s.loc p = .app a → a.pc ≠ .done ∧ a.exited run p d = false := by
    intro p a hloc
    have hstart := h.loc p
    simp only [network, start, hloc] at hstart
    split at hstart
    · cases hstart
    · cases hstart
      refine ⟨?_, (flags_loop p d).1⟩
      rcases @pc_loop run M (buf p) (run.ops p) with h | h <;> simp [h]
  refine ⟨?_, ?_, ?_⟩
  · intro p a sv hloc hpc
    exact absurd hpc (hearly p a hloc).1
  · intro p _ _ m hm
    rw [h.chan] at hm
    cases hm
  · intro q a hloc hexited
    rw [(hearly q a hloc).2] at hexited
    cases hexited

/-- A server that is in its loop has not been sent a report. -/
theorem Calm.not_reported (h : Calm run W d s) (hlocp : s.loc p = .app a) (hp : p.val ≠ 1)
    (hlocd : s.loc d = .dsl sv) (hpc : sv.pc ≠ .done) : a.reported d = false := by
  by_contra hreported
  simp only [App.reported, Bool.not_eq_false, Bool.and_eq_true, decide_eq_true_eq] at hreported
  exact hpc (h.report p a sv hlocp hreported.1 hp hreported.2 hlocd)

/-- A server stays where it is behind its loop, and nobody reports to process 0 before. -/
theorem Calm.step_report (hr : (network run W report buf).system.Reachable s)
    (hd : run.isDsl d = true) (h : Calm run W d s) (hst : (network run W report buf).Step s q t)
    (hsettled : Settled run d s q) (hlocp : t.loc p = .app a) (hpc : a.pc = .done)
    (hp : p.val ≠ 1) (hzero : d.val = 0) (hlocd : t.loc d = .dsl sv) : sv.pc = .done := by
  have hbefore : ∀ sv₀, s.loc d = .dsl sv₀ → sv₀.pc = .done := by
    by_cases hpq : p = q
    · subst hpq
      rcases (Move.of_step hst).reported hlocp hpc with ⟨a₀, hloc₀, hpc₀ | hpc₀⟩
      · exact fun sv₀ => h.report p a₀ sv₀ hloc₀ hpc₀ hp hzero
      · exact fun sv₀ => hsettled.report a₀ sv₀ hloc₀ hpc₀ hp hzero
    · rw [Step.loc_ne hst hpq] at hlocp
      exact fun sv₀ => h.report p a sv₀ hlocp hpc hp hzero
  by_cases hdq : d = q
  · subst hdq
    rcases exists_dsl hr hd with ⟨sv₀, hloc₀⟩
    have hdone := hbefore sv₀ hloc₀
    exact absurd hst.effect (by simp [network, hloc₀, next, bankDsl, hdone, Network.Effect])
  · rw [Step.loc_ne hst hdq] at hlocd
    exact hbefore sv hlocd

/-- A server in its loop takes what an application other than process 1 has sent, and that has been
requests only. -/
theorem Calm.step_requests (hr : (network run W report buf).system.Reachable s)
    (hd : run.isDsl d = true) (h : Calm run W d s) (hst : (network run W report buf).Step s q t)
    (hp : run.isApp p = true) (hone : p.val ≠ 1) :
    ∀ m ∈ (t.chan (p, d)).outs, decode W m ≠ none := by
  rcases outs_step hr hst hd p with heq | ⟨rfl, sv, _, hlocd, hpc, _⟩
  · rw [heq]
    exact h.requests p hp hone
  · rcases exists_app hr hp with ⟨a, hlocp⟩
    have hnot := h.not_reported hlocp hone hlocd (by simp [hpc])
    have hins := (Step.sameAt hst (Procs.ne_of_isApp hp hd)).ins d
    have hall := (appInv hr hlocp).requests hone hnot hd
    rw [← hins] at hall
    intro m hm
    exact hall m ((fifo (TransSys.Reachable.step hr hst) _).outs_isPrefix.subset hm)

/-- Once all requests of an application have been taken, the server takes no more of it. -/
theorem Calm.step_taken (hr : (network run W report buf).system.Reachable s)
    (hd : run.isDsl d = true) (h : Calm run W d s) (hst : (network run W report buf).Step s q t)
    (hlocr : s.loc r = .app a) (hexited : a.exited run r d = true) (hp : run.isApp p = true)
    (hone : p.val ≠ 1) :
    (t.chan (p, d)).outs.map (decode W) = (requestsTo d (run.ops p)).map some := by
  have hold := h.exit r a hlocr hexited p hp hone
  rcases outs_step hr hst hd p with heq | ⟨rfl, sv, m, hlocd, hpc, heq⟩
  · rw [heq, hold]
  · -- there would be more taken than has been sent
    rcases exists_app hr hp with ⟨b, hlocp⟩
    have hover := over_of_passed hr hlocr (passed_of_exited hexited) hp hlocp
    have hall := (appInv hr hlocp).all_requests hover hone
      (h.not_reported hlocp hone hlocd (by simp [hpc])) hd
    have hle := (fifo (TransSys.Reachable.step hr hst) (p, d)).outs_isPrefix.length_le
    have hlen := congrArg List.length (hall.trans hold.symm)
    rw [heq, (Step.sameAt hst (Procs.ne_of_isApp hp hd)).ins d] at hle
    simp only [List.length_append, List.length_map, List.length_singleton] at hle hlen
    omega

/-- When process 1 sends `EXIT`, the requests of the others have been taken. -/
theorem Calm.step_exit (hr : (network run W report buf).system.Reachable s)
    (hd : run.isDsl d = true) (hst : (network run W report buf).Step s q t)
    (hsettled : Settled run d s q) (hlocq : s.loc q = .app a) {i : Nat} (hpc : a.pc = .exit i)
    (hseq : run.dslSeq i = d.val) (hp : run.isApp p = true) (hone : p.val ≠ 1) :
    (t.chan (p, d)).outs.map (decode W) = (requestsTo d (run.ops p)).map some := by
  rcases exists_app hr hp with ⟨b, hlocp⟩
  have hinv := appInv hr hlocq
  have hpq : p ≠ q := fun heq => hone (heq ▸ (hinv.exit i hpc).1)
  have hpassed : a.pc.passed = 1 := by rw [hpc]; rfl
  have hover := over_of_passed hr hlocq (Nat.le_of_eq hpassed.symm) hp hlocp
  have hreported : b.reported d = false := by
    have hle := (meeting hr).passed_le hinv.app hlocq hlocp
    rw [(meeting hr).not_waits hlocq (by simp [hpc]), hpassed] at hle
    have hdone : b.pc ≠ .done := by
      intro hdone
      rw [hdone] at hle
      exact absurd hle (by decide)
    simp [App.reported, hdone]
  rw [(Step.sameAt hst (Procs.ne_of_isApp hinv.app hd).symm).outs p,
    ← (fifo hr (p, d)).ins_eq (hsettled.exit a i hlocq hpc hseq p hp hpq)]
  exact (appInv hr hlocp).all_requests hover hone hreported hd

theorem Calm.step (hr : (network run W report buf).system.Reachable s) (hd : run.isDsl d = true)
    (h : Calm run W d s) (hst : (network run W report buf).Step s q t)
    (hsettled : Settled run d s q) : Calm run W d t := by
  refine ⟨?_, ?_, ?_⟩
  · intro p a sv hlocp hpc hp hzero hlocd
    exact h.step_report hr hd hst hsettled hlocp hpc hp hzero hlocd
  · intro p hp hone
    exact h.step_requests hr hd hst hp hone
  · intro r a hlocr hexited p hp hone
    by_cases hrq : r = q
    · subst hrq
      rcases (Move.of_step hst).exited (fun a hloc => appInv hr hloc) hlocr hd hexited
        with ⟨a₀, hloc₀, hex | ⟨i, hpc, hseq⟩⟩
      · exact h.step_taken hr hd hst hloc₀ hex hp hone
      · exact Calm.step_exit hr hd hst hsettled hloc₀ hpc hseq hp hone
    · rw [Step.loc_ne hst hrq] at hlocr
      exact h.step_taken hr hd hst hlocr hexited hp hone

theorem calm (hd : run.isDsl d = true)
    (h : ((network run W report buf).system.restrict (Settled run d)).Reachable s) :
    Calm run W d s := by
  induction h with
  | init h0 => exact Calm.init h0
  | step hr hst ih => exact Calm.step hr.of_restrict hd ih hst.1 hst.2

/-! ## The end of a server -/

/-- What has been taken of an application is what it has sent but for its report. -/
theorem place_of_sent {exited reported : Bool} (hfifo : (s.chan (p, d)).Fifo)
    (hsent : Sent W d l exited reported (s.chan (p, d)).ins)
    (hlen : (s.chan (p, d)).outs.length = (requestsTo d l).length + exited.toNat) :
    (s.chan (p, d)).place = none ∨ reported = true := by
  rcases hsent with ⟨reqs, reports, heq, hmap, hreports⟩
  have hreqs : (s.chan (p, d)).outs.length = reqs.length := by
    have := congrArg List.length hmap
    cases exited <;> simp at this hlen <;> omega
  have hplace := (place_of_outs hfifo heq hreqs).2
  cases reported with
  | true => exact Or.inr rfl
  | false =>
      rw [List.eq_nil_of_length_eq_zero hreports] at hplace
      exact Or.inl (Option.toList_eq_nil_iff.1 hplace)

/-- A server that has left its loop has taken all requests of process 1, and its `EXIT`. -/
theorem Calm.exit_taken (h : Calm run W d s) (hr : (network run W report buf).system.Reachable s)
    (hloc : s.loc d = .dsl sv) (hpc : sv.pc = .done) :
    ∃ q a, q.val = 1 ∧ s.loc q = .app a ∧ a.exited run q d = true ∧
      (s.chan (q, d)).outs.map (decode W) = (requestsTo d (run.ops q)).map some ++ [none] := by
  have hinv := dslInv hr hloc
  rcases hinv.requests with ⟨l, last, heq, hl, hlast⟩
  rw [if_pos hpc, List.map_eq_singleton_iff] at hlast
  rcases hlast with ⟨e, rfl, he⟩
  have hq := hinv.apps e (by simp [heq])
  rcases exists_app hr hq with ⟨a, hlocq⟩
  have houts : (s.chan (e.1, d)).outs = ofClient e.1 l ++ [e.2] := by
    rw [← hinv.log, heq, ofClient_append]
    simp [ofClient]
  have hone : e.1.val = 1 := by
    by_contra hone
    exact h.requests e.1 hq hone e.2 (by simp [houts]) he
  have hfirst : none ∉ (ofClient e.1 l).map (decode W) := by
    intro hmem
    rcases List.mem_map.1 hmem with ⟨m, hm, hnone⟩
    rcases List.mem_map.1 hm with ⟨e', he', rfl⟩
    exact hl e' (List.mem_filter.1 he').1 hnone
  have hreqsSome : none ∉ (requestsTo d (run.ops e.1)).map some := by simp
  rcases (appInv hr hlocq).done with ⟨issued, hissued, hall⟩
  rcases (hall d hinv.dsl).1 with ⟨reqs, reports, hins, hmap, hlen⟩
  have hsplit : (s.chan (e.1, d)).ins = ofClient e.1 l ++ e.2 :: (s.chan (e.1, d)).place.toList := by
    have hfifo : (s.chan (e.1, d)).ins = (s.chan (e.1, d)).outs ++ (s.chan (e.1, d)).place.toList :=
      fifo hr (e.1, d)
    rw [hfifo, houts, List.append_assoc, List.singleton_append]
  have hexited : a.exited run e.1 d = true := by
    by_contra hnot
    rw [Bool.not_eq_true] at hnot
    -- without `EXIT` there is no report either
    have hreported : a.reported d = false := by
      by_contra hrep
      simp only [App.reported, Bool.not_eq_false, Bool.and_eq_true, decide_eq_true_eq] at hrep
      simp [App.exited, hone, hrep.1] at hnot
    rw [hreported] at hlen
    rw [hnot] at hmap
    have hnil : reports = [] := List.eq_nil_of_length_eq_zero hlen
    have hmem : decode W e.2 ∈ reqs.map (decode W) := by
      refine List.mem_map_of_mem ?_
      rw [hnil, List.append_nil] at hins
      rw [← hins, hsplit]
      simp
    rw [hmap, he] at hmem
    simp at hmem
  have hover : a.pc ≠ .call ∧ a.pc ≠ .await := by
    have hpassed := passed_of_exited hexited
    refine ⟨?_, ?_⟩ <;>
      · intro hcall
        rw [hcall] at hpassed
        exact absurd hpassed (by decide)
  rw [hissued.at_over hover.1 hover.2, hexited] at hmap
  have hdec : (ofClient e.1 l).map (decode W) ++ none ::
      (s.chan (e.1, d)).place.toList.map (decode W) =
      (requestsTo d (run.ops e.1)).map some ++ none :: reports.map (decode W) := by
    have hboth := congrArg (List.map (decode W)) (hsplit.symm.trans hins)
    rw [List.map_append, List.map_append, hmap, List.map_cons, he] at hboth
    rw [hboth]
    simp
  refine ⟨e.1, a, hone, hlocq, hexited, ?_⟩
  rw [houts, List.map_append, eq_of_first_none hdec hfirst hreqsSome, List.map_singleton, he]

/-- A server that has left its loop has taken all requests of its applications. -/
theorem Calm.all_taken (h : Calm run W d s) (hr : (network run W report buf).system.Reachable s)
    (hloc : s.loc d = .dsl sv) (hpc : sv.pc = .done) (hlocp : s.loc p = .app a) :
    (s.chan (p, d)).outs.map (decode W) =
        (requestsTo d (run.ops p)).map some ++ (if p.val = 1 then [none] else []) ∧
      ((s.chan (p, d)).place = none ∨ d.val = 0 ∧ a.pc = .done) := by
  have hd := (dslInv hr hloc).dsl
  have hinv := appInv hr hlocp
  rcases h.exit_taken hr hloc hpc with ⟨q, b, hone, hlocq, hexited, houts⟩
  have hover := over_of_passed hr hlocq (passed_of_exited hexited) hinv.app hlocp
  have hsent := hinv.over hover.1 hover.2 hd
  have hmap : (s.chan (p, d)).outs.map (decode W) =
      (requestsTo d (run.ops p)).map some ++ (if p.val = 1 then [none] else []) := by
    by_cases hp : p.val = 1
    · have hpq : p = q := Fin.ext (hp.trans hone.symm)
      rw [if_pos hp, hpq, houts]
    · rw [if_neg hp, List.append_nil]
      exact h.exit q b hlocq hexited p hinv.app hp
  have hflag : a.exited run p d = decide (p.val = 1) := by
    by_cases hp : p.val = 1
    · have hpq : p = q := Fin.ext (hp.trans hone.symm)
      subst hpq
      rw [hlocp, Loc.app.injEq] at hlocq
      rw [hlocq, hexited, decide_eq_true hp]
    · simp [App.exited, hp]
  refine ⟨hmap, ?_⟩
  have hlen : (s.chan (p, d)).outs.length =
      (requestsTo d (run.ops p)).length + (a.exited run p d).toNat := by
    have := congrArg List.length hmap
    rw [hflag]
    by_cases hp : p.val = 1 <;> simpa [hp] using this
  rcases place_of_sent (fifo hr _) hsent hlen with hplace | hreported
  · exact Or.inl hplace
  · simp only [App.reported, Bool.and_eq_true, decide_eq_true_eq] at hreported
    exact Or.inr ⟨hreported.2, hreported.1⟩

/-- Process 1 reports after server 0 has taken its `EXIT`. -/
theorem one_not_reported (hr : (network run W report buf).system.Reachable s)
    (hloc : s.loc d = .dsl sv) (hpc : sv.pc ≠ .done) (hlocp : s.loc p = .app a) (hp : p.val = 1) :
    a.reported d = false := by
  have hinv := dslInv hr hloc
  by_contra hreported
  rw [Bool.not_eq_false] at hreported
  have hdone : a.pc = .done := by
    simp only [App.reported, Bool.and_eq_true, decide_eq_true_eq] at hreported
    exact hreported.1
  have hexited : a.exited run p d = true := by simp [App.exited, hp, hdone]
  rcases (appInv hr hlocp).over (by simp [hdone]) (by simp [hdone]) hinv.dsl
    with ⟨reqs, reports, hins, hmap, hlen⟩
  rw [hreported] at hlen
  rw [hexited] at hmap
  -- at most the report is in the slot
  have hfifo : (s.chan (p, d)).ins = (s.chan (p, d)).outs ++ (s.chan (p, d)).place.toList :=
    fifo hr (p, d)
  have hlong : reqs.length ≤ (s.chan (p, d)).outs.length := by
    have hle : (s.chan (p, d)).place.toList.length ≤ 1 := by
      cases (s.chan (p, d)).place <;> simp
    have := congrArg List.length (hfifo.symm.trans hins)
    simp only [List.length_append, Bool.toNat_true] at this hlen
    omega
  have hpre : reqs <+: (s.chan (p, d)).outs :=
    List.prefix_of_prefix_length_le ⟨reports, hins.symm⟩ (fifo hr (p, d)).outs_isPrefix hlong
  have hnone : none ∈ (s.chan (p, d)).outs.map (decode W) := by
    refine (hpre.map (decode W)).subset ?_
    rw [hmap]
    simp
  rcases List.mem_map.1 hnone with ⟨m, hm, hdec⟩
  rw [← hinv.log] at hm
  rcases List.mem_map.1 hm with ⟨e, he, rfl⟩
  exact hinv.in_loop hpc e (List.mem_filter.1 he).1 hdec

/-- In every reachable state of a run in which process 1 sends `EXIT` to server `d` only when nothing of
the other applications is in its slots, and, if `d` is process 0, these report only after `d` has left
its loop: when `d` has left its loop, it has taken from every application all its requests, and from
process 1 also `EXIT`, and has handled each message once, and nothing but a later report is in its
slots.  At the moment when it leaves they are empty, and an application that comes to its report after
server 0 has left its loop can send it. -/
theorem shutdown (hd : run.isDsl d = true)
    (h : ((network run W report buf).system.restrict (Settled run d)).Reachable s) :
    (∀ sv, s.loc d = .dsl sv → sv.pc = .done →
      sv.accs = (served W sv.handled).1 ∧
      (∀ p, ofClient p sv.handled = (s.chan (p, d)).outs) ∧
      ∀ p a, s.loc p = .app a →
        (s.chan (p, d)).outs.map (decode W) =
            (requestsTo d (run.ops p)).map some ++ (if p.val = 1 then [none] else []) ∧
          ((s.chan (p, d)).place = none ∨ d.val = 0 ∧ a.pc = .done)) ∧
    (∀ sv sv' t, s.loc d = .dsl sv → sv.pc ≠ .done → (network run W report buf).Step s d t →
      t.loc d = .dsl sv' → sv'.pc = .done →
      ∀ p, run.isApp p = true → (t.chan (p, d)).place = none) ∧
    ∀ p a sv, s.loc p = .app a → a.pc = .report → d.val = 0 → s.loc d = .dsl sv → sv.pc = .done →
      (network run W report buf).Ready s p := by
  have hr := h.of_restrict
  have hcalm := calm hd h
  refine ⟨?_, ?_, ?_⟩
  · intro sv hloc hpc
    have hinv := dslInv hr hloc
    exact ⟨hinv.accs, hinv.log, fun p a hlocp => hcalm.all_taken hr hloc hpc hlocp⟩
  · intro sv sv' t hloc hpc hst hloc' hpc' p hp
    have hsettled : Settled run d s d := by
      refine ⟨?_, ?_⟩
      · intro a i hlocd
        rw [hloc] at hlocd
        cases hlocd
      · intro a sv'' hlocd
        rw [hloc] at hlocd
        cases hlocd
    have hnext := TransSys.Reachable.step h ⟨hst, hsettled⟩
    rcases exists_app hnext.of_restrict hp with ⟨a, hlocp⟩
    rcases ((calm hd hnext).all_taken hnext.of_restrict hloc' hpc' hlocp).2
      with hplace | ⟨hzero, hdone⟩
    · exact hplace
    · -- nobody has reported
      have hpd : p ≠ d := by
        rintro rfl
        rw [hloc'] at hlocp
        cases hlocp
      rw [Step.loc_ne hst hpd] at hlocp
      have hnot : a.reported d = false := by
        by_cases hone : p.val = 1
        · exact one_not_reported hr hloc hpc hlocp hone
        · exact hcalm.not_reported hlocp hone hloc hpc
      simp [App.reported, hzero, hdone] at hnot
  · intro p a sv hlocp hpc hzero hloc hdone
    have hplace : (s.chan (p, d)).place = none := by
      rcases (hcalm.all_taken hr hloc hdone hlocp).2 with hplace | ⟨_, hpc'⟩
      · exact hplace
      · rw [hpc] at hpc'
        cases hpc'
    simp only [Network.Ready, network, hlocp, next, bankApp, hpc, ← hzero, Procs.atId_val]
    exact hplace

theorem length_asksTo (d : run.Id) (l : List (Op run.Id)) :
    (asksTo d l).length = (requestsTo d l).countP Request.asks := by
  rw [requestsTo, asksTo, List.countP_map, List.countP_filter, List.countP_eq_length_filter]
  refine congrArg List.length (List.filter_congr ?_)
  intro op _
  rw [Function.comp_apply, asks_request, Bool.and_comm]

/-- Every step meets the condition when process 1 is the only application, or when `d` is another
process than 0 and no other application ends its requests to `d` with a deposit: these have then been
answered. -/
theorem settled_of_asks (hd : run.isDsl d = true)
    (hlast : ∀ q, run.isApp q = true → q.val ≠ 1 →
      d.val ≠ 0 ∧ ∀ r ∈ (requestsTo d (run.ops q)).getLast?, r.asks = true)
    (hr : (network run W report buf).system.Reachable s) (p : run.Id) : Settled run d s p := by
  refine ⟨?_, fun a sv hlocp _ hone heq => absurd heq (hlast p (appInv hr hlocp).app hone).1⟩
  intro a i hloc hpc hseq q hq hne
  have hinv := appInv hr hloc
  have hone : q.val ≠ 1 := fun heq => hne (Fin.ext (heq.trans (hinv.exit i hpc).1.symm))
  rcases exists_app hr hq with ⟨b, hlocq⟩
  have hover := over_of_passed hr hloc (by rw [hpc]; exact Nat.le_refl 1) hq hlocq
  have hreported : b.reported d = false := by simp [App.reported, (hlast q hq hone).1]
  have hall := (appInv hr hlocq).all_requests hover hone hreported hd
  by_contra hplace
  rcases Option.ne_none_iff_exists'.1 hplace with ⟨m, hm⟩
  have hfifo : (s.chan (q, d)).ins = (s.chan (q, d)).outs ++ [m] := by
    simpa [OnePlace.Fifo, hm] using fifo hr (q, d)
  -- the request in the slot is the last one, and asks
  rw [hfifo, List.map_append, List.map_singleton, eq_comm, List.map_eq_append_iff] at hall
  rcases hall with ⟨pre, last, heq, hpre, hlast'⟩
  rcases List.map_eq_singleton_iff.1 hlast' with ⟨r, rfl, hdec⟩
  have hasks : r.asks = true := (hlast q hq hone).2 r (by simp [heq])
  have hcount : (asksTo d (run.ops q)).length = pre.countP Request.asks + 1 := by
    rw [length_asksTo, heq, List.countP_append, List.countP_singleton, if_pos hasks]
  rcases (appInv hr hlocq).done with ⟨issued, hissued, hdone⟩
  have hreplies := (hdone d hd).2
  rw [hissued.at_over hover.1 hover.2, hcount, waitsFor_of_pc hover.2, Bool.toNat_false,
    Nat.add_zero] at hreplies
  -- so it has been answered
  rcases exists_dsl hr hd with ⟨sv, hlocd⟩
  have hanswers := length_answers (W := W) sv.handled q
  rw [(dslInv hr hlocd).answers, (dslInv hr hlocd).log, List.length_append] at hanswers
  have htaken : ((s.chan (q, d)).outs.countP fun m => (decode W m).any Request.asks) =
      pre.countP Request.asks := by
    have hmap : ((s.chan (q, d)).outs.map (decode W)).countP (fun x => x.any Request.asks) =
        (pre.map some).countP fun x => x.any Request.asks := by rw [hpre]
    rwa [List.countP_map, List.countP_map] at hmap
  have hle := (fifo hr (d, q)).outs_isPrefix.length_le
  omega

end Shutdown

/-! ## A run with two servers and two applications -/

/-- Process 1 makes a deposit, and process 3 a deposit and a look at the account, all with server 2. -/
def branch : BankRun where
  numProcs := 4
  dslPerCore := defaultDslPerCore
  two_le_numProcs := by decide
  numProcs_le := by decide
  two_le_dslPerCore := Nat.le_refl defaultDslPerCore
  ops p := if p.val = 1 then [.deposit 0 ⟨2, by decide⟩ 7]
    else [.deposit 0 ⟨2, by decide⟩ 5, .check 0 ⟨2, by decide⟩]
  dsl := by decide

abbrev branchOne : branch.Id := ⟨1, by decide⟩

abbrev branchServer : branch.Id := ⟨2, by decide⟩

abbrev branchThree : branch.Id := ⟨3, by decide⟩

def branchNetwork : Network branch.Id (Fin 3 → Int32) (Loc (Fin 3 → Int32) branch.Id) :=
  network branch threeWords (fun _ m => m) fun _ _ => 7

/-- All calls have been made, the applications have met, and process 1 has sent `EXIT` to both servers;
server 2 has taken it. -/
def branchRun : List branch.Id :=
  [branchOne, branchThree, branchServer, branchServer, branchThree, branchServer, branchServer,
    branchServer, branchThree, branchOne, branchThree, branchOne, branchOne, branchOne, branchServer]

theorem shutdown_branchRun :
    ((branchNetwork.after branchRun).chan (branchOne, branchServer)).outs.map (decode threeWords) =
        [some (.deposit 0 7), none] ∧
      ((branchNetwork.after branchRun).chan (branchThree, branchServer)).outs.map
        (decode threeWords) = [some (.deposit 0 5), some (.check 0)] ∧
      ((branchNetwork.after branchRun).chan (branchOne, branchServer)).place = none ∧
      ((branchNetwork.after branchRun).chan (branchThree, branchServer)).place = none := by
  have hreach : branchNetwork.system.Reachable (branchNetwork.after branchRun) :=
    reachable_after (N := branchNetwork) branchRun
  have hd : branch.isDsl branchServer = true := by decide
  -- the requests of process 3 end with a look at the account, so that no step is ruled out
  have hlast : ∀ q, branch.isApp q = true → q.val ≠ 1 → branchServer.val ≠ 0 ∧
      ∀ r ∈ (requestsTo branchServer (branch.ops q)).getLast?, r.asks = true := by decide
  have hserver : (match (branchNetwork.after branchRun).loc branchServer with
      | .app _ => DslPc.recv
      | .dsl sv => sv.pc) = .done := by decide +kernel
  have hmain := shutdown hd (hreach.restrict fun s p t hr _ => settled_of_asks hd hlast hr p)
  rcases exists_dsl hreach hd with ⟨sv, hloc⟩
  rcases exists_app hreach (p := branchOne) (by decide) with ⟨one, hone⟩
  rcases exists_app hreach (p := branchThree) (by decide) with ⟨three, hthree⟩
  rw [hloc] at hserver
  have hall := (hmain.1 sv hloc hserver).2.2
  have hzero : branchServer.val ≠ 0 := by decide
  rcases hall branchOne one hone with ⟨houts, hplace⟩
  rcases hall branchThree three hthree with ⟨houts', hplace'⟩
  exact ⟨houts, houts', hplace.resolve_right fun h => hzero h.1,
    hplace'.resolve_right fun h => hzero h.1⟩

/-! ## A lost deposit -/

/-- One server and two applications: process 1 looks at an account, and process 2 makes a deposit. -/
def lateDeposit : BankRun where
  numProcs := 3
  dslPerCore := 3
  two_le_numProcs := by decide
  numProcs_le := by decide
  two_le_dslPerCore := by decide
  ops p := if p.val = 1 then [.check 0 ⟨0, by decide⟩] else [.deposit 0 ⟨0, by decide⟩ 5]
  dsl := by decide

abbrev lateServer : lateDeposit.Id := ⟨0, by decide⟩

abbrev lateOne : lateDeposit.Id := ⟨1, by decide⟩

abbrev lateTwo : lateDeposit.Id := ⟨2, by decide⟩

def lateNetwork : Network lateDeposit.Id (Fin 3 → Int32) (Loc (Fin 3 → Int32) lateDeposit.Id) :=
  network lateDeposit threeWords (fun _ m => m) fun _ _ => 7

/-- The scan of the server has gone past the slot of process 2 when the deposit comes, and finds
`EXIT` in that of process 1. -/
def lateRun : List lateDeposit.Id :=
  [lateOne, lateServer, lateServer, lateOne, lateServer, lateServer, lateTwo, lateOne, lateTwo,
    lateOne, lateOne, lateServer]

/-- A server can leave its loop with `EXIT` while a deposit is in its slot, which it has not taken and
which does not show in the account. -/
theorem shutdown_lost : ∃ s sv, lateNetwork.system.Reachable s ∧ s.loc lateServer = .dsl sv ∧
    sv.pc = .done ∧ ofClient lateTwo sv.handled = [] ∧ sv.accs 0 = 0 ∧
    (s.chan (lateTwo, lateServer)).place.map (decode threeWords) = some (some (.deposit 0 5)) := by
  have hreach : lateNetwork.system.Reachable (lateNetwork.after lateRun) :=
    reachable_after (N := lateNetwork) lateRun
  have hserver : (match (lateNetwork.after lateRun).loc lateServer with
      | .app _ => (DslPc.recv, [], 0)
      | .dsl sv => (sv.pc, ofClient lateTwo sv.handled, sv.accs 0)) = (.done, [], 0) := by
    decide +kernel
  have hplace : ((lateNetwork.after lateRun).chan (lateTwo, lateServer)).place.map
      (decode threeWords) = some (some (.deposit 0 5)) := by decide +kernel
  cases hloc : (lateNetwork.after lateRun).loc lateServer with
  | app a =>
      rw [hloc] at hserver
      cases hserver
  | dsl sv =>
      rw [hloc] at hserver
      simp only [Prod.mk.injEq] at hserver
      exact ⟨_, sv, hreach, hloc, hserver.1, hserver.2.1, hserver.2.2, hplace⟩

end Bank
end Bench
end Ssmp
