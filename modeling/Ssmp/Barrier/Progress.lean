import Mathlib.Data.Finset.Max
import Ssmp.Barrier.Rounds

/-!
# Barrier.Progress — nobody gets stuck, and barriers are left as new

All processes make the same calls in the same order, on barriers with any participants.  Different
participants let processes run several barriers ahead of each other.  The one that is furthest
behind can still go on, or waits at a barrier for a process that can: whoever has not arrived there
has not come further in the sequence.
-/

namespace Ssmp
namespace Barrier

open Lib
open PhaseBarrier (Stage Inv)

section Progress

variable {n : Nat} {barriers : Nat → SsmpBarrier} {todo : Fin n → List Nat} {seq : List Nat}
variable {s t : State n} {p q : Fin n} {b : Nat}

/-! ## The order of the calls -/

/-- Process `p` has returned from all its calls. -/
def State.Finished (s : State n) (p : Fin n) : Prop :=
  s.pc p = .idle ∧ s.todo p = []

/-- The calls of `p`: those it has returned from, the one it is in, and those left. -/
def State.calls (s : State n) (p : Fin n) : List Nat :=
  s.returned p ++ ((s.pc p).current.toList ++ s.todo p)

theorem callPc_current (s : State n) (p : Fin n) (b : Nat) : (s.callPc p b).current = some b := by
  unfold State.callPc
  split
  · rfl
  · split <;> rfl

theorem calls_step_self (s : State n) (p : Fin n) : (s.step p).calls p = s.calls p := by
  -- a call moves from `todo` to the program counter and from there to `returned`
  cases hpc : s.pc p with
  | idle =>
      cases htodo : s.todo p with
      | nil => simp [State.step, hpc, htodo]
      | cons b rest =>
          have hidle : Pc.idle.current = none := rfl
          simp [State.calls, State.step, State.setPc, hpc, htodo, callPc_current, hidle]
  | waitClear b numPart =>
      simp only [State.step, hpc]
      split
      · rfl
      · simp [State.calls, State.setPc, hpc, Pc.current]
  | addTicket b numPart =>
      simp only [State.step, hpc]
      split <;> simp [State.calls, State.setPc, State.setBarrier, hpc, Pc.current]
  | setCleared b => simp [State.calls, State.step, State.setPc, State.setBarrier, hpc, Pc.current]
  | waitSet b =>
      simp only [State.step, hpc]
      split
      · rfl
      · simp [State.calls, State.setPc, hpc, Pc.current]
  | subTicket b =>
      simp only [State.step, hpc]
      split <;> simp [State.calls, State.setPc, State.setBarrier, hpc, Pc.current]
  | resetCleared b =>
      simp [State.calls, State.step, State.setPc, State.setBarrier, hpc, Pc.current]
  | ret b => simp [State.calls, State.step, State.setPc, hpc, Pc.current]

theorem calls_of_reachable (h : (system barriers todo).Reachable s) (p : Fin n) :
    s.calls p = todo p := by
  induction h with
  | @init s h0 =>
      have hinit : s.Init barriers todo := h0
      simp [State.calls, hinit.pc, hinit.returned, hinit.todo, Pc.current]
  | @step s t q _ hst ih =>
      have hstep : t = s.step q := hst
      subst hstep
      by_cases hp : p = q
      · subst hp
        rw [calls_step_self, ih]
      · have hsame := step_same s q
        rw [← ih, State.calls, State.calls, hsame.pc p hp, hsame.todo p hp, hsame.returned p hp]

/-! ## Processes that cannot go on -/

theorem step_ne_of_pc (h : (s.step p).pc p ≠ s.pc p) : s.step p ≠ s :=
  fun heq => h (congrFun (congrArg State.pc heq) p)

/-- Where a process is whose step changes nothing. -/
theorem stuck_cases (h : s.step p = s) :
    s.Finished p ∨ (∃ b numPart, s.pc p = .waitClear b numPart ∧ (s.barrier b).cleared = 1) ∨
      ∃ b, s.pc p = .waitSet b ∧ (s.barrier b).cleared = 0 := by
  -- every step but a failed wait changes the program counter
  cases hpc : s.pc p with
  | idle =>
      cases htodo : s.todo p with
      | nil => exact Or.inl ⟨hpc, htodo⟩
      | cons b rest =>
          refine absurd h (step_ne_of_pc ?_)
          simp only [State.step, hpc, htodo, State.setPc, Function.update_self]
          intro hidle
          have hcur := callPc_current s p b
          simp [hidle, Pc.current] at hcur
  | waitClear b numPart =>
      by_cases hc : (s.barrier b).cleared = 1
      · exact Or.inr (Or.inl ⟨b, numPart, rfl, hc⟩)
      · exact absurd h (step_ne_of_pc (by simp [State.step, State.setPc, hpc, hc]))
  | addTicket b numPart =>
      refine absurd h (step_ne_of_pc ?_)
      simp only [State.step, hpc, State.setPc, Function.update_self]
      split <;> simp
  | setCleared b => exact absurd h (step_ne_of_pc (by simp [State.step, State.setPc, hpc]))
  | waitSet b =>
      by_cases hc : (s.barrier b).cleared = 0
      · exact Or.inr (Or.inr ⟨b, rfl, hc⟩)
      · exact absurd h (step_ne_of_pc (by simp [State.step, State.setPc, hpc, hc]))
  | subTicket b =>
      refine absurd h (step_ne_of_pc ?_)
      simp only [State.step, hpc, State.setPc, Function.update_self]
      split <;> simp
  | resetCleared b => exact absurd h (step_ne_of_pc (by simp [State.step, State.setPc, hpc]))
  | ret b => exact absurd h (step_ne_of_pc (by simp [State.step, State.setPc, hpc]))

/-- Whoever waits or writes does so on a barrier that exists. -/
def Pc.InRange : Pc → Prop
  | waitClear b _ | addTicket b _ | setCleared b | waitSet b | subTicket b | resetCleared b =>
      b < ssmpNumBarriers
  | idle | ret _ => True

theorem callPc_inRange (s : State n) (p : Fin n) (b : Nat) : (s.callPc p b).InRange := by
  unfold State.callPc
  split
  · trivial
  · split
    · trivial
    · exact Nat.lt_of_not_ge ‹_›

theorem step_inRange (h : (s.pc p).InRange) : ((s.step p).pc p).InRange := by
  cases hpc : s.pc p with
  | idle =>
      cases htodo : s.todo p with
      | nil => simpa [State.step, hpc, htodo] using h
      | cons b rest => simpa [State.step, State.setPc, hpc, htodo] using callPc_inRange s p b
  | waitClear b numPart =>
      rw [hpc] at h
      simp only [State.step, hpc]
      split
      · rw [hpc]
        exact h
      · simp only [State.setPc, Function.update_self]
        exact h
  | addTicket b numPart =>
      rw [hpc] at h
      simp only [State.step, hpc, State.setPc, Function.update_self]
      split <;> exact h
  | setCleared b =>
      rw [hpc] at h
      simp only [State.step, hpc, State.setPc, Function.update_self]
      exact h
  | waitSet b =>
      rw [hpc] at h
      simp only [State.step, hpc]
      split
      · rw [hpc]
        exact h
      · simp only [State.setPc, Function.update_self]
        exact h
  | subTicket b =>
      rw [hpc] at h
      simp only [State.step, hpc, State.setPc, Function.update_self]
      split
      · exact h
      · trivial
  | resetCleared b => simp [State.step, State.setPc, hpc, Pc.InRange]
  | ret b => simp [State.step, State.setPc, hpc, Pc.InRange]

theorem inRange_of_reachable (h : (system barriers todo).Reachable s) (p : Fin n) :
    (s.pc p).InRange := by
  induction h with
  | @init s h0 =>
      have hinit : s.Init barriers todo := h0
      rw [hinit.pc]
      trivial
  | @step s t q _ hst ih =>
      have hstep : t = s.step q := hst
      subst hstep
      by_cases hp : p = q
      · subst hp
        exact step_inRange ih
      · rw [(step_same s q).pc p hp]
        exact ih

/-! ## Nobody gets stuck -/

/-- While `cleared` is 1, somebody inside can go on. -/
theorem exists_step_of_cleared (hi : Inv (view barriers b s)) (hc : (s.barrier b).cleared = 1) :
    ∃ q, s.step q ≠ s := by
  -- the flag is up, so the barrier is being left
  rcases hi.exists_releasing (by simp [view, hc]) with ⟨q, hq⟩
  refine ⟨q, ?_⟩
  intro hstuck
  have hstage : stageAt b (s.pc q) = .held ∨ stageAt b (s.pc q) = .go ∨
      stageAt b (s.pc q) = .final := hq
  rcases stuck_cases hstuck with ⟨hidle, _⟩ | ⟨b', num, hpc, _⟩ | ⟨b', hpc, hzero⟩
  · simp [hidle, stageAt] at hstage
  · simp [hpc, stageAt] at hstage
  · -- a process at `held` waits at `b` itself, where the flag is set
    by_cases hbb : b' = b
    · subst hbb
      rw [hc] at hzero
      exact absurd hzero (by decide)
    · simp [hpc, stageAt, hbb] at hstage

/-- A process that has not arrived where `p` waits has not come further in the sequence. -/
theorem returned_le (hi : Inv (view barriers b s)) (hp : (barriers b).member p = true)
    (hq : (barriers b).member q = true) (hcalls : s.calls p = seq) (hcalls' : s.calls q = seq)
    (hcur : (s.pc p).current = some b) (hlt : (s.arrived q).count b < (s.arrived p).count b) :
    (s.returned q).length ≤ (s.returned p).length := by
  by_contra hlong
  -- otherwise the calls `q` has returned from include the one `p` is in
  have hsplit : (s.returned p ++ [b]) <+: s.returned q := by
    have hpre : (s.returned p ++ [b]) <+: seq := by
      rw [← hcalls, State.calls, hcur]
      exact ⟨s.todo p, by simp⟩
    have hpre' : s.returned q <+: seq := by
      rw [← hcalls']
      exact List.prefix_append _ _
    exact List.prefix_of_prefix_length_le hpre hpre' (by simp; omega)
  have hcount := hsplit.sublist.count_le b
  have hin : (s.returned q).count b ≤ (s.arrived q).count b := hi.completed_le ⟨q, hq⟩ ⟨q, hq⟩
  have hone : (s.arrived p).count b ≤ (s.returned p).count b + 1 := hi.entered_le ⟨p, hp⟩
  rw [List.count_append, List.count_singleton_self] at hcount
  omega

/-- The unfinished process that is furthest behind does not wait for an arrival in vain. -/
theorem exists_step_of_waiting (hw : WellFormed barriers b s) (hi : Inv (view barriers b s))
    (hcalls : ∀ q, s.calls q = seq)
    (hmin : ∀ q, ¬ s.Finished q → (s.returned p).length ≤ (s.returned q).length)
    (hpc : s.pc p = .waitSet b) (hc : (s.barrier b).cleared = 0) : ∃ q, s.step q ≠ s := by
  have hp : (barriers b).member p = true := by
    have hok := hw.pc p
    rw [hpc] at hok
    exact hok rfl
  have hheld : (view barriers b s).stage ⟨p, hp⟩ = .held := stageAt_held.2 hpc
  rcases hi.exists_gathering hheld (by simp [view, hc]) with ⟨q, hq⟩ | ⟨q, hlt, hq⟩
  · -- the last arrival is about to set the flag
    refine ⟨q, step_ne_of_pc ?_⟩
    have hset : s.pc q = .setCleared b := stageAt_last.1 hq
    simp [State.step, State.setPc, hset]
  · refine ⟨q, ?_⟩
    intro hstuck
    have hcur : (s.pc p).current = some b := by rw [hpc]; rfl
    -- somebody has not arrived, and so is not ahead of `p`
    have hle := returned_le hi hp q.2 (hcalls p) (hcalls q) hcur hlt
    have hpcalls : s.returned p ++ b :: s.todo p = seq := by
      rw [← hcalls p, State.calls, hcur]
      rfl
    have hunfinished : ¬ s.Finished q := by
      rintro ⟨hidle, hnone⟩
      have hall : s.returned q.1 = seq := by
        rw [← hcalls q, State.calls, hidle, hnone]
        simp [Pc.current]
      rw [hall, ← hpcalls, List.length_append, List.length_cons] at hle
      omega
    -- `q` is as far as `p`, so its next call is the one on `b`
    have hnext : (s.pc q.1).current.toList ++ s.todo q.1 = b :: s.todo p := by
      have hlen : (s.returned q.1).length = (s.returned p).length :=
        Nat.le_antisymm hle (hmin q hunfinished)
      have heq : s.returned q.1 ++ ((s.pc q.1).current.toList ++ s.todo q.1) =
          s.returned p ++ b :: s.todo p := (hcalls q).trans hpcalls.symm
      exact (List.append_inj heq hlen).2
    have hstage : stageAt b (s.pc q.1) = .out ∨ stageAt b (s.pc q.1) = .ready ∨
        stageAt b (s.pc q.1) = .done := hq
    -- the next call of `q` is on `b`, where no wait of its stage can fail
    rcases stuck_cases hstuck with hfin | ⟨b', num, hpcq, hone⟩ | ⟨b', hpcq, hzero⟩
    · exact hunfinished hfin
    · have hbb : b' = b := by
        rw [hpcq] at hnext
        exact (List.cons.inj hnext).1
      subst hbb
      rw [hc] at hone
      exact absurd hone (by decide)
    · have hbb : b' = b := by
        rw [hpcq] at hnext
        exact (List.cons.inj hnext).1
      subst hbb
      simp [hpcq, stageAt] at hstage

theorem current_mem (hcalls : s.calls p = seq) (hcur : (s.pc p).current = some b) : b ∈ seq := by
  rw [← hcalls, State.calls, hcur]
  simp

theorem exists_step (hn : n < 2 ^ 31)
    (hcounted : ∀ b ∈ seq, b < ssmpNumBarriers → (barriers b).Counted n)
    (h : (system barriers fun _ => seq).Reachable s) (hunfinished : ∃ p, ¬ s.Finished p) :
    ∃ p, s.step p ≠ s := by
  classical
  by_contra hnone
  have hstuck : ∀ p, s.step p = s := by
    intro p
    by_contra hne
    exact hnone ⟨p, hne⟩
  have hnonempty : (Finset.univ.filter fun p => ¬ s.Finished p).Nonempty := by
    rcases hunfinished with ⟨p, hp⟩
    exact ⟨p, by simpa using hp⟩
  -- take an unfinished process that has returned from the fewest calls
  rcases Finset.exists_min_image _ (fun p => (s.returned p).length) hnonempty with ⟨p, hp, hmin⟩
  have hunfin : ¬ s.Finished p := by simpa using hp
  have hrange := inRange_of_reachable h p
  have hmem := fun b => current_mem (b := b) (calls_of_reachable h p)
  rcases stuck_cases (hstuck p) with hfin | ⟨b, num, hpc, hc⟩ | ⟨b, hpc, hc⟩
  · exact hunfin hfin
  · rw [hpc] at hrange
    have hb := hcounted b (hmem b (by simp [hpc, Pc.current])) hrange
    exact hnone (exists_step_of_cleared (inv_of_counted hn hrange hb h).2 hc)
  · rw [hpc] at hrange
    have hb := hcounted b (hmem b (by simp [hpc, Pc.current])) hrange
    rcases inv_of_counted hn hrange hb h with ⟨hw, hi⟩
    exact hnone (exists_step_of_waiting hw hi (calls_of_reachable h)
      (fun q hq => hmin q (by simpa using hq)) hpc hc)

/-! ## Barriers are left as new -/

theorem barrier_reset (hw : WellFormed barriers b s) (hi : Inv (view barriers b s))
    (hout : ∀ p, (s.pc p).current ≠ some b) :
    (s.barrier b).ticket = 0 ∧ (s.barrier b).cleared = 0 := by
  rcases hi.reset (fun p => stageAt_other (hout p)) with ⟨hcount, hflag⟩
  constructor
  · exact UInt32.toNat_inj.1 hcount
  · -- the view only tells that the flag is not 1
    have hne : (s.barrier b).cleared ≠ 1 := by simpa [view] using hflag
    exact hw.cleared.resolve_right hne

end Progress

/-- When all processes make the same calls in the same order, some process can go on in every
reachable state until all have finished; and every barrier that nobody is inside is as new, and its
counter never exceeds the number of its participants. -/
theorem barriers_progress {n : Nat} {barriers : Nat → SsmpBarrier} {seq : List Nat} {s : State n}
    (hn : n < 2 ^ 31) (hready : ∀ b < ssmpNumBarriers, (barriers b).Ready n)
    (h : (system barriers fun _ => seq).Reachable s) :
    ((∃ p, ¬ s.Finished p) → ∃ p, s.step p ≠ s) ∧
      ∀ b < ssmpNumBarriers,
        ((∀ p, (s.pc p).current ≠ some b) →
          (s.barrier b).ticket = 0 ∧ (s.barrier b).cleared = 0) ∧
        (s.barrier b).ticket.toNat ≤ Fintype.card (Part (barriers b) n) := by
  refine ⟨exists_step hn (fun b _ hb => (hready b hb).counted) h, ?_⟩
  intro b hb
  rcases inv_of_reachable hn hb (hready b hb) h with ⟨hw, hi⟩
  exact ⟨barrier_reset hw hi, hi.count_le⟩

/-- One process has returned from its first call, the other has not. -/
theorem barriers_progress_afterReturn : ∃ p, afterReturn.step p ≠ afterReturn := by
  have hreach : (system (ssmpInitBarriers fun _ => ⟨0, none, 7, 7⟩)
      (fun _ : Fin 2 => [0, 0])).Reachable afterReturn :=
    reachable_run (TransSys.Reachable.init (State.init_fresh _ _)) _
  have hprogress := (barriers_progress (by decide) (fun _ hb => initBarriers_ready hb) hreach).1
  refine hprogress ⟨0, ?_⟩
  rintro ⟨_, htodo⟩
  exact absurd htodo (by decide)

end Barrier
end Ssmp
