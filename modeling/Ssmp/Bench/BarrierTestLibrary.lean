import Ssmp.Bench.BarrierTestRuns
import Ssmp.Bench.RoundTrip
import Ssmp.Whole.Completion

/-!
# Bench.BarrierTestLibrary — `barrier_test.c` on the whole library

With the messages and the barriers of a build of the library, all processes come to the barriers that
process 0 draws, and none leaves one to which another participant has not come (`library_rounds`).
Barrier 1 holds fewer processes than the others, and the program comes to its end all the same
(`library_rounds_end`).
-/

namespace Ssmp
namespace Bench

open Lib Network

namespace BarrierTest

section Library

open Whole

variable {b : Build} {args : BarrierTestArgs} {W : MsgWords b.layout.Payload}
variable {buf : Nat → b.layout.Payload} {old : Nat → Barrier.SsmpBarrier} {p q : args.Id}
variable {x : Whole b.layout args.numProcs Proc} {l l' : Proc}
variable {a : Meetings args.Id b.layout.Payload Proc}

/-- The programs with the library as `ssmp_init` leaves it. -/
def onLibrary (b : Build) (args : BarrierTestArgs) (W : MsgWords b.layout.Payload)
    (buf : Nat → b.layout.Payload) (old : Nat → Barrier.SsmpBarrier) :
    TransSys (Whole b.layout args.numProcs Proc) args.Id :=
  Whole.system b (network args W buf) (hall args) (Barrier.ssmpInitBarriers old)

theorem refined (h : (onLibrary b args W buf old).Reachable x) :
    ∃ a, (Meetings.system (network args W buf)
        (Whole.halls (hall args) (Barrier.ssmpInitBarriers old))).Reachable a ∧
      Whole.Rel b (network args W buf) (hall args) (Barrier.ssmpInitBarriers old) x a :=
  Whole.refines (fun _ hb => (Barrier.initBarriers_ready hb).counted) args.numProcs_le
    (fun a _ => safe a.net) h

/-! ### In a call -/

theorem num_broadcast {core : Nat} : (Proc.broadcast args p core l).num = l.num ∧
    (Proc.broadcast args p core l).pc ≠ .done := by
  unfold Proc.broadcast
  simp only
  split
  · split <;> exact ⟨rfl, by simp⟩
  · split <;> exact ⟨rfl, by simp⟩

theorem pos_of_not_done (h : l.pc ≠ .done) : pos l = l.num := by
  unfold pos
  split
  · rename_i hpc
    exact absurd hpc h
  · rfl

/-- A send or a receive does not take a process past a barrier. -/
theorem pos_of_behind (h : Linked.Behind ((network args W buf).next p l) l') : pos l' = pos l := by
  cases hpc : l.pc with
  | send core =>
      simp only [network, next, hpc] at h
      split at h
      · have hl' : l' = Proc.broadcast args p (core + 1) l := h
        rw [hl', pos_of_not_done num_broadcast.2, num_broadcast.1, pos_of_not_done (by simp [hpc])]
      · exact h.elim
  | recv =>
      simp only [network, next, hpc] at h
      rcases h with ⟨m, rfl⟩
      simp [pos, hpc]
  | opening =>
      rw [next_opening hpc] at h
      exact h.elim
  | wait =>
      rw [next_wait hpc] at h
      exact h.elim
  | last =>
      rw [next_last hpc] at h
      exact h.elim
  | done =>
      simp only [network, next, hpc] at h
      exact h.elim

theorem pos_eq (hrel : Whole.Rel b (network args W buf) (hall args) (Barrier.ssmpInitBarriers old) x a)
    (p : args.Id) : pos (a.net.loc p) = pos (x.loc p) := by
  have hahead : a.net.loc p = x.loc p ∨ _ := (hrel.linked.phase p).ahead
  rcases hahead with hsame | hbehind
  · rw [hsame]
  · exact pos_of_behind hbehind

/-! ### Rounds -/

/-- Whenever a process has passed the barrier `i` of the run, every other participant of it has passed
it too or is in `ssmp_barrier_wait` there. -/
def Together (args : BarrierTestArgs) (barriers : Nat → Barrier.SsmpBarrier) {L : MsgLayout}
    (x : Whole L args.numProcs Proc) : Prop :=
  ∀ (p q : args.Id) (i bar : Nat), (seq args)[i]? = some bar → (barriers bar).member p = true →
    (barriers bar).member q = true → i < pos (x.loc q) →
      i < pos (x.loc p) ∨ i = pos (x.loc p) ∧ x.inWait p = true

theorem seq_lt {i bar : Nat} (h : (seq args)[i]? = some bar) : bar < Barrier.ssmpNumBarriers := by
  have hmem := List.mem_of_getElem? h
  simp only [seq, List.cons_append, List.mem_cons, List.mem_append, List.mem_map, List.mem_range,
    List.not_mem_nil, or_false] at hmem
  rcases hmem with rfl | ⟨k, _, rfl⟩ | rfl
  · decide
  · exact BarrierTestArgs.draw_lt k
  · decide

/-- In every run on any build of the library: the processes pass the barriers together; each process
has received the numbers of the first rounds, as they were drawn; and a process that is about to wait
in a round waits at the barrier of this round. -/
theorem library_rounds (h : (onLibrary b args W buf old).Reachable x) :
    Together args (Barrier.ssmpInitBarriers old) x ∧
      (∀ p, p ≠ args.first → ∃ i j, j ≤ i ∧ i ≤ j + 1 ∧ i ≤ args.rounds ∧
        x.sys.sent (args.first, p) = messages args W buf i ∧
        x.sys.recvd (args.first, p) = messages args W buf j ∧
        (x.busy p = false → j = taken (x.loc p))) ∧
      ∀ p, x.busy p = false → (x.loc p).pc = .wait →
        hall args p (x.loc p) = args.draw ((x.loc p).num - 1) := by
  rcases refined h with ⟨a, ha, hrel⟩
  refine ⟨?_, ?_, ?_⟩
  · intro p q i bar hseq hp hq hi
    have hbar := seq_lt hseq
    have hmember : ∀ r : args.Id, (Barrier.ssmpInitBarriers old bar).member r = true →
        (Whole.halls (σ := Proc) (hall args) (Barrier.ssmpInitBarriers old)).member bar r = true := by
      intro r hr
      simp [Whole.halls, hbar, hr]
    rw [← pos_eq hrel] at hi ⊢
    rcases (inOrder rfl).together ha hi hseq (hmember q hq) (hmember p hp) with hpast | ⟨heq, hin⟩
    · exact Or.inl hpast
    · exact Or.inr ⟨heq, hrel.inWait_of_waits hin⟩
  · intro p hp
    have hputs := (account ha args.first).puts p
    have htakes := (account ha p).takes args.first
    rw [if_pos ⟨rfl, hp⟩] at hputs htakes
    refine ⟨sent args (a.net.loc args.first) p, taken (a.net.loc p), ?_, ?_, ?_, ?_, ?_, ?_⟩
    · rcases in_channel ha hp with ⟨_, heq⟩ | ⟨_, heq⟩ <;> omega
    · rcases in_channel ha hp with ⟨_, heq⟩ | ⟨_, heq⟩ <;> omega
    · exact (account ha args.first).stage.sent_le
    · rw [hrel.sent]
      exact hputs
    · rw [hrel.recvd]
      exact htakes
    · intro hp'
      rw [hrel.loc hp']
  · intro p hp hpc
    rw [← hrel.loc hp] at hpc ⊢
    cases (account ha p).stage with
    | wait _ hnum _ _ hbarr => rw [hall_wait hpc hbarr, hnum, Nat.add_sub_cancel]
    | opening hpc' _ _ => simp [hpc] at hpc'
    | send _ hpc' _ _ _ _ _ _ => simp [hpc] at hpc'
    | recv _ hpc' _ _ => simp [hpc] at hpc'
    | past hpc' _ => simp [hpc] at hpc'

theorem Stage.done_of_stop (h : Stage args p l) (hnext : (network args W buf).next p l = .stop) :
    l.pc = .done := by
  cases h with
  | opening hpc _ _ =>
      rw [next_opening hpc] at hnext
      cases hnext
  | send _ hpc _ hcore _ _ _ _ => simp [network, next, hpc, hcore] at hnext
  | recv _ hpc _ _ => simp [network, next, hpc] at hnext
  | wait hpc _ _ _ _ =>
      rw [next_wait hpc] at hnext
      cases hnext
  | past hpc _ =>
      rcases hpc with hpc | hpc
      · rw [next_last hpc] at hnext
        cases hnext
      · exact hpc

/-- Every run on any build of the library can be continued until all processes have come to their end. -/
theorem library_rounds_end (h : (onLibrary b args W buf old).Reachable x) :
    ∃ y, (onLibrary b args W buf old).Steps x y ∧
      ∀ p, y.busy p = false ∧ y.inWait p = false ∧ (y.loc p).pc = .done := by
  rcases Whole.library_completes args.numProcs_le (fun _ hb => Barrier.initBarriers_ready hb)
    (fun p l srcs k hk => absurd hk (noScan p l srcs k)) (fun a _ => safe a.net)
    (fun a ha hblocked p => by
      simp only [network, next, done_of_blocked rfl ha hblocked p])
    (ranked (H := Whole.halls (hall args) (Barrier.ssmpInitBarriers old))).lowers h with
    ⟨y, hsteps, hstopped⟩
  rcases refined (h.steps hsteps) with ⟨a, ha, hrel⟩
  refine ⟨y, hsteps, fun p => ⟨(hstopped p).1, (hstopped p).2.1, ?_⟩⟩
  have hstage := (account ha p).stage
  rw [hrel.loc (hstopped p).1] at hstage
  exact hstage.done_of_stop (hstopped p).2.2

end Library

/-! ### Two rounds -/

section TwoRounds

def twoRounds : BarrierTestArgs where
  numReps := 2
  numProcs := defaultNumProcs
  seeds := { x := 3, y := 5, z := 7 }
  numReps_lt := by decide
  numProcs_pos := Nat.two_pos
  numProcs_le := by decide

def firstProc : twoRounds.Id := ⟨0, Nat.two_pos⟩

def secondProc : twoRounds.Id := ⟨1, Nat.one_lt_two⟩

/-- The second process has passed the barrier of the first round, and the first is still in it. -/
def oneAhead : Whole plainBuild.layout twoRounds.numProcs Proc :=
  Whole.after plainBuild (fun _ => 0) (network twoRounds ClientServer.plainWords fun _ _ => 7)
    (hall twoRounds) (Barrier.ssmpInitBarriers Whole.zeroBarriers)
    (Whole.bothPass secondProc firstProc ++ List.replicate 20 firstProc ++
      List.replicate 20 secondProc ++ List.replicate 5 firstProc ++ List.replicate 9 secondProc)

theorem reachable_oneAhead :
    (onLibrary plainBuild twoRounds ClientServer.plainWords (fun _ _ => 7)
      Whole.zeroBarriers).Reachable oneAhead :=
  Whole.reachable_after _

theorem library_rounds_oneAhead :
    pos (oneAhead.loc secondProc) = 2 ∧
      (1 < pos (oneAhead.loc firstProc) ∨
        1 = pos (oneAhead.loc firstProc) ∧ oneAhead.inWait firstProc = true) := by
  have hpos : pos (oneAhead.loc secondProc) = 2 := by decide +kernel
  have hseq : (seq twoRounds)[1]? = some 7 := by decide +kernel
  refine ⟨hpos, (library_rounds reachable_oneAhead).1 firstProc secondProc 1 7 hseq ?_ ?_ ?_⟩
  · decide +kernel
  · decide +kernel
  · rw [hpos]
    exact Nat.one_lt_two

theorem library_rounds_end_oneAhead :
    ∃ y, (onLibrary plainBuild twoRounds ClientServer.plainWords (fun _ _ => 7)
      Whole.zeroBarriers).Steps oneAhead y ∧ (y.loc firstProc).pc = .done := by
  rcases library_rounds_end reachable_oneAhead with ⟨y, hsteps, hdone⟩
  exact ⟨y, hsteps, (hdone firstProc).2.2⟩

end TwoRounds

end BarrierTest
end Bench
end Ssmp
