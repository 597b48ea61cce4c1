import Ssmp.Barrier.Participants
import Ssmp.Bench.OneToOneEnd
import Ssmp.Bench.RoundTrip
import Ssmp.Whole.Completion

/-!
# Bench.OneToOneLibrary — `one2one.c` and `cs.c` on the whole library

Here the messages and the barriers are those of a build of the library, and all their atomic actions
interleave.  The messages of every pair arrive, in order and once (`library_pairs`), the processes come
to their end (`library_pairs_end`), and the reports of `one2one.c` are printed in the order of the ids
(`library_reports`).
-/

namespace Ssmp
namespace Bench

open Lib Network

namespace OneToOne

/-! ## On the library -/

section Library

open Whole

variable {b : Build} {V : Variant} {args : OneToOneArgs} {W : MsgWords b.layout.Payload}
variable {buf : args.Id → b.layout.Payload} {old : Nat → Barrier.SsmpBarrier} {p q : args.Id}
variable {x : Whole b.layout args.numProcs (Proc b.layout.Payload)}
variable {a : Meetings args.Id b.layout.Payload (Proc b.layout.Payload)}

/-- The programs with the library as `ssmp_init` leaves it. -/
def onLibrary (b : Build) (V : Variant) (args : OneToOneArgs) (W : MsgWords b.layout.Payload)
    (buf : args.Id → b.layout.Payload) (old : Nat → Barrier.SsmpBarrier) :
    TransSys (Whole b.layout args.numProcs (Proc b.layout.Payload)) args.Id :=
  Whole.system b (network V args W buf) (hall args) (Barrier.ssmpInitBarriers old)

theorem refined (h : (onLibrary b V args W buf old).Reachable x) :
    ∃ a, (Meetings.system (network V args W buf)
        (Whole.halls (hall args) (Barrier.ssmpInitBarriers old))).Reachable a ∧
      Whole.Rel b (network V args W buf) (hall args) (Barrier.ssmpInitBarriers old) x a :=
  Whole.refines (fun _ hb => (Barrier.initBarriers_ready hb).counted) args.numProcs_le
    (fun a _ => safe a.net) h

/-- What a receiver has sent back of the messages it has taken. -/
theorem Stage.replied {l : Proc b.layout.Payload} {i j : Nat} (h : Stage V args W buf p l i j)
    (hp : args.receives p = true) : i ≤ j ∧ j ≤ i + 1 := by
  cases h with
  | send hp' _ _ _ _ _ => simp [hp] at hp'
  | await _ hp' _ _ _ _ => simp [hp] at hp'
  | _ => omega

/-- What a receiver has taken when it has left its loop. -/
theorem Stage.received {l : Proc b.layout.Payload} {i j : Nat} (h : Stage V args W buf p l i j)
    (hp : args.receives p = true) (hpc : l.pc = .closing ∨ l.pc = .done) :
    j = args.total ∧ 0 < j ∧ l.totalSamples = (V.samples * Int32.ofNat j).toInt := by
  cases h with
  | past _ htotal => exact ⟨rfl, htotal hp⟩
  | opening hpc' _ _ _ => simp [hpc'] at hpc
  | recv _ hpc' _ _ _ => simp [hpc'] at hpc
  | reply _ _ hpc' _ _ _ _ => simp [hpc'] at hpc
  | send _ hpc' _ _ _ _ => simp [hpc'] at hpc
  | await _ _ hpc' _ _ _ => simp [hpc'] at hpc

theorem next_eq_stop (p : args.Id) (l : Proc b.layout.Payload) :
    (network V args W buf).next p l = .stop ↔ l.pc = .done := by
  cases hpc : l.pc with
  | _ => simp [network, next, hpc]

theorem scansColors : ScansColors (network V args W buf) :=
  fun p l srcs k hk => absurd hk (noScan p l srcs k)

/-- If there is a message to send, every run on any build of the library can be continued until all
processes have come to their end. -/
theorem library_pairs_end (hmsgs : 0 < args.numMsgs)
    (h : (onLibrary b V args W buf old).Reachable x) :
    ∃ y, (onLibrary b V args W buf old).Steps x y ∧
      ∀ p, y.busy p = false ∧ y.inWait p = false ∧ (y.loc p).pc = .done := by
  rcases Whole.library_completes args.numProcs_le (fun _ hb => Barrier.initBarriers_ready hb)
    scansColors (fun a _ => safe a.net)
    (fun a ha hblocked p => (next_eq_stop _ _).2
      (done_of_blocked (total_pos_iff.2 hmsgs) rfl ha hblocked p))
    (ranked (H := Whole.halls (hall args) (Barrier.ssmpInitBarriers old))).lowers h with
    ⟨y, hsteps, hstopped⟩
  exact ⟨y, hsteps, fun p =>
    ⟨(hstopped p).1, (hstopped p).2.1, (next_eq_stop _ _).1 (hstopped p).2.2⟩⟩

/-- A process in a call is in its loop, on the network too. -/
theorem pos_of_busy (hcloses : V.closes = true)
    (hrel : Whole.Rel b (network V args W buf) (hall args) (Barrier.ssmpInitBarriers old) x a)
    (hbusy : x.busy p = true) : pos V args (a.net.loc p) = V.opening := by
  have hphase := hrel.phase p
  rw [hbusy] at hphase
  cases hphase with
  | @giving d m k pub hact _ hloc _ =>
      rcases hact with hact | hact
      · have hpos := pos_of_put hcloses hact
        have hloc' : a.net.loc p = if pub = true then k else x.loc p := hloc
        rw [hloc']
        split
        · exact hpos.2
        · exact hpos.1
      · exact absurd hact waits_to_put
  | pulling hact _ hloc _ =>
      have hloc' : a.net.loc p = x.loc p := hloc
      rw [hloc']
      exact (pos_of_take hcloses hact (buf p)).1
  | pulled hact _ hloc _ =>
      have hloc' : a.net.loc p = _ := hloc
      rw [hloc']
      exact (pos_of_take hcloses hact _).2
  | scanning hact _ _ _ _ => exact absurd hact (noScan _ _ _ _)
  | reading hact _ _ _ _ _ => exact absurd hact (noScan _ _ _ _)
  | leaving hact _ _ _ _ => exact absurd hact (noScan _ _ _ _)
  | read hact _ _ _ _ => exact absurd hact (noScan _ _ _ _)

/-- Process `p` has printed its report: it has begun its turn of the last loop, and has come to the
barrier behind the report. -/
def Printed (V : Variant) (x : Whole b.layout args.numProcs (Proc b.layout.Payload)) (p : args.Id) :
    Prop :=
  (x.loc p).reported = true ∧
    (x.inWait p = true ∨ V.opening + p.val < pos V args (x.loc p))

/-- When a process begins the turn of its report, every process with a smaller id has printed its own.
This is so for the processes that barrier 0 holds, those with ids below 64. -/
def ReportsInOrder (V : Variant) (x : Whole b.layout args.numProcs (Proc b.layout.Payload)) : Prop :=
  ∀ p q : args.Id, p < q → q.val < 64 → x.busy q = false → (x.loc q).reported = true →
    x.busy p = false ∧ Printed V x p

theorem library_reports {roundTrip : Bool}
    (h : (onLibrary b (one2one roundTrip) args W buf old).Reachable x) :
    ReportsInOrder (one2one roundTrip) x := by
  rcases refined h with ⟨a, ha, hrel⟩
  intro p q hlt hq hidle hrep
  have hmember : ∀ r : args.Id, r.val < 64 →
      (Whole.halls (σ := Proc b.layout.Payload) (hall args)
        (Barrier.ssmpInitBarriers old)).member 0 r = true := by
    intro r hr
    simp [Whole.halls, Barrier.default_member (b := 0) (by decide) (by decide), hr,
      Barrier.ssmpNumBarriers]
  have hlt' : p.val < q.val := hlt
  rw [← hrel.loc hidle] at hrep
  have hbehind := behind_report rfl rfl ha (hmember p (by omega)) (hmember q hq) hlt' hrep
  have hbusy : x.busy p = false := by
    by_contra hbusy
    have hbusy' : x.busy p = true := by simpa using hbusy
    have hpos := pos_of_busy rfl hrel hbusy'
    rcases hbehind with hpast | ⟨_, hin⟩
    · omega
    · have hout := hrel.inWait_of_busy hbusy'
      exact absurd (hout.symm.trans (hrel.inWait_of_waits hin)) (by decide)
  have hreported := reports_in_order rfl rfl ha (hmember p (by omega)) (hmember q hq) hlt' hrep
  rw [hrel.loc hbusy] at hbehind hreported
  refine ⟨hbusy, hreported, ?_⟩
  rcases hbehind with hpast | ⟨_, hin⟩
  · exact Or.inr hpast
  · exact Or.inl (hrel.inWait_of_waits hin)

end Library

/-! ### One message -/

section OneMessage

def oneMessage : OneToOneArgs where
  numProcs := defaultNumProcs
  numMsgs := 1
  numProcs_pos := Nat.two_pos
  numProcs_even := rfl
  numProcs_le := by decide
  numMsgs_ge := by decide
  numMsgs_lt := by decide

def firstProc : oneMessage.Id := ⟨0, Nat.two_pos⟩

def secondProc : oneMessage.Id := ⟨1, Nat.one_lt_two⟩

/-- The message has been sent and received, and the turn of the second report has begun. -/
def secondReport : Whole plainBuild.layout oneMessage.numProcs (Proc plainBuild.layout.Payload) :=
  Whole.after plainBuild (fun _ => 0)
    (network (one2one false) oneMessage ClientServer.plainWords fun _ _ => 7) (hall oneMessage)
    (Barrier.ssmpInitBarriers Whole.zeroBarriers)
    (Whole.bothPass secondProc firstProc ++ Whole.bothPass secondProc firstProc ++
      List.replicate 20 secondProc ++ List.replicate 20 firstProc ++
      Whole.bothPass secondProc firstProc)

theorem reachable_secondReport :
    (onLibrary plainBuild (one2one false) oneMessage ClientServer.plainWords (fun _ _ => 7)
      Whole.zeroBarriers).Reachable secondReport :=
  Whole.reachable_after _

theorem library_network_secondReport :
    ∃ a, (Meetings.system
        (network (one2one false) oneMessage ClientServer.plainWords fun _ _ => 7)
        (Whole.halls (hall oneMessage) (Barrier.ssmpInitBarriers Whole.zeroBarriers))).Reachable a ∧
      secondReport.sys.recvd (secondProc, firstProc) = (a.net.chan (secondProc, firstProc)).outs := by
  rcases Whole.library_network (fun _ hb => Barrier.initBarriers_ready hb) (by decide)
    (fun a _ => safe a.net) reachable_secondReport with ⟨a, ha, hchan, _⟩
  exact ⟨a, ha, (hchan _).2.1⟩

theorem library_completes_secondReport :
    ∃ y, (onLibrary plainBuild (one2one false) oneMessage ClientServer.plainWords (fun _ _ => 7)
      Whole.zeroBarriers).Steps secondReport y ∧ ∀ p, y.busy p = false := by
  rcases Whole.library_completes (by decide) (fun _ hb => Barrier.initBarriers_ready hb) scansColors
    (fun a _ => safe a.net)
    (fun a ha hblocked p => (next_eq_stop _ _).2
      (done_of_blocked (by decide) rfl ha hblocked p))
    (ranked (H := Whole.halls (hall oneMessage) (Barrier.ssmpInitBarriers Whole.zeroBarriers))).lowers
    reachable_secondReport with ⟨y, hsteps, hstopped⟩
  exact ⟨y, hsteps, fun p => (hstopped p).1⟩

/-- The second process waits for the first. -/
def waiting : Whole plainBuild.layout oneMessage.numProcs (Proc plainBuild.layout.Payload) :=
  Whole.after plainBuild (fun _ => 0)
    (network (one2one false) oneMessage ClientServer.plainWords fun _ _ => 7) (hall oneMessage)
    (Barrier.ssmpInitBarriers Whole.zeroBarriers) (List.replicate 4 secondProc)

theorem step_waiting :
    Whole.Step plainBuild (network (one2one false) oneMessage ClientServer.plainWords fun _ _ => 7)
      (hall oneMessage) waiting secondProc waiting := by
  have hin : waiting.inWait secondProc = true := by decide +kernel
  have hsame : waiting.bars.step secondProc = waiting.bars := by
    rcases @Barrier.step_rank _ waiting.bars secondProc with hsame | hlt
    · exact hsame
    · exact absurd hlt (by decide +kernel)
  have hstep := @Whole.Step.access _ _ plainBuild
    (network (one2one false) oneMessage ClientServer.plainWords fun _ _ => 7) (hall oneMessage)
    waiting secondProc hin
  rwa [hsame] at hstep

theorem library_rests_waiting :
    ∃ y, (onLibrary plainBuild (one2one false) oneMessage ClientServer.plainWords (fun _ _ => 7)
      Whole.zeroBarriers).Steps waiting y ∧ ¬ Whole.OnlyCursors waiting y := by
  rcases Whole.library_rests (f := fun _ => waiting) (l := fun _ => secondProc) (by decide)
    (fun _ hb => Barrier.initBarriers_ready hb) scansColors (fun a _ => safe a.net)
    (fun a ha hblocked p => (next_eq_stop _ _).2
      (done_of_blocked (by decide) rfl ha hblocked p))
    (ranked (H := Whole.halls (hall oneMessage) (Barrier.ssmpInitBarriers Whole.zeroBarriers))).lowers
    (Whole.reachable_after _) (fun _ => step_waiting) with ⟨k, hrest⟩
  rcases (hrest 0).2 with ⟨y, hsteps, _, hmore⟩
  exact ⟨y, hsteps, hmore⟩

theorem library_pairs_end_secondReport :
    ∃ y, (onLibrary plainBuild (one2one false) oneMessage ClientServer.plainWords (fun _ _ => 7)
      Whole.zeroBarriers).Steps secondReport y ∧ (y.loc secondProc).pc = .done := by
  rcases library_pairs_end (by decide) reachable_secondReport with ⟨y, hsteps, hdone⟩
  exact ⟨y, hsteps, (hdone secondProc).2.2⟩

theorem library_reports_secondReport :
    (secondReport.loc secondProc).reported = true ∧
      Printed (one2one false) secondReport firstProc := by
  have hrep : (secondReport.loc secondProc).reported = true := by decide +kernel
  have hidle : secondReport.busy secondProc = false := by decide +kernel
  exact ⟨hrep, (library_reports reachable_secondReport firstProc secondProc (by decide) (by decide)
    hidle hrep).2⟩

end OneMessage

end OneToOne
end Bench
end Ssmp
