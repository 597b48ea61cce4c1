import Ssmp.Bench.ClientServerMainEnd
import Ssmp.Whole.Completion

/-!
# Bench.ClientServerMainLibrary — `benchmarks/client_server.c` on the whole library

With the messages and the barriers of a build of the library, and if barrier 0 holds all processes, the
reports of the clients are kept apart from the requests: none is sent before every process has left its
loop, and process 0 adds them up in the order of the ids (`library_throughputs`).  All processes come to
their end, and process 0 has then added up the reports of all clients (`library_total`).
-/

namespace Ssmp
namespace Bench

open Lib Network

namespace ClientServer
namespace Main

/-! ## The barriers -/

section Barriers

variable {args : ClientServerArgs} {xeon : Bool} {old : Nat → Barrier.SsmpBarrier} {n : Nat}

/-- Barrier 0 holds all processes: it has a color function in a build with `XEON`, and elsewhere the
bitmap of all ones. -/
def HoldsAll (args : ClientServerArgs) (xeon : Bool) : Prop :=
  xeon = true ∨ args.numProcs ≤ 64

theorem barriers_ready : ∀ b < Barrier.ssmpNumBarriers, (barriers args xeon old b).Ready n := by
  have hall : ∀ _id : Nat, (1 : Int32) = 0 ∨ (1 : Int32) = 1 := fun _ => Or.inr rfl
  have hinit : ∀ b < Barrier.ssmpNumBarriers, (Barrier.ssmpInitBarriers old b).Ready n :=
    fun b hb => Barrier.initBarriers_ready hb
  have hapart := Barrier.ready_color 1 0 (colorApp1 args.dslPerCore)
    (Barrier.ready_color 2 0 (colorDsl args.dslPerCore) hinit)
  cases xeon with
  | false => exact hapart
  | true => exact Barrier.ready_init 5 0 hall (Barrier.ready_init 0 0 hall hapart)

theorem member_zero (hholds : HoldsAll args xeon) (p : args.Id) :
    (barriers args xeon old 0).member p = true := by
  cases xeon with
  | true =>
      simp only [barriers, if_true]
      rw [Barrier.init_other (by decide), Barrier.color_member (by decide)]
      rfl
  | false =>
      have hle : args.numProcs ≤ 64 := hholds.resolve_left (by decide)
      simp only [barriers, Bool.false_eq_true, if_false]
      rw [Barrier.init_other (by decide), Barrier.init_other (by decide),
        Barrier.default_member (by decide) (by decide)]
      exact decide_eq_true (Nat.lt_of_lt_of_le p.isLt hle)

end Barriers

/-! ## On the library -/

section Library

open Whole

variable {b : Build} {args : ClientServerArgs} {reply : Reply} {W : MsgWords b.layout.Payload}
variable {report : args.Id → b.layout.Payload → b.layout.Payload} {buf : args.Id → b.layout.Payload}
variable {xeon : Bool} {old : Nat → Barrier.SsmpBarrier} {p q c d : args.Id}
variable {x : Whole b.layout args.numProcs (Proc b.layout.Payload)}
variable {a : Meetings args.Id b.layout.Payload (Proc b.layout.Payload)}

/-- The programs with the library as `ssmp_init` and `main` leave it. -/
def onLibrary (b : Build) (args : ClientServerArgs) (reply : Reply) (W : MsgWords b.layout.Payload)
    (report : args.Id → b.layout.Payload → b.layout.Payload) (buf : args.Id → b.layout.Payload)
    (xeon : Bool) (old : Nat → Barrier.SsmpBarrier) :
    TransSys (Whole b.layout args.numProcs (Proc b.layout.Payload)) args.Id :=
  Whole.system b (network args reply W report buf) (hall args) (barriers args xeon old)

/-- What the barriers hold. -/
abbrev hallsOf (args : ClientServerArgs) (M : Type) (xeon : Bool) (old : Nat → Barrier.SsmpBarrier) :
    Halls args.Id (Proc M) :=
  Whole.halls (hall args) (barriers args xeon old)

theorem halls_member {M : Type} (hholds : HoldsAll args xeon) (p : args.Id) :
    (hallsOf args M xeon old).member 0 p = true := by
  simp [hallsOf, Whole.halls, member_zero hholds, Barrier.ssmpNumBarriers]

theorem halls_none {M : Type} (p : args.Id) :
    (hallsOf args M xeon old).member Barrier.ssmpNumBarriers p = false := by
  simp [hallsOf, Whole.halls]

theorem scansColors : ScansColors (network args reply W report buf) := by
  intro p l srcs k hnext
  cases hpc : l.pc with
  | loop =>
      rcases map_eq_scan ((next_loop hpc).symm.trans hnext) with ⟨k', hk, _⟩
      cases hloop : l.loop with
      | client cl =>
          rw [hloop] at hk
          cases hpc' : cl.pc with
          | done => simp [ClientServer.next, Client.next, hpc'] at hk
          | _ =>
              simp only [ClientServer.next, Client.next, hpc'] at hk
              rcases Procs.exists_of_atId hk (by simp) with ⟨_, _, hact⟩
              cases hact
      | server sv =>
          rw [hloop] at hk
          cases hpc' : sv.pc with
          | recv =>
              simp only [ClientServer.next, Server.next, hpc', Action.scan.injEq] at hk
              exact ⟨_, hk.1⟩
          | done => simp [ClientServer.next, Server.next, hpc'] at hk
          | reply =>
              simp only [ClientServer.next, Server.next, hpc'] at hk
              rcases Procs.exists_of_atId hk (by simp) with ⟨_, _, hact⟩
              split at hact <;> cases hact
  | _ =>
      have hout : inside p l = false := by simp [inside, hpc]
      exact absurd hnext ((part (H := hallsOf args _ false fun _ => zeroBarriers 0) rfl
        halls_none).noScan p l srcs k hout)

section Run

variable (hmsgs : args.numDsl < args.numMsgs) (hholds : HoldsAll args xeon)

include hmsgs hholds

theorem refined (h : (onLibrary b args reply W report buf xeon old).Reachable x) :
    ∃ a, (Meetings.system (network args reply W report buf)
        (hallsOf args _ xeon old)).Reachable a ∧
      Whole.Rel b (network args reply W report buf) (hall args) (barriers args xeon old) x a :=
  Whole.refines (fun bar hb => (barriers_ready bar hb).counted) Procs.numProcs_le_256
    (fun _ ha => safe hmsgs rfl (halls_member hholds) halls_none ha) h

omit hmsgs in
/-- A process in its loop, or before it, keeps all others from the turns with something to do. -/
theorem quiet_of_early (ha : (Meetings.system (network args reply W report buf)
      (hallsOf args _ xeon old)).Reachable a)
    (hrel : Whole.Rel b (network args reply W report buf) (hall args) (barriers args xeon old) x a)
    (hp : (x.loc p).pc = .opening ∨ (x.loc p).pc = .loop) (q : args.Id) :
    behind args (a.net.loc q) ≤ 1 := by
  have hearly : pos args (a.net.loc p) ≤ 2 ∧
      (pos args (a.net.loc p) = 2 → a.net.waits p = false) := by
    have hahead : a.net.loc p = x.loc p ∨
        Linked.Behind (next args reply W report p (x.loc p)) (a.net.loc p) :=
      (hrel.linked.phase p).ahead
    rcases hp with hpc | hpc
    · rw [next_opening hpc] at hahead
      have hsame : a.net.loc p = x.loc p := hahead.resolve_right id
      have hfit := fit ha p
      rw [hsame] at hfit ⊢
      cases hfit with
      | opening _ hco _ =>
          have hpos : pos args (x.loc p) = (x.loc p).co := by simp [pos, hpc]
          omega
      | loop hpc' _ => simp [hpc] at hpc'
      | report hpc' _ _ _ _ => simp [hpc] at hpc'
      | gather hpc' _ _ _ _ => simp [hpc] at hpc'
      | turn hpc' _ _ _ => simp [hpc] at hpc'
      | past hpc' _ => simp [hpc] at hpc'
    · have hout : x.inWait p = false := by
        by_contra hin
        rcases (hrel.idle p (by simpa using hin)).2 with ⟨k, hk⟩
        rcases map_eq_meet ((next_loop hpc).symm.trans hk) with ⟨_, hmeet, _⟩
        exact loops_not_meet hmeet
      have hwaits : a.net.waits p = false := by
        by_contra hin
        have hin' := hrel.inWait_of_waits (by simpa using hin)
        exact absurd (hout.symm.trans hin') (by decide)
      refine ⟨?_, fun _ => hwaits⟩
      rcases hahead with hsame | hbehind
      · rw [hsame]
        simp [pos, hpc]
      · rw [next_loop hpc] at hbehind
        have hleads := leads_of_behind hbehind
        rcases leads_map hleads with ⟨k, _, hk⟩
        rw [hk, pos_enter]
  by_contra hmore
  have hpos : 2 < pos args (a.net.loc q) := by
    rcases behind_le_pos (fit ha q) with hle | hzero <;> omega
  have hbarrier : (seq args)[2]? = some 0 := by
    rw [seq, List.getElem?_replicate, if_pos (by omega)]
  rcases (inOrder rfl).together ha hpos hbarrier (halls_member hholds q) (halls_member hholds p) with
    hlt | ⟨heq, hwaits⟩
  · omega
  · rw [hearly.2 heq.symm] at hwaits
    cases hwaits

omit hmsgs hholds in
/-- A process behind its loop has left it on the network too, with the same message. -/
theorem loop_of_past (ha : (Meetings.system (network args reply W report buf)
      (hallsOf args _ xeon old)).Reachable a)
    (hrel : Whole.Rel b (network args reply W report buf) (hall args) (barriers args xeon old) x a)
    (hp : (x.loc p).pc ≠ .opening ∧ (x.loc p).pc ≠ .loop) :
    (a.net.loc p).loop = (x.loc p).loop ∧ (a.net.loc p).loop.over = true := by
  have hahead : a.net.loc p = x.loc p ∨
      Linked.Behind (next args reply W report p (x.loc p)) (a.net.loc p) :=
    (hrel.linked.phase p).ahead
  have hloop : (a.net.loc p).loop = (x.loc p).loop ∧
      (a.net.loc p).pc ≠ .opening ∧ (a.net.loc p).pc ≠ .loop := by
    rcases hahead with hsame | hbehind
    · rw [hsame]
      exact ⟨rfl, hp⟩
    · have hleads := leads_of_behind hbehind
      cases hpc : (x.loc p).pc with
      | opening => exact absurd hpc hp.1
      | loop => exact absurd hpc hp.2
      | report =>
          rw [next_report hpc] at hleads
          have hk : a.net.loc p = _ := hleads
          rw [hk]
          exact ⟨rfl, by simp, by simp⟩
      | gather =>
          simp only [next, hpc, Procs.atId] at hleads
          split at hleads
          · rcases hleads with ⟨m, hk⟩
            rw [hk]
            exact ⟨rfl, by simp, by simp⟩
          · exact hleads.elim
      | turn =>
          rw [next_turn hpc] at hbehind
          exact hbehind.elim
      | last =>
          rw [next_last hpc] at hbehind
          exact hbehind.elim
      | done =>
          rw [next_done hpc] at hbehind
          exact hbehind.elim
  refine ⟨hloop.1, ?_⟩
  cases fit ha p with
  | opening hpc _ _ => exact absurd hpc hloop.2.1
  | loop hpc _ => exact absurd hpc hloop.2.2
  | report _ hover _ _ _ => exact hover
  | gather _ hover _ _ _ => exact hover
  | turn _ hover _ _ => exact hover
  | past _ hover => exact hover

omit hmsgs in
/-- A client that has sent its report is behind its loop. -/
theorem past_of_reported (ha : (Meetings.system (network args reply W report buf)
      (hallsOf args _ xeon old)).Reachable a)
    (hrel : Whole.Rel b (network args reply W report buf) (hall args) (barriers args xeon old) x a)
    (happ : args.isApp c = true) (hlt : c.val < behind args (a.net.loc c)) (q : args.Id) :
    (x.loc q).pc ≠ .opening ∧ (x.loc q).pc ≠ .loop := by
  have hpos := Procs.pos_of_isApp happ
  have hnot : ¬ ((x.loc q).pc = .opening ∨ (x.loc q).pc = .loop) := by
    intro hq
    have hle := quiet_of_early hholds ha hrel hq c
    omega
  exact not_or.1 hnot

/-- What client `c` has sent to server `d`, and what `d` has received: requests `reqs`, and behind them
the report of the client, if `d` is process 0. -/
structure Traffic (args : ClientServerArgs) {L : MsgLayout} (W : MsgWords L.Payload)
    (report : args.Id → L.Payload → L.Payload) (x : Whole L args.numProcs (Proc L.Payload))
    (c d : args.Id) (reqs reps : List L.Payload) : Prop where
  sent : x.sys.sent (c, d) = reqs ++ reps
  recvd : x.sys.recvd (c, d) <+: reqs ++ reps
  script : reqs.map (word0 W) <+: script args d.val args.numMsgs
  report : reps = [] ∨ d = args.first ∧ reps = [report c (x.loc c).loop.msg]
  apart : reps ≠ [] → ∀ q, (x.loc q).pc ≠ .opening ∧ (x.loc q).pc ≠ .loop
  complete : (x.loc d).pc ≠ .opening ∧ (x.loc d).pc ≠ .loop →
    reqs.map (word0 W) = ClientServer.script args d.val args.numMsgs ∧ reqs <+: x.sys.recvd (c, d)

omit hmsgs hholds in
theorem outs_reportOn {v : State args.Id b.layout.Payload (Proc b.layout.Payload)}
    {ch : OnePlace b.layout.Payload} : ch.outs <+: (reportOn args report v c d ch).outs := by
  unfold reportOn
  split_ifs
  · exact List.prefix_append _ _
  · exact List.prefix_refl _
  · exact List.prefix_refl _

theorem traffic (h : (onLibrary b args reply W report buf xeon old).Reachable x)
    (hc : args.isApp c = true) (hd : args.isDsl d = true) :
    ∃ reqs reps, Traffic args W report x c d reqs reps := by
  rcases refined hmsgs hholds h with ⟨a, ha, hrel⟩
  rcases belongs hmsgs rfl (halls_member hholds) halls_none ha with ⟨r, hr⟩
  have hchan := hr.sim.chan c d
  have hfifo := Meetings.fifo (fun _ ha => safe hmsgs rfl (halls_member hholds) halls_none ha) ha (c, d)
  have hscript := (sent_script hr.reachable hc d).1
  have hcomplete : (x.loc d).pc ≠ .opening ∧ (x.loc d).pc ≠ .loop →
      (r.chan (c, d)).ins.map (word0 W) = script args d.val args.numMsgs ∧
        (r.chan (c, d)).ins <+: x.sys.recvd (c, d) := by
    intro hpast
    have hover := (loop_of_past ha hrel hpast).2
    rw [← hr.loc] at hover
    rcases exists_server hr.reachable hd with ⟨sv, hloc⟩
    rw [hloc] at hover
    have hall := complete_of_done hmsgs hr.reachable hloc (of_decide_eq_true hover) hc
    have heq := ((exchange hr.reachable).fifo (c, d)).ins_eq (place_of_complete hr.reachable hc hall)
    refine ⟨by rw [heq, hall], ?_⟩
    rw [heq, hrel.recvd, hchan]
    exact outs_reportOn
  by_cases hrep : d = args.first ∧ c.val < behind args (a.net.loc c)
  · -- the report has been sent
    have hpast := past_of_reported hholds ha hrel hc hrep.2
    have hsent : x.sys.sent (c, d) = (r.chan (c, d)).ins ++ [throughput args report a.net c] := by
      rw [hrel.sent, hchan, reportOn, if_pos ⟨hc, hrep⟩]
      split_ifs <;> rfl
    refine ⟨_, _, hsent, ?_, hscript, Or.inr ⟨hrep.1, ?_⟩, fun _ => hpast, hcomplete⟩
    · rw [← hsent, hrel.sent, hrel.recvd]
      exact hfifo.outs_isPrefix
    · rw [throughput, (loop_of_past ha hrel (hpast c)).1]
  · have hsent : x.sys.sent (c, d) = (r.chan (c, d)).ins ++ [] := by
      rw [hrel.sent, hchan, reportOn, if_neg fun hall => hrep hall.2, List.append_nil]
    refine ⟨_, _, hsent, ?_, hscript, Or.inl rfl, fun hne => absurd rfl hne, hcomplete⟩
    rw [← hsent, hrel.sent, hrel.recvd]
    exact hfifo.outs_isPrefix

/-- Process 0 between two calls has added up the reports of the clients whose turn it has behind it. -/
theorem added_eq (h : (onLibrary b args reply W report buf xeon old).Reachable x)
    (hidle : x.busy args.first = false) : (x.loc args.first).added =
      (args.appsBelow (behind args (x.loc args.first))).map fun c =>
        report c (x.loc c).loop.msg := by
  rcases refined hmsgs hholds h with ⟨a, ha, hrel⟩
  rcases belongs hmsgs rfl (halls_member hholds) halls_none ha with ⟨r, hr⟩
  have hadded := hr.sim.added
  rw [hrel.loc hidle] at hadded
  rw [hadded]
  refine List.map_congr_left ?_
  intro c hc
  rcases Procs.mem_appsBelow.1 hc with ⟨hlt, happ⟩
  rw [← hrel.loc hidle] at hlt
  have hpast := past_of_reported hholds ha hrel happ (hr.sim.reported c happ hlt)
  rw [throughput, (loop_of_past ha hrel (hpast c)).1]

/-- In every run on any build of the library, if barrier 0 holds all processes and there are more
messages than servers: a client sends a server the requests of its script, and process 0 one report
behind them.  No report is sent before every process has left its loop, and a server that has left its
loop has received all requests.  Process 0 adds up the reports in the order of the ids. -/
theorem library_throughputs (h : (onLibrary b args reply W report buf xeon old).Reachable x) :
    (∀ c d, args.isApp c = true → args.isDsl d = true →
      ∃ reqs reps, Traffic args W report x c d reqs reps) ∧
      (x.busy args.first = false → (x.loc args.first).added =
        (args.appsBelow (behind args (x.loc args.first))).map fun c =>
          report c (x.loc c).loop.msg) :=
  ⟨fun _ _ hc hd => traffic hmsgs hholds h hc hd, added_eq hmsgs hholds h⟩

/-- Every run on any build of the library can then be continued until all processes have come to their
end, and process 0 has added up the reports of all clients, in the order of the ids. -/
theorem library_total (h : (onLibrary b args reply W report buf xeon old).Reachable x) :
    ∃ y, (onLibrary b args reply W report buf xeon old).Steps x y ∧
      (∀ p, y.busy p = false ∧ y.inWait p = false ∧ (y.loc p).pc = .done) ∧
      (y.loc args.first).added =
        (args.appsBelow args.numProcs).map fun c => report c (y.loc c).loop.msg := by
  have hlive : ∀ a,
      (Meetings.system (network args reply W report buf) (hallsOf args _ xeon old)).Reachable a →
      (∀ p, Meetings.Blocked (network args reply W report buf) (hallsOf args _ xeon old) a p) →
        ∀ p, (network args reply W report buf).next p (a.net.loc p) = .stop :=
    fun a ha hblocked p =>
      next_done (done_of_blocked hmsgs rfl (halls_member hholds) halls_none ha hblocked p)
  rcases Whole.library_completes Procs.numProcs_le_256 barriers_ready scansColors
    (fun _ ha => safe hmsgs rfl (halls_member hholds) halls_none ha) hlive
    (ranked hmsgs rfl (halls_member hholds) halls_none).lowers h with ⟨y, hsteps, hstopped⟩
  have hy := h.steps hsteps
  have hdone : ∀ p, (y.loc p).pc = .done := by
    intro p
    rcases refined hmsgs hholds hy with ⟨a, ha, hrel⟩
    have hloc := hrel.loc (hstopped p).1
    rw [← hloc]
    refine done_of_stop hmsgs rfl (halls_member hholds) halls_none ha ?_
    rw [hloc]
    exact (hstopped p).2.2
  refine ⟨y, hsteps, fun p => ⟨(hstopped p).1, (hstopped p).2.1, hdone p⟩, ?_⟩
  rw [added_eq hmsgs hholds hy (hstopped _).1, behind, hdone]

end Run

end Library

/-! ### Two requests -/

section Pair

theorem pair_msgs : pairArgs.numDsl < pairArgs.numMsgs := by decide +kernel

theorem pair_holds : HoldsAll pairArgs false := Or.inr (by decide)

/-- What the run of the schedule comes to. -/
def afterPair (schedule : List pairArgs.Id) :
    Whole plainBuild.layout pairArgs.numProcs (Proc plainBuild.layout.Payload) :=
  Whole.after plainBuild (fun id => if colorApp1 pairArgs.dslPerCore id.toNat then 1 else 0)
    (network pairArgs .sync plainWords (fun _ m => m) fun _ _ => 7) (hall pairArgs)
    (barriers pairArgs false Whole.zeroBarriers) schedule

theorem reachable_afterPair (schedule : List pairArgs.Id) :
    (onLibrary plainBuild pairArgs .sync plainWords (fun _ m => m) (fun _ _ => 7) false
      Whole.zeroBarriers).Reachable (afterPair schedule) :=
  Whole.reachable_after _

/-- A request is sent, taken, sent back and received.  The scan of the server takes 22 steps, and the
other calls 20. -/
def exchanged : List pairArgs.Id :=
  List.replicate 20 pairClient ++ List.replicate 42 pairServer ++ List.replicate 20 pairClient

/-- Behind the barriers before the loops one request is served. -/
def oneServed : List pairArgs.Id :=
  Whole.bothPass pairClient pairServer ++ Whole.bothPass pairClient pairServer ++ exchanged

/-- Then so is the last one, and behind the loops the client sends its report in the second turn, and
process 0 takes it. -/
def reportTaken : List pairArgs.Id :=
  oneServed ++ exchanged ++ Whole.bothPass pairClient pairServer ++ List.replicate 20 pairClient ++
    List.replicate 20 pairServer

theorem library_throughputs_reportTaken :
    ((afterPair reportTaken).loc pairServer).added =
        [((afterPair reportTaken).loc pairClient).loop.msg] ∧
      ∃ reqs, reqs.map (word0 plainWords) = [1, 0] ∧
        (afterPair reportTaken).sys.sent (pairClient, pairServer) =
          reqs ++ [((afterPair reportTaken).loc pairClient).loop.msg] := by
  have hmain := library_throughputs pair_msgs pair_holds (reachable_afterPair reportTaken)
  -- the turn of the client is over
  have hbelow : pairArgs.appsBelow (behind pairArgs ((afterPair reportTaken).loc pairServer)) =
      [pairClient] := by decide +kernel
  have hlen : ((afterPair reportTaken).sys.sent (pairClient, pairServer)).length = 3 := by
    decide +kernel
  have hpast : ((afterPair reportTaken).loc pairServer).pc ≠ .opening ∧
      ((afterPair reportTaken).loc pairServer).pc ≠ .loop :=
    ⟨by decide +kernel, by decide +kernel⟩
  have hscript : script pairArgs pairServer.val pairArgs.numMsgs = [1, 0] := by decide +kernel
  refine ⟨?_, ?_⟩
  · have hadded := hmain.2 (by decide +kernel)
    have hfirst : pairArgs.first = pairServer := rfl
    rw [hfirst, hbelow] at hadded
    exact hadded
  · rcases hmain.1 pairClient pairServer (by decide) (by decide) with ⟨reqs, reps, htraffic⟩
    have hreqs := (htraffic.complete hpast).1.trans hscript
    have htwo : reqs.length = 2 := by rw [← List.length_map, hreqs]; rfl
    rw [htraffic.sent, List.length_append, htwo] at hlen
    -- the third message is the report
    rcases htraffic.report with hnone | ⟨_, hrep⟩
    · rw [hnone] at hlen
      cases hlen
    · exact ⟨reqs, hreqs, by rw [htraffic.sent, hrep]⟩

theorem library_total_oneServed :
    ∃ y, (onLibrary plainBuild pairArgs .sync plainWords (fun _ m => m) (fun _ _ => 7) false
      Whole.zeroBarriers).Steps (afterPair oneServed) y ∧
      (y.loc pairServer).added = [(y.loc pairClient).loop.msg] := by
  rcases library_total pair_msgs pair_holds (reachable_afterPair oneServed) with
    ⟨y, hsteps, _, hadded⟩
  exact ⟨y, hsteps, hadded⟩

end Pair

end Main
end ClientServer
end Bench
end Ssmp
