import Ssmp.Bench.BankMainEnd
import Ssmp.Bench.RoundTrip
import Ssmp.Whole.Completion

/-!
# Bench.BankMainLibrary — `benchmarks/bank.c` on the whole library

With the messages and the barriers of a build of the library, the servers keep the books as long as
process 1 has not come to `EXIT` (`library_accounts`).  If barrier 0 holds all processes, what process 0
adds up are the throughputs of the applications and nothing else (`library_added`): it cannot take a
request for one.  What can happen instead is that all wait for ever, and there is one reason for it: that
process 0 has left a deposit in its slot, or has taken a throughput for `EXIT` (`library_ends`,
`library_ends_iff`).
-/

namespace Ssmp
namespace Bench

open Lib Network Accounts

namespace Bank

/-! ## Behind a call -/

section Behind

variable {b : Build} {run : BankRun} {W : MsgWords b.layout.Payload}
variable {report : run.Id → b.layout.Payload → b.layout.Payload}

/-- Behind the call of an application that has not come to the barrier there is another call, the
reply to it, or the barrier. -/
theorem pc_of_behind {p : run.Id} {a a' : App b.layout.Payload run.Id}
    (hpc : a.pc = .call ∨ a.pc = .await ∨ a.pc = .barrier)
    (h : Linked.Behind (bankApp run W report p a) (.app a')) :
    a'.pc = .call ∨ a'.pc = .await ∨ a'.pc = .barrier := by
  have hloop : ∀ msg ops, a' = App.loop run msg ops →
      a'.pc = .call ∨ a'.pc = .await ∨ a'.pc = .barrier := by
    rintro msg ops rfl
    rcases @pc_loop run b.layout.Payload msg ops with hpc | hpc
    · exact Or.inl hpc
    · exact Or.inr (Or.inr hpc)
  rcases hpc with hpc | hpc | hpc
  · cases hops : a.ops with
    | nil =>
        simp only [bankApp, hpc, hops] at h
        cases h
    | cons op ops =>
        simp only [bankApp, hpc, hops, Linked.Behind, Loc.app.injEq] at h
        split at h
        · exact Or.inr (Or.inl (by rw [h]))
        · exact hloop _ _ h
  · cases hops : a.ops with
    | nil =>
        simp only [bankApp, hpc, hops] at h
        cases h
    | cons op ops =>
        simp only [bankApp, hpc, hops, Linked.Behind, Loc.app.injEq] at h
        rcases h with ⟨m, hk⟩
        exact hloop _ _ hk
  · simp only [bankApp, hpc] at h
    cases h

/-- A server goes on as a server. -/
theorem dsl_of_behind {p : run.Id} {sv : Dsl b.layout.Payload run.Id}
    {l : Loc b.layout.Payload run.Id} (h : Linked.Behind (bankDsl run W p sv) l) :
    ∃ sv', l = .dsl sv' := by
  cases hpc : sv.pc with
  | recv =>
      simp only [bankDsl, hpc] at h
      rcases h with ⟨src, m, hl⟩
      exact ⟨_, hl⟩
  | reply =>
      simp only [bankDsl, hpc] at h
      by_cases hstop : run.atId sv.sender (fun p => Action.put p sv.msg
          (Loc.dsl { sv with pc := .recv } : Loc b.layout.Payload run.Id)) = .stop
      · rw [hstop] at h
        cases h
      · rcases Procs.exists_of_atId rfl hstop with ⟨c, _, hput⟩
        rw [← hput] at h
        exact ⟨_, h⟩
  | done =>
      simp only [bankDsl, hpc] at h
      cases h

end Behind

namespace Main

/-! ## The barriers -/

section Barriers

variable {run : BankRun} {old : Nat → Barrier.SsmpBarrier} {n : Nat}

theorem barriers_ready : ∀ b < Barrier.ssmpNumBarriers, (barriers run old b).Ready n := by
  have hall : ∀ _id : Nat, (1 : Int32) = 0 ∨ (1 : Int32) = 1 := fun _ => Or.inr rfl
  have hinit : ∀ b < Barrier.ssmpNumBarriers, (Barrier.ssmpInitBarriers old b).Ready n :=
    fun b hb => Barrier.initBarriers_ready hb
  have hapart := Barrier.ready_color 1 0 (colorApp1 run.dslPerCore)
    (Barrier.ready_color 2 0 (colorDsl run.dslPerCore) hinit)
  exact Barrier.ready_init 3 0 hall (Barrier.ready_init 4 0 hall hapart)

/-- The bitmap of barrier 0 has 64 bits. -/
theorem member_zero (hn : run.numProcs ≤ 64) (p : run.Id) : (barriers run old 0).member p = true := by
  unfold barriers
  rw [Barrier.init_other (by decide), Barrier.init_other (by decide), Barrier.init_other (by decide),
    Barrier.init_other (by decide), Barrier.default_member (by decide) (by decide)]
  exact decide_eq_true (Nat.lt_of_lt_of_le p.isLt hn)

theorem member_one (p : run.Id) : (barriers run old 1).member p = run.isApp p := by
  unfold barriers
  rw [Barrier.init_other (by decide), Barrier.init_other (by decide), Barrier.color_member (by decide)]
  show ((if run.isApp p = true then (1 : Int32) else 0) != 0) = run.isApp p
  cases run.isApp p <;> rfl

end Barriers

/-! ## On the library -/

section Library

open Whole

variable {b : Build} {run : BankRun} {W : MsgWords b.layout.Payload}
variable {report : run.Id → b.layout.Payload → b.layout.Payload} {buf : run.Id → b.layout.Payload}
variable {old : Nat → Barrier.SsmpBarrier} {p q c d : run.Id}
variable {x y : Whole b.layout run.numProcs (Proc b.layout.Payload run.Id)}
variable {a : Meetings run.Id b.layout.Payload (Proc b.layout.Payload run.Id)}

/-- The programs with the library as `ssmp_init` and `main` leave it. -/
def onLibrary (b : Build) (run : BankRun) (W : MsgWords b.layout.Payload)
    (report : run.Id → b.layout.Payload → b.layout.Payload) (buf : run.Id → b.layout.Payload)
    (old : Nat → Barrier.SsmpBarrier) :
    TransSys (Whole b.layout run.numProcs (Proc b.layout.Payload run.Id)) run.Id :=
  Whole.system b (network run W report buf) (hall run) (barriers run old)

/-- What the barriers hold. -/
abbrev hallsOf (run : BankRun) (M : Type) (old : Nat → Barrier.SsmpBarrier) :
    Halls run.Id (Proc M run.Id) :=
  Whole.halls (hall run) (barriers run old)

theorem halls_one {M : Type} (p : run.Id) : (hallsOf run M old).member 1 p = run.isApp p := by
  simp [hallsOf, Whole.halls, member_one, Barrier.ssmpNumBarriers]

theorem scansColors : ScansColors (network run W report buf) := by
  intro p l srcs k hnext
  cases hpc : l.pc with
  | run =>
      rcases map_eq_scan ((next_run hpc).symm.trans hnext) with ⟨k', hk, _⟩
      cases hpart : l.part with
      | app a =>
          rw [hpart] at hk
          exact absurd hk app_not_scan
      | dsl sv =>
          rw [hpart] at hk
          cases hpc' : sv.pc with
          | recv =>
              simp only [Bank.next, bankDsl, hpc', Action.scan.injEq] at hk
              exact ⟨_, hk.1⟩
          | reply =>
              simp only [Bank.next, bankDsl, hpc', Procs.atId] at hk
              split at hk <;> cases hk
          | done => simp [Bank.next, bankDsl, hpc'] at hk
  | _ =>
      have hout : inside p l = false := by simp [inside, hpc]
      exact absurd hnext ((part (H := hallsOf run _ fun _ => zeroBarriers 0) rfl
        halls_one).noScan p l srcs k hout)

theorem refined (h : (onLibrary b run W report buf old).Reachable x) :
    ∃ a, (Meetings.system (network run W report buf) (hallsOf run _ old)).Reachable a ∧
      Whole.Rel b (network run W report buf) (hall run) (barriers run old) x a :=
  Whole.refines (fun bar hb => (barriers_ready bar hb).counted) Procs.numProcs_le_256
    (fun _ _ => safe _) h

/-! ### Before `EXIT` -/

/-- Process 1 has sent no `EXIT` yet, and is not about to. -/
def LibraryBeforeExit (run : BankRun) {L : MsgLayout}
    (x : Whole L run.numProcs (Proc L.Payload run.Id)) : Prop :=
  ∀ p a, p.val = 1 → (x.loc p).part = .app a →
    a.pc = .call ∨ a.pc = .await ∨ a.pc = .barrier ∨ a.pc = .exit 0 ∧ x.busy p = false

theorem LibraryBeforeExit.network (hexit : LibraryBeforeExit run x)
    (hrel : Whole.Rel b (network run W report buf) (hall run) (barriers run old) x a) :
    BeforeExit run (bankOf a) := by
  intro p app hp hloc
  have hloc' : (a.net.loc p).part = .app app := hloc
  have hearly : ∀ app', (x.loc p).part = .app app' →
      app'.pc = .call ∨ app'.pc = .await ∨ app'.pc = .barrier ∨ app'.pc = .exit 0 := by
    intro app' happ'
    rcases hexit p app' hp happ' with hpc | hpc | hpc | hpc
    · exact Or.inl hpc
    · exact Or.inr (Or.inl hpc)
    · exact Or.inr (Or.inr (Or.inl hpc))
    · exact Or.inr (Or.inr (Or.inr hpc.1))
  have hahead : a.net.loc p = x.loc p ∨
      Linked.Behind (next run W report p (x.loc p)) (a.net.loc p) :=
    (hrel.linked.phase p).ahead
  rcases hahead with hsame | hbehind
  · exact hearly app (by rw [← hsame, hloc'])
  · rcases (onward_of_leads (leads_of_behind hbehind)).part with hsame | ⟨hpc, _⟩
    · exact hearly app (by rw [← hsame, hloc'])
    · -- the call that it is in does not take it to `EXIT`
      rw [next_run hpc] at hbehind
      rcases behind_map hbehind with ⟨k, hk, hresume⟩
      rw [hresume] at hloc'
      have hkapp : k = .app app := hloc'
      subst hkapp
      cases hpart : (x.loc p).part with
      | dsl sv =>
          rw [hpart] at hk
          rcases dsl_of_behind hk with ⟨sv', heq⟩
          cases heq
      | app app' =>
          rw [hpart] at hk
          rcases hexit p app' hp hpart with hpc' | hpc' | hpc' | ⟨hpc', hidle⟩
          · rcases pc_of_behind (Or.inl hpc') hk with h' | h' | h' <;> simp [h']
          · rcases pc_of_behind (Or.inr (Or.inl hpc')) hk with h' | h' | h' <;> simp [h']
          · rcases pc_of_behind (Or.inr (Or.inr hpc')) hk with h' | h' | h' <;> simp [h']
          · have hsame := hrel.loc hidle
            exact hearly app (by rw [← hsame]; exact hloc)

/-- In every run of `main` on any build of the library, as long as process 1 has sent no `EXIT`, if no
amount is negative and fewer than `2 ^ 31` units are deposited into each account of server `d`: there
is one list of requests such that what `d` has received of each process are its requests in the list;
the balances are those of a book with the list, and not negative; and what `d` has sent to a process,
and is about to send, are the answers of the book to its requests.  An application between two calls
has sent the requests of the calls that it has made, and has received the replies.  When process 1 has
come to `EXIT`, these are all its calls, and all those of the other applications. -/
theorem library_accounts (h : (onLibrary b run W report buf old).Reachable x)
    (hexit : LibraryBeforeExit run x) (hnonneg : ∀ p, ∀ op ∈ run.ops p, op.request.Nonneg)
    (hunits : ∀ acc, ∑ p with run.isApp p = true,
      ((requestsTo d (run.ops p)).map (Book.amountInto acc)).sum < 2 ^ 31)
    (hd : run.isDsl d = true) :
    ∃ (rs : List (run.Id × Request Int32)) (sv : Dsl b.layout.Payload run.Id),
      (x.busy d = false → (x.loc d).part = .dsl sv) ∧
      (∀ acc, (sv.accs acc).toInt = (Book.replay (rs.map Prod.snd)).balance acc ∧
        0 ≤ (sv.accs acc).toInt) ∧
      (∀ p, (x.sys.recvd (p, d)).map (decode W) = (ofClient p rs).map some ∧
        ofClient p (Book.replies Book.empty rs) =
          (x.sys.sent (d, p) ++ sv.serves p).map fun m => (W.get 2 m).toInt) ∧
      (∀ p app, x.busy p = false → (x.loc p).part = .app app → ∃ issued, app.Issued run p issued ∧
        (x.sys.sent (p, d)).map (decode W) = (requestsTo d issued).map some ∧
        (x.sys.recvd (d, p)).length + (app.waitsFor d).toNat = (asksTo d issued).length) ∧
      ∀ q app, q.val = 1 → x.busy q = false → (x.loc q).part = .app app → app.pc = .exit 0 →
        ∀ p, run.isApp p = true →
          (x.sys.sent (p, d)).map (decode W) = (requestsTo d (run.ops p)).map some ∧
          (x.sys.recvd (d, p)).length = (asksTo d (run.ops p)).length := by
  rcases refined h with ⟨a, ha, hrel⟩
  have hbefore := hexit.network hrel
  have hs := bank_reachable rfl halls_one ha (not_left rfl halls_one ha hbefore)
  rcases dsl_of_isDsl ha hd with ⟨sv, hloc⟩
  rcases hbefore.book hs hnonneg hunits hloc with ⟨hbalances, hreplies⟩
  have hrequests := hbefore.handled hs hloc
  refine ⟨requestsOf W sv.handled, sv, ?_, hbalances, ?_, ?_, ?_⟩
  · intro hidle
    rw [← hrel.loc hidle]
    exact hloc
  · intro p
    rw [map_ofClient_requestsOf hrequests, (Bank.dslInv hs hloc).log, hrel.recvd, hreplies, hrel.sent]
    exact ⟨rfl, rfl⟩
  · intro p app hidle hlocp
    have hlocp' : (a.net.loc p).part = .app app := by rw [hrel.loc hidle, hlocp]
    rcases hbefore.ins hs hd hlocp' with ⟨issued, hissued, hmap, hlen⟩
    exact ⟨issued, hissued, by rw [hrel.sent]; exact hmap, by rw [hrel.recvd]; exact hlen⟩
  · -- all have come to the barrier
    intro q app hq hidle hlocq hpc p happ
    have hlocq' : (a.net.loc q).part = .app app := by rw [hrel.loc hidle, hlocq]
    rcases app_of_isApp ha happ with ⟨app', hlocp⟩
    have hpassed : 1 ≤ app.pc.passed := by
      rw [hpc]
      exact Nat.le_refl 1
    have hover := over_of_passed hs hlocq' hpassed happ hlocp
    rcases hbefore.ins hs hd hlocp with ⟨issued, hissued, hmap, hlen⟩
    rw [hissued.at_over hover.1 hover.2] at hmap hlen
    rw [waitsFor_of_pc hover.2, Bool.toNat_false, Nat.add_zero] at hlen
    exact ⟨by rw [hrel.sent]; exact hmap, by rw [hrel.recvd]; exact hlen⟩

/-! ### The throughputs -/

/-- What application `c` has sent to process 0: its requests, `EXIT` from process 1, and `m` at last.
All has been received, and all but `m` by `bank_dsl`. -/
structure Settled (run : BankRun) {L : MsgLayout} (W : MsgWords L.Payload)
    (x : Whole L run.numProcs (Proc L.Payload run.Id)) (c : run.Id) (m : L.Payload) : Prop where
  report : m = (x.loc c).part.msg
  recvd : x.sys.recvd (c, run.first) = x.sys.sent (c, run.first)
  sent : ∃ sv, (x.loc run.first).part = .dsl sv ∧
    x.sys.sent (c, run.first) = ofClient c sv.handled ++ [m] ∧
    (ofClient c sv.handled).map (decode W) = (requestsTo run.first (run.ops c)).map some ++
      if c.val = 1 then [none] else []

/-- All processes have come to the end of `main`. -/
def Ended {L : MsgLayout} (x : Whole L run.numProcs (Proc L.Payload run.Id)) : Prop :=
  ∀ p, x.busy p = false ∧ x.inWait p = false ∧ (x.loc p).pc = .done

/-- Every run can be continued until nothing changes any more, and all processes have ended then, if
process 0 has left nothing behind in `bank_dsl`. -/
theorem exists_rest (h : (onLibrary b run W report buf old).Reachable x) :
    ∃ y, (onLibrary b run W report buf old).Steps x y ∧
      Dead b (network run W report buf) (hall run) (barriers run old) y ∧
      (Clean run W (y.loc run.first) → Ended y) := by
  rcases exists_dead Procs.numProcs_le_256 barriers_ready scansColors (fun _ _ => safe _)
    (ranked rfl halls_one).lowers h with ⟨y, hsteps, hdead, a, ha, hrel, hblocked⟩
  refine ⟨y, hsteps, hdead, ?_⟩
  intro hclean p
  rw [← (hblocked run.first).1] at hclean
  have hdone := done_of_blocked rfl halls_one ha (fun q => (hblocked q).2) hclean p
  rw [(hblocked p).1] at hdone
  have hidle := hrel.idle_of_stop (p := p) (next_done hdone)
  exact ⟨hidle.1, hidle.2, hdone⟩

/-- Every run of `main` on any build of the library can be continued until all processes have come to
their end, or until they wait for ever: then process 0 has left `bank_dsl` before it had all requests, or
with a throughput. -/
theorem library_ends (h : (onLibrary b run W report buf old).Reachable x) :
    ∃ y, (onLibrary b run W report buf old).Steps x y ∧
      (Ended y ∨ Dead b (network run W report buf) (hall run) (barriers run old) y ∧
        (y.loc run.first).Left ∧ ¬ Clean run W (y.loc run.first)) := by
  rcases exists_rest h with ⟨y, hsteps, hdead, hends⟩
  refine ⟨y, hsteps, ?_⟩
  by_cases hclean : Clean run W (y.loc run.first)
  · exact Or.inl (hends hclean)
  · refine Or.inr ⟨hdead, ?_, hclean⟩
    by_contra hleft
    exact hclean fun hleft' => absurd hleft' hleft

end Library

/-! ### Runs on the generic platform -/

section Runs

open Whole

/-- `main` on the generic platform. -/
abbrev onPlain (run : BankRun) :
    TransSys (Whole plainBuild.layout run.numProcs (Proc plainBuild.layout.Payload run.Id)) run.Id :=
  onLibrary plainBuild run ClientServer.plainWords (fun _ m => m) (fun _ _ => 7) zeroBarriers

/-- What the run of the schedule comes to. -/
def afterRun (run : BankRun) (schedule : List run.Id) :
    Whole plainBuild.layout run.numProcs (Proc plainBuild.layout.Payload run.Id) :=
  Whole.after plainBuild (fun id => if colorApp1 run.dslPerCore id.toNat then 1 else 0)
    (network run ClientServer.plainWords (fun _ m => m) fun _ _ => 7) (hall run)
    (barriers run zeroBarriers) schedule

theorem reachable_afterRun (run : BankRun) (schedule : List run.Id) :
    (onPlain run).Reachable (afterRun run schedule) :=
  Whole.reachable_after _

/-- The deposit and the look at the account are sent, taken and answered, and the application passes
barrier 1.  A call that sends or that names its source takes 20 steps, and a scan that finds a message at
once 22. -/
def callsServed : List savings.Id :=
  bothPass savingsApp savingsServer ++ List.replicate 20 savingsApp ++ List.replicate 22 savingsServer ++
    List.replicate 20 savingsApp ++ List.replicate 42 savingsServer ++ List.replicate 30 savingsApp

theorem savings_units (acc : Int32) : ∑ p with savings.isApp p = true,
    ((requestsTo savingsServer (savings.ops p)).map (Book.amountInto acc)).sum < 2 ^ 31 := by
  have happs : (Finset.univ.filter fun p => savings.isApp p = true) = {savingsApp} := by decide
  have hops : requestsTo savingsServer (savings.ops savingsApp) = [.deposit 0 5, .check 0] := by decide
  rw [happs, Finset.sum_singleton, hops]
  simp only [List.map_cons, List.map_nil, List.sum_cons, List.sum_nil, Book.amountInto]
  split <;> decide

theorem library_accounts_callsServed :
    ∃ (rs : List (savings.Id × Request Int32)) (sv : Dsl plainBuild.layout.Payload savings.Id),
      ((afterRun savings callsServed).loc savingsServer).part = .dsl sv ∧
      ofClient savingsApp rs = [.deposit 0 5, .check 0] ∧
      (∀ acc, (sv.accs acc).toInt = (Book.replay (rs.map Prod.snd)).balance acc) ∧
      ofClient savingsApp (Book.replies Book.empty rs) =
        ((afterRun savings callsServed).sys.sent (savingsServer, savingsApp)).map
          fun m => (ClientServer.plainWords.get 2 m).toInt := by
  have hidle : (afterRun savings callsServed).busy savingsApp = false := by decide +kernel
  have hpc : (match ((afterRun savings callsServed).loc savingsApp).part with
      | .app a => a.pc
      | .dsl _ => .done) = .exit 0 := by decide +kernel
  have hserver : (match ((afterRun savings callsServed).loc savingsServer).part with
      | .app _ => DslPc.done
      | .dsl sv => sv.pc) = .recv := by decide +kernel
  have hrecvd : ((afterRun savings callsServed).sys.recvd (savingsApp, savingsServer)).map
      (decode ClientServer.plainWords) = [some (.deposit 0 5), some (.check 0)] := by decide +kernel
  have hexit : LibraryBeforeExit savings (afterRun savings callsServed) := by
    intro p a hp ha
    have hpapp : p = savingsApp := Fin.ext hp
    subst hpapp
    rw [ha] at hpc
    exact Or.inr (Or.inr (Or.inr ⟨hpc, hidle⟩))
  rcases library_accounts (reachable_afterRun savings callsServed) hexit (by decide) savings_units
    (by decide) with ⟨rs, sv, hloc, hbalances, hmessages, _⟩
  have hsv := hloc (by decide +kernel)
  rcases hmessages savingsApp with ⟨htaken, hreplies⟩
  refine ⟨rs, sv, hsv, ?_, fun acc => (hbalances acc).1, ?_⟩
  · have hinj : Function.Injective (List.map (some : Request Int32 → Option (Request Int32))) :=
      List.map_injective_iff.2 (Option.some_injective _)
    exact hinj (htaken.symm.trans hrecvd)
  · -- nothing is about to be sent
    rw [hsv] at hserver
    have hrecv : sv.pc = .recv := hserver
    have hserves : sv.serves savingsApp = [] := serves_of_pc (by simp [hrecv]) _
    rw [hreplies, hserves, List.append_nil]

theorem library_ends_callsServed :
    ∃ y, (onPlain savings).Steps (afterRun savings callsServed) y ∧
      (Ended y ∨ (y.loc savings.first).Left ∧
        ¬ Clean savings ClientServer.plainWords (y.loc savings.first)) := by
  rcases library_ends (reachable_afterRun savings callsServed) with ⟨y, hsteps, hended | ⟨_, hdirty⟩⟩
  · exact ⟨y, hsteps, Or.inl hended⟩
  · exact ⟨y, hsteps, Or.inr hdirty⟩

end Runs

end Main
end Bank
end Bench
end Ssmp
