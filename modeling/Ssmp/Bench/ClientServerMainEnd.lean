import Ssmp.Bench.ClientServerMainRuns

/-!
# Bench.ClientServerMainEnd — the end of `benchmarks/client_server.c`

The processes cannot all be blocked before they have come to their end: in the loops somebody can go on
(`ClientServer.ready_or_done`), and behind the loops process 0 waits for the report of a client whose
turn it is, which has nothing before it in its slot (`done_of_blocked`).  What a process has left to do
is bounded by the messages that it still has to send or to take (`ranked`).
-/

namespace Ssmp
namespace Bench

open Lib Network

namespace ClientServer
namespace Main

/-! ## Nobody is stuck -/

section Stuck

variable {args : ClientServerArgs} {reply : Reply} {M : Type} {W : MsgWords M}
variable {report : args.Id → M → M} {buf : args.Id → M} {H : Halls args.Id (Proc M)}
variable {s : Meetings args.Id M (Proc M)} {r : State args.Id M (Loc M)} {p q c : args.Id}

/-- As long as a process has not left its loop, some process has something to do in its own. -/
theorem ready_of_not_over (hmsgs : args.numDsl < args.numMsgs)
    (hr : (ClientServer.network args reply W buf).system.Reachable r)
    (hover : (r.loc p).over = false) : ∃ q, (ClientServer.network args reply W buf).Ready r q := by
  rcases ready_or_done hmsgs hr with hstop | hready
  · have hnext := hstop p
    cases hloc : r.loc p with
    | client cl =>
        rw [hloc] at hover
        exact client_ready hmsgs hr ((progress hr p).client cl hloc).1 hloc (of_decide_eq_false hover)
    | server sv =>
        rw [hloc] at hover
        cases hpc : sv.pc with
        | recv => simp [ClientServer.network, ClientServer.next, Server.next, hloc, hpc] at hnext
        | reply => exact ⟨p, reply_ready hr hloc hpc⟩
        | done => exact absurd hpc (of_decide_eq_false hover)
  · exact hready

/-- Who has left its loop has nothing to do there. -/
theorem not_ready_of_over (hover : (r.loc p).over = true) :
    ¬ (ClientServer.network args reply W buf).Ready r p := by
  unfold Network.Ready
  cases hloc : r.loc p with
  | client cl =>
      rw [hloc] at hover
      have hpc : cl.pc = .done := of_decide_eq_true hover
      simp [ClientServer.network, ClientServer.next, Client.next, hpc]
  | server sv =>
      rw [hloc] at hover
      have hpc : sv.pc = .done := of_decide_eq_true hover
      simp [ClientServer.network, ClientServer.next, Server.next, hpc]

/-- In its loop a process stops only at the end. -/
theorem over_of_stop (hr : (ClientServer.network args reply W buf).system.Reachable r)
    (hstop : (ClientServer.network args reply W buf).next p (r.loc p) = .stop) :
    (r.loc p).over = true := by
  cases hloc : r.loc p with
  | client cl =>
      rw [hloc] at hstop
      rcases (progress hr p).client cl hloc with ⟨_, j, hsent, _⟩
      -- the number of its server is that of a process
      have hdst : ∀ i, cl.At args i → cl.dst < args.numProcs := by
        intro i hat
        rw [hat.dst, dstAt]
        split
        · exact Procs.numProcs_pos
        · exact Procs.dslSeq_lt (Nat.mod_lt _ Procs.numDsl_pos)
      cases hpc : cl.pc with
      | send =>
          have hlt := hdst _ (hsent.at_send hpc)
          simp [ClientServer.network, ClientServer.next, Client.next, hpc, Procs.atId, hlt] at hstop
      | recv =>
          rcases hsent.at_recv hpc with ⟨i, hat, _⟩
          have hlt := hdst i hat
          simp [ClientServer.network, ClientServer.next, Client.next, hpc, Procs.atId, hlt] at hstop
      | done => exact decide_eq_true hpc
  | server sv =>
      rw [hloc] at hstop
      cases hpc : sv.pc with
      | recv => simp [ClientServer.network, ClientServer.next, Server.next, hpc] at hstop
      | reply =>
          rcases (exchange hr).sender p sv hloc hpc with ⟨_, c, _, hsender⟩
          simp only [ClientServer.network, ClientServer.next, Server.next, hpc, hsender,
            Procs.atId_val] at hstop
          split at hstop <;> cases hstop
      | done => exact decide_eq_true hpc

variable (hmsgs : args.numDsl < args.numMsgs) (hhall : H.hall = hall args)
variable (hmember : ∀ p, H.member 0 p = true) (hnone : ∀ p, H.member Barrier.ssmpNumBarriers p = false)

include hhall hmember

/-- Behind the barrier of turn 0 all have left their loops. -/
theorem over_of_turns (h : (Meetings.system (network args reply W report buf) H).Reachable s)
    (hq : 2 < pos args (s.net.loc q)) (p : args.Id) : (s.net.loc p).loop.over = true := by
  have hbarrier : (seq args)[2]? = some 0 := by
    rw [seq, List.getElem?_replicate, if_pos (by omega)]
  have htogether := (inOrder hhall).together h hq hbarrier (hmember q) (hmember p)
  cases fit h p with
  | opening hpc hco _ =>
      have hpos : pos args (s.net.loc p) = (s.net.loc p).co := by simp [pos, hpc]
      omega
  | loop hpc _ =>
      have hpos : pos args (s.net.loc p) = 2 := by simp [pos, hpc]
      rcases htogether with hlt | ⟨_, hwaits⟩
      · omega
      · rcases (Meetings.waits_of_reachable h p hwaits).meet with ⟨k, hk⟩
        rcases map_eq_meet ((next_loop hpc).symm.trans hk) with ⟨_, hmeet, _⟩
        exact absurd hmeet loops_not_meet
  | report _ hover _ _ _ => exact hover
  | gather _ hover _ _ _ => exact hover
  | turn _ hover _ _ => exact hover
  | past _ hover => exact hover

include hmsgs hnone

/-- Whoever is not at a barrier, and not behind those who are, has come to its end. -/
theorem not_stuck (h : (Meetings.system (network args reply W report buf) H).Reachable s)
    (hblocked : ∀ p, Meetings.Blocked (network args reply W report buf) H s p)
    (hmeet : ∀ k, (network args reply W report buf).next p (s.net.loc p) ≠ .meet k)
    (hleast : ∀ q k, (network args reply W report buf).next q (s.net.loc q) = .meet k →
      pos args (s.net.loc p) ≤ pos args (s.net.loc q)) : (s.net.loc p).pc = .done := by
  rcases belongs hmsgs hhall hmember hnone h with ⟨r, hr⟩
  have hwait := fun q => hblocked q
  unfold Meetings.Blocked at hwait
  cases fit h p with
  | opening hpc _ _ => exact absurd (next_opening hpc) (hmeet _)
  | turn hpc _ _ _ => exact absurd (next_turn hpc) (hmeet _)
  | past hpc _ =>
      rcases hpc with hpc | hpc
      · exact absurd (next_last hpc) (hmeet _)
      · exact hpc
  | loop hpc hover =>
      -- somebody could go on in its loop
      exfalso
      rw [← hr.loc] at hover
      rcases ready_of_not_over hmsgs hr.reachable hover with ⟨q, hready⟩
      have hnot : (s.net.loc q).loop.over = false := by
        by_contra hq
        refine not_ready_of_over ?_ hready
        rw [hr.loc]
        simpa using hq
      cases fit h q with
      | opening hpc' hco _ =>
          have hle := hleast q _ (next_opening hpc')
          simp only [pos, hpc, hpc'] at hle
          omega
      | loop hpc' _ =>
          exact hr.follows.not_blocked (part hhall hnone) h (hr.chan hhall hmember h hpc)
            (by simp [inside, hpc']) hready (hblocked q)
      | report _ hover' _ _ _ => exact absurd (hnot.symm.trans hover') (by decide)
      | gather _ hover' _ _ _ => exact absurd (hnot.symm.trans hover') (by decide)
      | turn _ hover' _ _ => exact absurd (hnot.symm.trans hover') (by decide)
      | past _ hover' => exact absurd (hnot.symm.trans hover') (by decide)
  | report hpc _ happ hco _ =>
      -- its slot to process 0 is empty
      exfalso
      have hturn : 2 < pos args (s.net.loc p) := by
        have hpos := Procs.pos_of_isApp happ
        simp only [pos, hpc, hco]
        omega
      have hplace := hwait p
      simp only [network, next_report hpc] at hplace
      rw [hr.sim.chan, reportOn, if_neg] at hplace
      · refine hplace (empty_of_over hmsgs hr.reachable ?_ happ)
        rw [hr.loc]
        exact over_of_turns hhall hmember h hturn _
      · rintro ⟨_, _, hlt⟩
        simp only [behind, hpc, hco] at hlt
        exact Nat.lt_irrefl _ hlt
  | gather hpc _ hme hco happ =>
      exfalso
      have hfirst : p = args.first := Fin.ext hme
      subst hfirst
      have hcpos := Procs.pos_of_isApp happ
      have hturn : 2 < pos args (s.net.loc args.first) := by
        have hcpos' : 0 < (s.net.loc args.first).co := hcpos
        simp only [pos, hpc]
        omega
      have hposFirst : pos args (s.net.loc args.first) = 2 + (s.net.loc args.first).co := by
        simp [pos, hpc]
      have hbehindFirst : behind args (s.net.loc args.first) = (s.net.loc args.first).co := by
        simp [behind, hpc]
      have hplace := hwait args.first
      simp only [network, next_gather hpc hco] at hplace
      have hid : (⟨(s.net.loc args.first).co, hco⟩ : args.Id).val = (s.net.loc args.first).co := rfl
      generalize (⟨(s.net.loc args.first).co, hco⟩ : args.Id) = c at happ hplace hid hcpos
      -- the client of the turn has sent nothing
      have hnot : ¬ c.val < behind args (s.net.loc c) := by
        intro hlt
        rw [hr.sim.chan, reportOn, if_pos ⟨happ, rfl, hlt⟩, if_neg (by omega)] at hplace
        cases hplace
      have hover := over_of_turns hhall hmember h hturn c
      cases fit h c with
      | opening hpc' hco' _ =>
          have hle := hleast c _ (next_opening hpc')
          have hpos : pos args (s.net.loc c) = (s.net.loc c).co := by simp [pos, hpc']
          omega
      | loop _ hover' => exact absurd (hover'.symm.trans hover) (by decide)
      | report hpc' _ _ _ _ =>
          have hfull := hwait c
          simp only [network, next_report hpc'] at hfull
          exact hfull hplace
      | gather _ _ hzero _ _ => omega
      | turn hpc' _ _ _ =>
          have hle := hleast c _ (next_turn hpc')
          have hpos : pos args (s.net.loc c) = 2 + (s.net.loc c).co := by simp [pos, hpc']
          have hbehind : behind args (s.net.loc c) = (s.net.loc c).co + 1 := by simp [behind, hpc']
          omega
      | past hpc' _ =>
          refine hnot ?_
          have hbehind : behind args (s.net.loc c) = args.numProcs := by
            rcases hpc' with hpc' | hpc' <;> simp [behind, hpc']
          rw [hbehind]
          exact c.isLt

theorem done_of_blocked (h : (Meetings.system (network args reply W report buf) H).Reachable s)
    (hblocked : ∀ p, Meetings.Blocked (network args reply W report buf) H s p) (p : args.Id) :
    (s.net.loc p).pc = .done := by
  have hnobody : ∀ q k, (network args reply W report buf).next q (s.net.loc q) ≠ .meet k := by
    intro q k hq
    -- the one behind all who are at a barrier would be at the end
    rcases (inOrder hhall).exists_behind h hblocked hq with ⟨r, hmeet, hleast⟩
    have hdone := not_stuck hmsgs hhall hmember hnone h hblocked hmeet hleast
    have hlt := ((fit h q).pos_passes hq).2
    have hle := hleast q k hq
    simp only [pos, hdone] at hle
    exact Nat.not_le_of_lt hlt hle
  exact not_stuck hmsgs hhall hmember hnone h hblocked (hnobody p) fun q k hq => absurd hq (hnobody q k)

/-- And in `main`. -/
theorem done_of_stop (h : (Meetings.system (network args reply W report buf) H).Reachable s)
    (hstop : (network args reply W report buf).next p (s.net.loc p) = .stop) :
    (s.net.loc p).pc = .done := by
  rcases belongs hmsgs hhall hmember hnone h with ⟨r, hr⟩
  cases fit h p with
  | loop hpc hover =>
      have hstop' := map_eq_stop.1 ((next_loop hpc).symm.trans hstop)
      rw [← hr.loc] at hstop' hover
      rw [over_of_stop hr.reachable hstop'] at hover
      cases hover
  | opening hpc _ _ => cases (next_opening hpc).symm.trans hstop
  | report hpc _ _ _ _ => cases (next_report hpc).symm.trans hstop
  | gather hpc _ _ hco _ => cases (next_gather hpc hco).symm.trans hstop
  | turn hpc _ _ _ => cases (next_turn hpc).symm.trans hstop
  | past hpc _ =>
      rcases hpc with hpc | hpc
      · cases (next_last hpc).symm.trans hstop
      · exact hpc

end Stuck

/-! ## What is left to do -/

section Left

variable (args : ClientServerArgs) {M : Type}

/-- How many messages of the clients process `p` can still take. -/
def remaining (p : args.Id) (chan : args.Id × args.Id → OnePlace M) : Nat :=
  Meetings.remaining (Finset.univ.filter fun c => args.isApp c = true) (fun _ => args.numMsgs) p chan

/-- What a process has left to do in its loop, if it can take `rem` messages. -/
def loopLeft (rem : Nat) : Loc M → Nat
  | .client c =>
      match c.pc with
      | .send => 2 * c.numMsgs1 + 2
      | .recv => 2 * c.numMsgs1 + 1
      | .done => 0
  | .server sv =>
      match sv.pc with
      | .recv => 2 * rem
      | .reply => 2 * rem + 1
      | .done => 0

/-- At most what a process has left to do. -/
def left (rem : Nat) (l : Proc M) : Nat :=
  match l.pc with
  | .opening =>
      2 * args.numProcs + 2 + (2 * (args.numProcs * args.numMsgs) + 2 * args.numMsgs + 1) + (2 - l.co)
  | .loop => 2 * args.numProcs + 2 + loopLeft rem l.loop
  | .report => 2 * (args.numProcs - l.co) + 1
  | .gather => 2 * (args.numProcs - l.co) + 1
  | .turn => 2 * (args.numProcs - l.co)
  | .last => 1
  | .done => 0

def rank (p : args.Id) (v : State args.Id M (Proc M)) : Nat :=
  left args (remaining args p v.chan) (v.loc p)

end Left

section Ranks

variable {args : ClientServerArgs} {reply : Reply} {M : Type} {W : MsgWords M}
variable {report : args.Id → M → M} {buf : args.Id → M} {H : Halls args.Id (Proc M)}
variable {s : Meetings args.Id M (Proc M)} {r t : State args.Id M (Loc M)} {p c d : args.Id}
variable {l k : Proc M} {rem co n : Nat}

theorem remaining_le {chan : args.Id × args.Id → OnePlace M} :
    remaining args p chan ≤ args.numProcs * args.numMsgs := by
  calc remaining args p chan
      ≤ ∑ _c with args.isApp _c = true, args.numMsgs := Meetings.remaining_le
    _ = (Finset.univ.filter fun c => args.isApp c = true).card * args.numMsgs := by
        rw [Finset.sum_const, smul_eq_mul]
    _ ≤ args.numProcs * args.numMsgs := by
        refine Nat.mul_le_mul_right _ (Nat.le_trans (Finset.card_le_univ _) ?_)
        rw [Fintype.card_fin]

/-- A message that is there can still be taken. -/
theorem length_lt (hr : (ClientServer.network args reply W buf).system.Reachable r)
    (happ : args.isApp c = true) {m : M} (hm : (r.chan (c, d)).place = some m) :
    (r.chan (c, d)).outs.length < args.numMsgs := by
  have hins : (r.chan (c, d)).ins = (r.chan (c, d)).outs ++ [m] := by
    have hfifo : (r.chan (c, d)).ins = (r.chan (c, d)).outs ++ (r.chan (c, d)).place.toList :=
      (exchange hr).fifo (c, d)
    rwa [hm] at hfifo
  have hscript : (script args d.val args.numMsgs).length ≤ args.numMsgs := by
    rw [script, List.length_map]
    exact Nat.le_trans (List.length_filter_le _ _) (Nat.le_of_eq List.length_range)
  have hlen := (sent_script hr happ d).1.length_le
  rw [List.length_map, hins, List.length_append, List.length_singleton] at hlen
  omega

/-! ### In the loops -/

theorem loopLeft_turn {cl : Client M} :
    (Loc.client (cl.turn args)).over = true ∨
      loopLeft rem (.client (cl.turn args)) ≤ 2 * cl.numMsgs1 := by
  by_cases hlast : cl.numMsgs1 = 0
  · exact Or.inl (decide_eq_true (Client.turn_last hlast))
  · right
    rw [Client.turn_next hlast]
    simp only [loopLeft]
    omega

theorem loopLeft_test {sv : Server M} :
    (Loc.server (sv.test args W)).over = true ∨ loopLeft rem (.server (sv.test args W)) = 2 * rem := by
  rcases @Server.pc_test args M W sv with hpc | hpc
  · right
    simp [loopLeft, hpc]
  · exact Or.inl (decide_eq_true hpc)

/-- A step in a loop that is not a turn of a scan in vain leaves less to do there. -/
theorem loopLeft_lt (hr : (ClientServer.network args reply W buf).system.Reachable r)
    (hmove : Move args reply W r p t)
    (hacts : Meetings.Acts (ClientServer.network args reply W buf) r p t) :
    (t.loc p).over = true ∨
      loopLeft (remaining args p t.chan) (t.loc p) < loopLeft (remaining args p r.chan) (r.loc p) := by
  cases hmove with
  | @send cl d hloc hpc hd hfree =>
      rw [goto_loc_self, hloc]
      split_ifs with hreply
      · rcases @loopLeft_turn args M (remaining args p (r.onChan (p, d) (.write (cl.request W))).chan)
          { cl with msg := cl.request W } with hover | hle
        · exact Or.inl hover
        · right
          refine Nat.lt_of_le_of_lt hle ?_
          simp only [loopLeft, hpc]
          omega
      · right
        simp [loopLeft, hpc]
  | @recv cl d m hloc hpc hd hm =>
      rw [goto_loc_self, hloc]
      rcases @loopLeft_turn args M (remaining args p (r.onChan (d, p) (.clear m)).chan)
        { cl with msg := m } with hover | hle
      · exact Or.inl hover
      · right
        refine Nat.lt_of_le_of_lt hle ?_
        simp [loopLeft, hpc]
  | @seek sv k hloc hpc =>
      exfalso
      rcases hacts with hchan | hscan
      · exact hchan rfl
      · have hnext : ∃ srcs f, (ClientServer.network args reply W buf).next p (r.loc p) =
            .scan srcs f := by
          simp only [ClientServer.network, ClientServer.next, Server.next, hloc, hpc]
          exact ⟨_, _, rfl⟩
        rcases hnext with ⟨srcs, f, hnext⟩
        exact hscan srcs f hnext
  | @hit sv src m k hloc hpc hsrc hm =>
      have hdsl := (progress hr p).server sv hloc
      have happ := (Procs.mem_cbuf hdsl).1 hsrc
      have hless : remaining args p (r.onChan (src, p) (.clear m)).chan < remaining args p r.chan :=
        Meetings.remaining_clear (Finset.mem_filter.2 ⟨Finset.mem_univ src, happ⟩) (length_lt hr happ hm)
      rw [goto_loc_self, goto_chan, seek_chan, hloc]
      split_ifs with hreply
      · rcases @loopLeft_test args M W _ (sv.took src.val m) with hover | heq
        · exact Or.inl hover
        · right
          rw [heq]
          simp only [loopLeft, hpc]
          omega
      · right
        simp only [loopLeft, hpc]
        omega
  | @reply sv c hloc hpc hc hfree =>
      have hsame : remaining args p ((r.onChan (p, c) (.write sv.msg)).goto p
          (.server (sv.test args W))).chan = remaining args p r.chan :=
        Meetings.remaining_congr fun _ => by rw [goto_chan, outs_write]
      rw [goto_loc_self, hloc, hsame]
      rcases @loopLeft_test args M W (remaining args p r.chan) sv with hover | heq
      · exact Or.inl hover
      · right
        rw [heq]
        simp [loopLeft, hpc]

/-- What a process has left to do before its loop is enough for it. -/
theorem loopLeft_start {chan : args.Id × args.Id → OnePlace M} :
    loopLeft (remaining args p chan) (ClientServer.start args buf p) <
      2 * (args.numProcs * args.numMsgs) + 2 * args.numMsgs + 1 := by
  have hle := @remaining_le args M p chan
  unfold ClientServer.start
  split_ifs
  · simp only [loopLeft]
    omega
  · by_cases hzero : args.numMsgs = 0
    · simp [loopLeft, Client.test, hzero]
    · simp only [loopLeft, Client.test, if_neg hzero]
      omega

/-! ### In the programs -/

theorem left_close : left args rem (Proc.close args report p co l) ≤ 2 * (args.numProcs - co) + 1 := by
  have hbegins := @begins_close args M report p l co
  generalize Proc.close args report p co l = k at hbegins
  cases hbegins with
  | report _ _ => exact Nat.le_refl _
  | gather _ _ _ => exact Nat.le_refl _
  | turn _ _ _ => exact Nat.le_succ _
  | last _ => exact Nat.le_add_left _ _

theorem left_enter (h : l.loop.over = true ∨ loopLeft rem l.loop < n) :
    left args rem (Proc.enter args report p l) < 2 * args.numProcs + 2 + n := by
  unfold Proc.enter
  by_cases hover : l.loop.over = true
  · rw [if_pos hover]
    refine Nat.lt_of_le_of_lt left_close ?_
    omega
  · rw [if_neg hover]
    have hlt := h.resolve_left hover
    simp only [left]
    omega

/-- In every call and at every barrier a process goes on. -/
theorem ranked (hmsgs : args.numDsl < args.numMsgs) (hhall : H.hall = hall args)
    (hmember : ∀ p, H.member 0 p = true) (hnone : ∀ p, H.member Barrier.ssmpNumBarriers p = false) :
    Meetings.Ranked (network args reply W report buf) H (rank args) where
  same p v u h := by
    unfold rank
    rw [h.loc, remaining, Meetings.remaining_congr h.outs]
    rfl
  moves s p u hs hmove hacts hmeet := by
    have heff := hmove.effect
    unfold rank
    cases fit hs p with
    | opening hpc _ _ => exact absurd (next_opening hpc) (hmeet _)
    | turn hpc _ _ _ => exact absurd (next_turn hpc) (hmeet _)
    | report hpc _ _ _ _ =>
        simp only [network, next_report hpc] at heff
        rcases heff with ⟨_, rfl⟩
        rw [goto_loc_self]
        simp [left, hpc]
    | gather hpc _ _ hco _ =>
        simp only [network, next_gather hpc hco] at heff
        rcases heff with ⟨m, _, rfl⟩
        rw [goto_loc_self]
        simp [left, hpc]
    | past hpc _ =>
        rcases hpc with hpc | hpc
        · exact absurd (next_last hpc) (hmeet _)
        · simp only [network, next_done hpc] at heff
          exact heff.elim
    | loop hpc hover =>
        rcases belongs hmsgs hhall hmember hnone hs with ⟨r, hr⟩
        have hchan := hr.chan hhall hmember hs hpc
        have hstep := @Meetings.Step.move _ _ _ _ _ H _ _ _ hmove hmeet
        rcases hr.follows.step_inside (part hhall hnone) hchan hs (by simp [inside, hpc]) hstep with
          ⟨t, ht, hfollows, hchan'⟩
        have hacts' : Meetings.Acts (ClientServer.network args reply W buf) r p t := by
          rcases hacts with hne | hscan
          · left
            rw [hchan, hchan']
            exact hne
          · right
            intro srcs k hk
            rw [hr.loc] at hk
            have hk' : ClientServer.next args reply W p (s.net.loc p).loop = .scan srcs k := hk
            have hnext : ∃ f, (network args reply W report buf).next p (s.net.loc p) =
                .scan srcs f := by
              simp only [network, next_loop hpc, hk']
              exact ⟨_, rfl⟩
            rcases hnext with ⟨f, hnext⟩
            exact hscan srcs f hnext
        have hless := loopLeft_lt hr.reachable (Move.of_step ht) hacts'
        have hloc : t.loc p = (u.loc p).loop := hfollows.loc p
        have hchan'' : t.chan = u.chan := hchan'
        rw [hloc, hchan'', hchan, hr.loc] at hless
        have hleft : left args (remaining args p s.net.chan) (s.net.loc p) =
            2 * args.numProcs + 2 + loopLeft (remaining args p s.net.chan) (s.net.loc p).loop := by
          simp [left, hpc]
        rw [hleft]
        rcases loop_step hpc hstep with hsame | ⟨k, hk⟩
        · -- it is still in its loop
          have hsame' : u.loc p = s.net.loc p := hsame
          rw [hsame'] at hless ⊢
          have hlt := hless.resolve_left (by simp [hover])
          simp only [left, hpc]
          omega
        · have hk' : u.loc p = _ := hk
          rw [hk', enter_loop] at hless
          rw [hk']
          exact left_enter hless
  meets s p k hs hnext := by
    unfold rank
    rw [goto_chan, goto_loc_self]
    cases fit hs p with
    | opening hpc hco hloop =>
        have hnext' := (next_opening hpc).symm.trans hnext
        rw [Action.meet.injEq] at hnext'
        rw [← hnext']
        by_cases hmore : (s.net.loc p).co + 1 < 2
        · rw [if_pos hmore]
          simp only [left, hpc]
          omega
        · rw [if_neg hmore]
          have hlt := @left_enter args M report p (s.net.loc p) (remaining args p s.net.chan)
            (2 * (args.numProcs * args.numMsgs) + 2 * args.numMsgs + 1) (Or.inr (by
              rw [hloop]
              exact loopLeft_start))
          simp only [left, hpc] at hlt ⊢
          omega
    | turn hpc _ hco _ =>
        have hnext' := (next_turn hpc).symm.trans hnext
        rw [Action.meet.injEq] at hnext'
        have hle := @left_close args M report p (s.net.loc p) (remaining args p s.net.chan)
          ((s.net.loc p).co + 1)
        rw [hnext'] at hle
        have hleft : left args (remaining args p s.net.chan) (s.net.loc p) =
            2 * (args.numProcs - (s.net.loc p).co) := by
          simp [left, hpc]
        omega
    | loop hpc _ =>
        rcases map_eq_meet ((next_loop hpc).symm.trans hnext) with ⟨_, hmeet, _⟩
        exact absurd hmeet loops_not_meet
    | report hpc _ _ _ _ => cases (next_report hpc).symm.trans hnext
    | gather hpc _ _ hco _ => cases (next_gather hpc hco).symm.trans hnext
    | past hpc _ =>
        rcases hpc with hpc | hpc
        · have hnext' := (next_last hpc).symm.trans hnext
          rw [Action.meet.injEq] at hnext'
          rw [← hnext']
          simp [left, hpc]
        · cases (next_done hpc).symm.trans hnext

end Ranks

end Main
end ClientServer
end Bench
end Ssmp
