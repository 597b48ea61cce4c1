import Ssmp.Bench.ClientServerMain

/-!
# Bench.ClientServerMainRuns — the runs of `benchmarks/client_server.c`

A run of the programs is a run of the loops, and behind it the reports of the clients: process 0 takes
them in the order of the ids, each when its client has sent it (`Sim`).  Here barrier 0 is to hold all
processes, and there are to be more messages than servers.  Then the processes come to their end
(`done_of_blocked`), as less and less is left to do for them (`ranked`).
-/

namespace Ssmp
namespace Bench

open Lib Network

namespace ClientServer
namespace Main

/-! ## The reports -/

section Reports

variable (args : ClientServerArgs) {M : Type} (report : args.Id → M → M)

/-- What client `c` sends to process 0 behind its loop. -/
def throughput (v : State args.Id M (Proc M)) (c : args.Id) : M :=
  report c (v.loc c).loop.msg

/-- What has become of a channel of the loops: the report of a client has been put into it, and process
0 has taken it. -/
def reportOn (v : State args.Id M (Proc M)) (c d : args.Id) (b : OnePlace M) : OnePlace M :=
  if args.isApp c = true ∧ d = args.first ∧ c.val < behind args (v.loc c) then
    if c.val < behind args (v.loc args.first) then
      (b.write (throughput args report v c)).clear (throughput args report v c)
    else b.write (throughput args report v c)
  else b

/-- The channels are those of the loops and the reports; process 0 has taken the reports of the clients
whose turn it has behind it. -/
structure Sim (r : State args.Id M (Loc M)) (v : State args.Id M (Proc M)) : Prop where
  chan : ∀ c d, v.chan (c, d) = reportOn args report v c d (r.chan (c, d))
  reported : ∀ c, args.isApp c = true → c.val < behind args (v.loc args.first) →
    c.val < behind args (v.loc c)
  added : (v.loc args.first).added =
    (args.appsBelow (behind args (v.loc args.first))).map (throughput args report v)

end Reports

section Facts

variable {args : ClientServerArgs} {M : Type} {report : args.Id → M → M}
variable {r : State args.Id M (Loc M)} {v : State args.Id M (Proc M)} {p c d : args.Id}
variable {k : Nat} {l : Proc M} {b : OnePlace M}

/-- Before the turns there are no reports. -/
theorem reportOn_of_quiet (hquiet : ∀ q, behind args (v.loc q) ≤ 1) :
    reportOn args report v c d b = b := by
  unfold reportOn
  refine if_neg ?_
  rintro ⟨happ, _, hlt⟩
  have hpos := Procs.pos_of_isApp happ
  have hle := hquiet c
  omega

theorem Sim.of_quiet (hquiet : ∀ q, behind args (v.loc q) ≤ 1) (hchan : r.chan = v.chan)
    (hadded : (v.loc args.first).added = []) : Sim args report r v where
  chan c d := by rw [reportOn_of_quiet hquiet, hchan]
  reported c happ hlt := by
    have hpos := Procs.pos_of_isApp happ
    have hle := hquiet args.first
    omega
  added := by rw [hadded, Procs.appsBelow_of_le_one (hquiet _), List.map_nil]

/-! ### Barriers -/

theorem Crosses.client_lt {l' : Proc M} (h : Crosses args p l l') (happ : args.isApp p = true) :
    p.val < behind args l' ↔ p.val < behind args l := by
  rcases h.turns with hsame | ⟨hnext, hne, _⟩
  · rw [hsame]
  · have := hne happ
    omega

theorem Crosses.first_lt {l' : Proc M} (h : Crosses args p l l') (hp : p = args.first)
    (happ : args.isApp c = true) : c.val < behind args l' ↔ c.val < behind args l := by
  rcases h.turns with hsame | ⟨hnext, _, hfirst⟩
  · rw [hsame]
  · have hne : c.val ≠ behind args l := by
      intro heq
      have hlt : behind args l < args.numProcs := by
        rw [← heq]
        exact c.isLt
      have hnot := hfirst (by rw [hp]; rfl) hlt
      have hc : (⟨behind args l, hlt⟩ : args.Id) = c := Fin.ext heq.symm
      rw [hc, happ] at hnot
      cases hnot
    omega

theorem Crosses.appsBelow_eq {l' : Proc M} (h : Crosses args p l l') (hp : p = args.first) :
    args.appsBelow (behind args l') = args.appsBelow (behind args l) := by
  rcases h.turns with hsame | ⟨hnext, _, hfirst⟩
  · rw [hsame]
  · rw [hnext]
    exact Procs.appsBelow_of_not (hfirst (by rw [hp]; rfl))

theorem throughput_goto (hloop : l.loop = (v.loc p).loop) :
    throughput args report (v.goto p l) = throughput args report v := by
  funext c
  unfold throughput
  by_cases hc : c = p
  · subst hc
    rw [goto_loc_self, hloop]
  · rw [goto_loc_ne hc]

/-- A barrier changes nothing of the reports. -/
theorem Sim.crosses (h : Sim args report r v) (hcross : Crosses args p (v.loc p) l) :
    Sim args report r (v.goto p l) := by
  have hthr := @throughput_goto args M report v p l hcross.loop
  have hclient : ∀ c, args.isApp c = true →
      (c.val < behind args ((v.goto p l).loc c) ↔ c.val < behind args (v.loc c)) := by
    intro c happ
    by_cases hc : c = p
    · subst hc
      rw [goto_loc_self]
      exact hcross.client_lt happ
    · rw [goto_loc_ne hc]
  have hfirst : ∀ c, args.isApp c = true →
      (c.val < behind args ((v.goto p l).loc args.first) ↔
        c.val < behind args (v.loc args.first)) := by
    intro c happ
    by_cases hp : args.first = p
    · rw [hp, goto_loc_self]
      exact hcross.first_lt hp.symm happ
    · rw [goto_loc_ne hp]
  refine ⟨?_, ?_, ?_⟩
  · intro c d
    rw [goto_chan, h.chan]
    unfold reportOn
    by_cases happ : args.isApp c = true
    · simp only [hclient c happ, hfirst c happ, hthr]
    · simp [happ]
  · intro c happ hlt
    rw [hfirst c happ] at hlt
    rw [hclient c happ]
    exact h.reported c happ hlt
  · rw [hthr]
    by_cases hp : args.first = p
    · subst hp
      rw [goto_loc_self, hcross.added, hcross.appsBelow_eq rfl]
      exact h.added
    · rw [goto_loc_ne hp]
      exact h.added

/-! ### Reports -/

/-- A client sends its report. -/
theorem Sim.step_report (h : Sim args report r v) (hpc : (v.loc p).pc = .report)
    (happ : args.isApp p = true) (hco : (v.loc p).co = p.val)
    (hmsg : (v.loc p).msg = throughput args report v p) :
    Sim args report r ((v.onChan (p, args.first) (.write (v.loc p).msg)).goto p
      { v.loc p with pc := .turn }) := by
  have hne : args.first ≠ p := (Procs.ne_of_isApp happ Procs.isDsl_first).symm
  have hthr := @throughput_goto args M report (v.onChan (p, args.first) (.write (v.loc p).msg)) p
    { v.loc p with pc := .turn } rfl
  have hold : behind args (v.loc p) = p.val := by simp [behind, hpc, hco]
  have hnew : behind args { v.loc p with pc := .turn } = p.val + 1 := by simp [behind, hco]
  refine ⟨?_, ?_, ?_⟩
  · intro c d
    rw [goto_chan, onChan_chan, h.chan, h.chan]
    unfold reportOn
    rw [hthr, goto_loc_ne hne]
    by_cases hc : c = p
    · subst hc
      rw [goto_loc_self, hnew]
      by_cases hd : d = args.first
      · subst hd
        -- process 0 has not taken it
        have hnot : ¬ c.val < behind args (v.loc args.first) := by
          intro hlt
          have := h.reported c happ hlt
          omega
        rw [if_pos rfl, if_neg (by omega), if_pos ⟨happ, rfl, Nat.lt_succ_self _⟩]
        rw [onChan_loc, if_neg hnot, hmsg]
        rfl
      · have hpair : (c, d) ≠ (c, args.first) := fun heq => hd (Prod.mk.inj heq).2
        rw [if_neg hpair, if_neg (fun hall => hd hall.2.1), if_neg (fun hall => hd hall.2.1)]
    · have hpair : (c, d) ≠ (p, args.first) := fun heq => hc (Prod.mk.inj heq).1
      rw [if_neg hpair, goto_loc_ne hc]
      rfl
  · intro c happ' hlt
    rw [goto_loc_ne hne] at hlt
    have hrep := h.reported c happ' hlt
    by_cases hc : c = p
    · subst hc
      rw [goto_loc_self, hnew]
      exact Nat.lt_succ_self _
    · rw [goto_loc_ne hc]
      exact hrep
  · rw [hthr, goto_loc_ne hne]
    exact h.added

/-- Process 0 takes the report of a client. -/
theorem Sim.step_gather (h : Sim args report r v) {m : M} (hpc : (v.loc args.first).pc = .gather)
    (hco : (v.loc args.first).co < args.numProcs)
    (happ : args.isApp ⟨(v.loc args.first).co, hco⟩ = true)
    (hempty : (r.chan (⟨(v.loc args.first).co, hco⟩, args.first)).place = none)
    (hm : (v.chan (⟨(v.loc args.first).co, hco⟩, args.first)).place = some m) :
    Sim args report r ((v.onChan (⟨(v.loc args.first).co, hco⟩, args.first) (.clear m)).goto args.first
      { v.loc args.first with
        pc := .turn, msg := m, added := (v.loc args.first).added ++ [m] }) := by
  have hold : behind args (v.loc args.first) = (v.loc args.first).co := by simp [behind, hpc]
  have hid : (⟨(v.loc args.first).co, hco⟩ : args.Id).val = behind args (v.loc args.first) :=
    hold.symm
  generalize hgen : (⟨(v.loc args.first).co, hco⟩ : args.Id) = c₀ at *
  have hne : c₀ ≠ args.first := Procs.ne_of_isApp happ Procs.isDsl_first
  generalize hl : ({ v.loc args.first with
    pc := .turn, msg := m, added := (v.loc args.first).added ++ [m] } : Proc M) = l at *
  have hnew : behind args l = behind args (v.loc args.first) + 1 := by
    rw [← hl]
    simp [behind, hpc]
  have hthr := @throughput_goto args M report (v.onChan (c₀, args.first) (.clear m)) args.first l (by
    rw [← hl]
    rfl)
  -- the report is there
  have hchan := h.chan c₀ args.first
  unfold reportOn at hchan
  have hrep : c₀.val < behind args (v.loc c₀) := by
    by_contra hnot
    rw [if_neg (fun hall => hnot hall.2.2)] at hchan
    rw [hchan, hempty] at hm
    cases hm
  rw [if_pos ⟨happ, rfl, hrep⟩, if_neg (by omega)] at hchan
  have hmsg : m = throughput args report v c₀ := by
    rw [hchan, OnePlace.write_place] at hm
    exact (Option.some.inj hm).symm
  refine ⟨?_, ?_, ?_⟩
  · intro c d
    rw [goto_chan, onChan_chan]
    unfold reportOn
    rw [hthr, goto_loc_self, hnew]
    by_cases hpair : (c, d) = (c₀, args.first)
    · rcases Prod.mk.inj hpair with ⟨rfl, rfl⟩
      rw [if_pos rfl, goto_loc_ne hne, if_pos ⟨happ, rfl, hrep⟩, if_pos (by omega), hchan, hmsg]
      rfl
    · rw [if_neg hpair, h.chan]
      unfold reportOn
      by_cases hall : args.isApp c = true ∧ d = args.first
      · rcases hall with ⟨happ', rfl⟩
        have hc : c ≠ c₀ := fun heq => hpair (by rw [heq])
        have hc' : c ≠ args.first := Procs.ne_of_isApp happ' Procs.isDsl_first
        have hval : c.val ≠ behind args (v.loc args.first) := fun heq =>
          hc (Fin.ext (heq.trans hid.symm))
        have hiff : c.val < behind args (v.loc args.first) + 1 ↔
            c.val < behind args (v.loc args.first) := by
          omega
        rw [goto_loc_ne hc']
        simp only [hiff]
        rfl
      · rw [if_neg (fun h' => hall ⟨h'.1, h'.2.1⟩), if_neg (fun h' => hall ⟨h'.1, h'.2.1⟩)]
  · intro c happ' hlt
    rw [goto_loc_self, hnew] at hlt
    have hc' : c ≠ args.first := Procs.ne_of_isApp happ' Procs.isDsl_first
    rw [goto_loc_ne hc']
    by_cases hc : c = c₀
    · rw [hc]
      exact hrep
    · have hval : c.val ≠ behind args (v.loc args.first) := fun heq =>
        hc (Fin.ext (heq.trans hid.symm))
      exact h.reported c happ' (by omega)
  · have hadded := h.added
    have hlt : behind args (v.loc args.first) < args.numProcs := by
      rw [← hid]
      exact c₀.isLt
    have hlast : (⟨behind args (v.loc args.first), hlt⟩ : args.Id) = c₀ := Fin.ext hid.symm
    rw [hthr, goto_loc_self, hnew, Procs.appsBelow_of_app hlt (by rw [hlast]; exact happ),
      List.map_append, hlast, ← hl]
    show (v.loc args.first).added ++ [m] = _
    rw [hadded, hmsg]
    rfl

end Facts

/-! ## Every run -/

section Runs

variable {args : ClientServerArgs} {reply : Reply} {M : Type} {W : MsgWords M}
variable {report : args.Id → M → M} {buf : args.Id → M} {H : Halls args.Id (Proc M)}
variable {s t : Meetings args.Id M (Proc M)} {r : State args.Id M (Loc M)} {p c d : args.Id}

/-- A step in a loop leads to a place in the loop, or behind it. -/
theorem loop_step (hp : (s.net.loc p).pc = .loop)
    (hst : Meetings.Step (network args reply W report buf) H s p t) :
    t.net.loc p = s.net.loc p ∨
      ∃ k, t.net.loc p = Proc.enter args report p { s.net.loc p with loop := k } := by
  have hnext := @next_loop args reply M W report p _ hp
  have hmeet : ∀ k, (network args reply W report buf).next p (s.net.loc p) ≠ .meet k := by
    intro k hk
    rcases map_eq_meet (hnext.symm.trans hk) with ⟨_, hk', _⟩
    exact loops_not_meet hk'
  cases hst with
  | move hmove _ =>
      rcases Meetings.goes_of_step hmove hmeet with ⟨k, hk, hloc⟩ | ⟨_, rfl, _⟩
      · have hleads : (next args reply W report p (s.net.loc p)).Leads k := leads_of_goes hk
        rw [hnext] at hleads
        rcases leads_map hleads with ⟨k', _, rfl⟩
        exact Or.inr ⟨k', hloc⟩
      · exact Or.inl rfl
  | skip hk _ => exact absurd hk (hmeet _)
  | come hk _ _ => exact absurd hk (hmeet _)
  | pass hk _ _ => exact absurd hk (hmeet _)

/-- The state `r` of the loops that belongs to the state `s` of the programs. -/
structure Belongs (reply : Reply) (W : MsgWords M) (report : args.Id → M → M) (buf : args.Id → M)
    (r : State args.Id M (Loc M)) (s : Meetings args.Id M (Proc M)) : Prop where
  reachable : (ClientServer.network args reply W buf).system.Reachable r
  follows : Part.Follows Barrier.ssmpNumBarriers inside inLoop r s
  sim : Sim args report r s.net

theorem Belongs.loc (h : Belongs reply W report buf r s) (p : args.Id) : r.loc p = (s.net.loc p).loop :=
  h.follows.loc p

/-- Nothing is left for process 0 when it has left its loop. -/
theorem empty_of_over (hmsgs : args.numDsl < args.numMsgs)
    (hr : (ClientServer.network args reply W buf).system.Reachable r)
    (hover : (r.loc args.first).over = true) (happ : args.isApp c = true) :
    (r.chan (c, args.first)).place = none := by
  rcases exists_server hr (@Procs.isDsl_first args.toProcs) with ⟨sv, hloc⟩
  rw [hloc] at hover
  exact place_of_complete hr happ (complete_of_done hmsgs hr hloc (of_decide_eq_true hover) happ)

section Together

variable (hmsgs : args.numDsl < args.numMsgs) (hhall : H.hall = hall args)
variable (hmember : ∀ p, H.member 0 p = true) (hnone : ∀ p, H.member Barrier.ssmpNumBarriers p = false)

include hmsgs hhall hmember hnone

theorem belongs (h : (Meetings.system (network args reply W report buf) H).Reachable s) :
    ∃ r, Belongs reply W report buf r s := by
  have hinv : ∃ r, (ClientServer.network args reply W buf).system.Reachable r ∧
      Part.Follows Barrier.ssmpNumBarriers inside inLoop r s ∧ Sim args report r s.net := by
    refine (part hhall hnone).invariant (I := fun r s => Sim args report r s.net) ?_ ?_ ?_ ?_ h
    · intro r s hr hs
      refine Sim.of_quiet ?_ ?_ (by rw [hs.net.loc]; rfl)
      · intro q
        rw [hs.net.loc]
        exact Nat.zero_le _
      · funext cd
        rw [hr.chan, hs.net.chan]
    · intro r s p _ hs _ hsim hp
      have hquiet := behind_le_one hhall hmember hs (of_decide_eq_true hp)
      funext cd
      exact ((hsim.chan cd.1 cd.2).trans (reportOn_of_quiet hquiet)).symm
    · intro r s p u t _ hs _ hsim hp hst _ hchan
      have hpc : (s.net.loc p).pc = .loop := of_decide_eq_true hp
      have hquiet := behind_le_one hhall hmember hs hpc
      have hadded := hsim.added
      rw [Procs.appsBelow_of_le_one (hquiet _), List.map_nil] at hadded
      have hstep := loop_step hpc hst
      refine Sim.of_quiet ?_ hchan ?_
      · intro q
        by_cases hq : q = p
        · subst hq
          rcases hstep with hsame | ⟨k, hk⟩
          · rw [hsame]
            exact hquiet q
          · rw [hk]
            exact behind_enter
        · rw [(hst.waits_ne hq).2.1]
          exact hquiet q
      · by_cases hq : args.first = p
        · rw [hq] at hadded ⊢
          rcases hstep with hsame | ⟨k, hk⟩
          · rw [hsame, hadded]
          · rw [hk, enter_added, hadded]
        · rw [(hst.waits_ne hq).2.1, hadded]
    · intro r s p t hr hs hfollows hsim hp hst
      have hpc : (s.net.loc p).pc ≠ .loop := of_decide_eq_false hp
      cases hst with
      | skip hnext _ => exact hsim.crosses ((fit hs p).crosses hnext)
      | come _ _ _ => exact ⟨hsim.chan, hsim.reported, hsim.added⟩
      | pass hnext _ _ =>
          have hleft : Sim args report r (s.net.leave p) := ⟨hsim.chan, hsim.reported, hsim.added⟩
          exact hleft.crosses ((fit hs p).crosses hnext)
      | @move v hmove hmeet =>
          have heff := hmove.effect
          cases fit hs p with
          | opening hpc' _ _ => exact absurd (next_opening hpc') (hmeet _)
          | loop hpc' _ => exact absurd hpc' hpc
          | turn hpc' _ _ _ => exact absurd (next_turn hpc') (hmeet _)
          | report hpc' _ happ hco hmsg =>
              simp only [network, next_report hpc'] at heff
              rcases heff with ⟨_, rfl⟩
              exact hsim.step_report hpc' happ hco hmsg
          | gather hpc' hover hme hco happ =>
              have hfirst : p = args.first := Fin.ext hme
              subst hfirst
              simp only [network, next_gather hpc' hco] at heff
              rcases heff with ⟨m, hm, rfl⟩
              refine hsim.step_gather hpc' hco happ ?_ hm
              refine empty_of_over hmsgs hr ?_ happ
              rw [hfollows.loc]
              exact hover
          | past hpc' _ =>
              rcases hpc' with hpc' | hpc'
              · exact absurd (next_last hpc') (hmeet _)
              · simp only [network, next_done hpc'] at heff
                exact heff.elim
  rcases hinv with ⟨r, hr, hfollows, hsim⟩
  exact ⟨r, hr, hfollows, hsim⟩

omit hmsgs hnone in
theorem Belongs.chan (h : Belongs reply W report buf r s)
    (hs : (Meetings.system (network args reply W report buf) H).Reachable s)
    (hp : (s.net.loc p).pc = .loop) : r.chan = s.net.chan := by
  funext cd
  exact ((h.sim.chan cd.1 cd.2).trans (reportOn_of_quiet (behind_le_one hhall hmember hs hp))).symm

/-- A reply overwrites an empty place, here too. -/
theorem safe (h : (Meetings.system (network args reply W report buf) H).Reachable s) :
    (network args reply W report buf).Safe s.net := by
  intro p d m k hnext
  rcases belongs hmsgs hhall hmember hnone h with ⟨r, hr⟩
  cases fit h p with
  | loop hpc _ =>
      rcases map_eq_overwrite ((next_loop hpc).symm.trans hnext) with ⟨k', hk', _⟩
      rw [← hr.chan hhall hmember h hpc]
      refine ClientServer.safe hr.reachable p d m k' ?_
      rw [hr.loc]
      exact hk'
  | opening hpc _ _ => cases (next_opening hpc).symm.trans hnext
  | report hpc _ _ _ _ => cases (next_report hpc).symm.trans hnext
  | gather hpc _ _ hco _ => cases (next_gather hpc hco).symm.trans hnext
  | turn hpc _ _ _ => cases (next_turn hpc).symm.trans hnext
  | past hpc _ =>
      rcases hpc with hpc | hpc
      · cases (next_last hpc).symm.trans hnext
      · cases (next_done hpc).symm.trans hnext

end Together

end Runs

end Main
end ClientServer
end Bench
end Ssmp
