import Ssmp.Bench.OneToOneRuns

/-!
# Bench.OneToOneEnd — the end of `one2one.c` and `cs.c`

The processes of every pair come to their end, if there is a message to send at all (`pairs_terminate`).
Whoever is not at a barrier and not behind its partner does not wait in vain (`not_stuck`).  With a
barrier in the last loop, the reports are printed in the order of the ids (`reports_in_order`).
-/

namespace Ssmp
namespace Bench

open Lib Network

namespace OneToOne

/-! ## Nobody gets stuck -/

section Stuck

variable {V : Variant} {args : OneToOneArgs} {M : Type} {W : MsgWords M} {buf : args.Id → M}
variable {H : Halls args.Id (Proc M)} {s t : Meetings args.Id M (Proc M)} {p q : args.Id}
variable {i j i' j' : Nat}

/-- `p` puts messages: it sends, or there are replies. -/
def Puts (V : Variant) (args : OneToOneArgs) (p : args.Id) : Prop :=
  args.receives p = false ∨ V.roundTrip = true

theorem length_given (hp : Puts V args p) (k : Nat) : (given V args W buf p k).length = k := by
  unfold given
  cases hrecv : args.receives p with
  | false => simp
  | true =>
      rcases hp with hp | hrt
      · rw [hrecv] at hp
        cases hp
      · simp [replies_of_roundTrip hrt]

/-- The channel from `p` to its partner holds what has been put and not been taken. -/
theorem in_channel (h : (Meetings.system (network V args W buf) H).Reachable s) (hp : Puts V args p)
    (hputs : s.net.puts p (args.partner p) = given V args W buf p i)
    (htakes : s.net.takes (args.partner p) p = got V args W buf (args.partner p) j) :
    (s.net.chan (p, args.partner p)).place = none ∧ i = j ∨
      (s.net.chan (p, args.partner p)).place ≠ none ∧ i = j + 1 := by
  have hfifo := Meetings.fifo (fun s _ => safe s.net) h (p, args.partner p)
  have hins : (s.net.chan (p, args.partner p)).ins = given V args W buf p i := hputs
  have houts : (s.net.chan (p, args.partner p)).outs = given V args W buf p j := by
    rw [← given_partner, OneToOneArgs.partner_partner] at htakes
    exact htakes
  have hlen := congrArg List.length hfifo
  rw [hins, houts, List.length_append, length_given hp, length_given hp] at hlen
  cases hplace : (s.net.chan (p, args.partner p)).place with
  | none => exact Or.inl ⟨rfl, by simpa [hplace] using hlen⟩
  | some m => exact Or.inr ⟨by simp, by simpa [hplace] using hlen⟩

/-- The role of a process and its counts, by where it is. -/
def Stands (V : Variant) (args : OneToOneArgs) (p : args.Id) (l : Proc M) (i j : Nat) : Prop :=
  match l.pc with
  | .opening => pos V args l < V.opening
  | .recv => args.receives p = true ∧ i = j ∧ (j < args.total ∨ j = 0)
  | .reply => args.receives p = true ∧ V.roundTrip = true ∧ j = i + 1 ∧ i < args.total
  | .send => args.receives p = false ∧ i = j ∧ i < args.total
  | .await => args.receives p = false ∧ V.roundTrip = true ∧ i = j + 1 ∧ j < args.total
  | .closing => i = args.total ∧ j = args.total
  | .done => i = args.total ∧ j = args.total

theorem Stage.stands {l : Proc M} (h : Stage V args W buf p l i j) : Stands V args p l i j := by
  unfold Stands
  cases h with
  | opening hpc hco _ _ => simpa [hpc, pos] using hco
  | recv hp hpc _ hk _ => simpa [hpc, hp] using hk
  | reply hrt hp hpc _ _ hk _ => simpa [hpc, hp, hrt] using hk
  | send hp hpc _ _ hk _ => simpa [hpc, hp] using hk
  | await hrt hp hpc _ hk _ => simpa [hpc, hp, hrt] using hk
  | past hpc _ => rcases hpc with ⟨hpc, _⟩ | ⟨hpc, _⟩ <;> simp [hpc]

/-- Who is not behind a process in its loop, and waits at a barrier, is through with its messages. -/
theorem Stands.all_of_meet {l : Proc M} {k : Proc M} (h : Stands V args p l i j)
    (hnext : next V args W p l = .meet k) (hpos : V.opening ≤ pos V args l) :
    i = args.total ∧ j = args.total := by
  unfold Stands at h
  cases hpc : l.pc with
  | opening =>
      rw [hpc] at h
      exact absurd hpos (Nat.not_le_of_lt h)
  | closing =>
      rw [hpc] at h
      exact h
  | _ => simp [next, hpc] at hnext

/-- What a blocked process waits for. -/
inductive WaitsFor (V : Variant) (s : Meetings args.Id M (Proc M)) (p : args.Id) : Prop where
  /-- Others, at a barrier. -/
  | others {k : Proc M} (hnext : next V args W p (s.net.loc p) = .meet k)
  | message (hpc : (s.net.loc p).pc = .recv ∨ (s.net.loc p).pc = .await)
      (hplace : (s.net.chan (args.partner p, p)).place = none)
  | room (hpc : (s.net.loc p).pc = .reply ∨ (s.net.loc p).pc = .send)
      (hplace : (s.net.chan (p, args.partner p)).place ≠ none)
  | nothing (hpc : (s.net.loc p).pc = .done)

theorem waitsFor (h : Meetings.Blocked (network V args W buf) H s p) : WaitsFor (W := W) V s p := by
  unfold Meetings.Blocked at h
  cases hpc : (s.net.loc p).pc with
  | opening => exact WaitsFor.others (by simp only [next, hpc]; rfl)
  | closing => exact WaitsFor.others (by simp only [next, hpc]; rfl)
  | recv =>
      simp only [network, next, hpc] at h
      exact WaitsFor.message (Or.inl hpc) h
  | await =>
      simp only [network, next, hpc] at h
      exact WaitsFor.message (Or.inr hpc) h
  | reply =>
      simp only [network, next, hpc] at h
      exact WaitsFor.room (Or.inl hpc) h
  | send =>
      simp only [network, next, hpc] at h
      exact WaitsFor.room (Or.inr hpc) h
  | done => exact WaitsFor.nothing hpc

/-- Whoever is not at a barrier, and not behind its partner, does not wait in vain. -/
theorem not_stuck (htotal : 0 < args.total)
    (h : (Meetings.system (network V args W buf) H).Reachable s)
    (hblocked : ∀ p, Meetings.Blocked (network V args W buf) H s p)
    (hmeet : ∀ k, (network V args W buf).next p (s.net.loc p) ≠ .meet k)
    (hleast : ∀ r k, (network V args W buf).next r (s.net.loc r) = .meet k →
      pos V args (s.net.loc p) ≤ pos V args (s.net.loc r)) : (s.net.loc p).pc = .done := by
  rcases (account h p).pair with ⟨i, j, hstage, hputs, htakes⟩
  rcases (account h (args.partner p)).pair with ⟨i', j', hstage', hputs', htakes'⟩
  have hback := @OneToOneArgs.receives_partner args p
  -- what the two channels of the pair hold
  have hout := fun hp => @in_channel V args M W buf H s p i j' h hp hputs (by
    rwa [OneToOneArgs.partner_partner] at htakes')
  have hin := fun hp => @in_channel V args M W buf H s (args.partner p) i' j h hp hputs' (by
    rwa [OneToOneArgs.partner_partner])
  rw [OneToOneArgs.partner_partner] at hin
  have hstands := hstage.stands
  have hstands' := hstage'.stands
  have hbehind : ∀ k, next V args W _ (s.net.loc (args.partner p)) = .meet k →
      pos V args (s.net.loc p) ≤ pos V args (s.net.loc (args.partner p)) := hleast _
  cases waitsFor (hblocked p) with
  | others hnext => exact absurd hnext (hmeet _)
  | nothing hpc => exact hpc
  | message hpc hplace =>
      -- the partner has put what has been taken, and could put more
      have hj : j < args.total ∧ pos V args (s.net.loc p) = V.opening ∧
          (args.receives p = true ∧ i = j ∨
            args.receives p = false ∧ V.roundTrip = true ∧ i = j + 1) := by
        rcases hpc with hpc | hpc
        · simp only [Stands, hpc] at hstands
          exact ⟨by omega, by simp [pos, hpc], Or.inl ⟨hstands.1, hstands.2.1⟩⟩
        · simp only [Stands, hpc] at hstands
          exact ⟨hstands.2.2.2, by simp [pos, hpc], Or.inr ⟨hstands.1, hstands.2.1, hstands.2.2.1⟩⟩
      rcases hj with ⟨hj, hpos, hrole⟩
      have hputs : Puts V args (args.partner p) := by
        rcases hrole with ⟨hp, _⟩ | ⟨_, hrt, _⟩
        · exact Or.inl (by rw [hback, hp]; rfl)
        · exact Or.inr hrt
      have hi' : i' = j := by
        rcases hin hputs with ⟨_, heq⟩ | ⟨hfull, _⟩
        · exact heq
        · exact absurd hplace hfull
      cases waitsFor (hblocked (args.partner p)) with
      | others hnext =>
          have hall := hstands'.all_of_meet hnext (hpos ▸ hbehind _ hnext)
          omega
      | message hpc' hplace' =>
          -- both would wait for a message
          rw [OneToOneArgs.partner_partner] at hplace'
          have heq : Puts V args p → i = j' := by
            intro hp
            rcases hout hp with ⟨_, heq⟩ | ⟨hfull, _⟩
            · exact heq
            · exact absurd hplace' hfull
          rcases hpc' with hpc' | hpc'
          · simp only [Stands, hpc', hback] at hstands'
            rcases hrole with ⟨hp, _⟩ | ⟨hp, _, _⟩
            · simp [hp] at hstands'
            · have := heq (Or.inl hp)
              omega
          · simp only [Stands, hpc', hback] at hstands'
            rcases hrole with ⟨hp, _⟩ | ⟨hp, _, _⟩
            · have := heq (Or.inr hstands'.2.1)
              omega
            · simp [hp] at hstands'
      | room hpc' hplace' =>
          rw [OneToOneArgs.partner_partner] at hplace'
          exact absurd hplace hplace'
      | nothing hpc' =>
          simp only [Stands, hpc'] at hstands'
          omega
  | room hpc hplace =>
      -- the partner has not taken what has been put, and could take it
      have hi : i < args.total ∧ pos V args (s.net.loc p) = V.opening ∧
          (args.receives p = true ∧ V.roundTrip = true ∧ j = i + 1 ∨
            args.receives p = false ∧ i = j) := by
        rcases hpc with hpc | hpc
        · simp only [Stands, hpc] at hstands
          exact ⟨hstands.2.2.2, by simp [pos, hpc],
            Or.inl ⟨hstands.1, hstands.2.1, hstands.2.2.1⟩⟩
        · simp only [Stands, hpc] at hstands
          exact ⟨hstands.2.2, by simp [pos, hpc], Or.inr ⟨hstands.1, hstands.2.1⟩⟩
      rcases hi with ⟨hi, hpos, hrole⟩
      have hputs : Puts V args p := by
        rcases hrole with ⟨_, hrt, _⟩ | ⟨hp, _⟩
        · exact Or.inr hrt
        · exact Or.inl hp
      have hj' : i = j' + 1 := by
        rcases hout hputs with ⟨hfree, _⟩ | ⟨_, heq⟩
        · exact absurd hfree hplace
        · exact heq
      cases waitsFor (hblocked (args.partner p)) with
      | others hnext =>
          have hall := hstands'.all_of_meet hnext (hpos ▸ hbehind _ hnext)
          omega
      | message hpc' hplace' =>
          rw [OneToOneArgs.partner_partner] at hplace'
          exact absurd hplace' hplace
      | room hpc' hplace' =>
          -- both would wait for room
          rw [OneToOneArgs.partner_partner] at hplace'
          have heq : Puts V args (args.partner p) → i' = j + 1 := by
            intro hp
            rcases hin hp with ⟨hfree, _⟩ | ⟨_, heq⟩
            · exact absurd hfree hplace'
            · exact heq
          rcases hpc' with hpc' | hpc'
          · simp only [Stands, hpc', hback] at hstands'
            rcases hrole with ⟨hp, _, _⟩ | ⟨hp, _⟩
            · simp [hp] at hstands'
            · have := heq (Or.inr hstands'.2.1)
              omega
          · simp only [Stands, hpc', hback] at hstands'
            rcases hrole with ⟨hp, _, _⟩ | ⟨hp, _⟩
            · have := heq (Or.inl (by rw [hback, hp]; rfl))
              omega
            · simp [hp] at hstands'
      | nothing hpc' =>
          simp only [Stands, hpc'] at hstands'
          omega

theorem done_of_blocked (htotal : 0 < args.total) (hhall : H.hall = hall args)
    (h : (Meetings.system (network V args W buf) H).Reachable s)
    (hblocked : ∀ p, Meetings.Blocked (network V args W buf) H s p) (p : args.Id) :
    (s.net.loc p).pc = .done := by
  have hnone : ∀ r k, (network V args W buf).next r (s.net.loc r) ≠ .meet k := by
    intro r k hr
    -- the one behind all who are at a barrier would be at the end
    rcases (inOrder hhall).exists_behind h hblocked hr with ⟨q, hmeet, hleast⟩
    have hdone := not_stuck htotal h hblocked hmeet hleast
    rcases (account h r).pair with ⟨_, _, hstage, _, _⟩
    have hlt := hstage.pos_lt hr
    have hle := hleast r k hr
    simp only [pos, hdone] at hle
    exact Nat.not_le_of_lt hlt hle
  exact not_stuck htotal h hblocked (hnone p) fun r k hr => absurd hr (hnone r k)

theorem total_pos_iff : 0 < args.total ↔ 0 < args.numMsgs := by
  unfold OneToOneArgs.total
  omega

/-- A receiver has come to its end only if there is a message. -/
theorem total_pos_of_done (h : (Meetings.system (network V args W buf) H).Reachable s)
    (hp : args.receives p = true) (hdone : (s.net.loc p).pc = .done) : 0 < args.total := by
  rcases (account h p).pair with ⟨_, _, hstage, _, _⟩
  cases hstage with
  | past _ htotal => exact (htotal hp).1
  | opening hpc _ _ _ => simp [hdone] at hpc
  | recv _ hpc _ _ _ => simp [hdone] at hpc
  | reply _ _ hpc _ _ _ _ => simp [hdone] at hpc
  | send _ hpc _ _ _ _ => simp [hdone] at hpc
  | await _ _ hpc _ _ _ => simp [hdone] at hpc

end Stuck

/-! ## The end -/

section End

variable (V : Variant) (args : OneToOneArgs) {M : Type} (W : MsgWords M) (buf : args.Id → M)

/-- Barriers with any participants. -/
def halls (member : Nat → args.Id → Bool) : Halls args.Id (Proc M) where
  hall := hall args
  member := member

/-- Whatever the order of the steps, a run of the network is bounded; and every run can be continued
until all processes have come to their end, if and only if there is a message to send. -/
theorem pairs_terminate (member : Nat → args.Id → Bool) :
    (∀ s t k, Meetings.Init (network V args W buf) s →
      (Meetings.system (network V args W buf) (halls args member)).Run k s t →
        k ≤ args.numProcs * (2 * (V.opening + args.numProcs + 2 * args.total + 1) + 1)) ∧
      ((∀ s, (Meetings.system (network V args W buf) (halls args member)).Reachable s →
          ∃ t, (Meetings.system (network V args W buf) (halls args member)).Steps s t ∧
            ∀ p, (t.net.loc p).pc = .done) ↔ 0 < args.numMsgs) := by
  refine ⟨?_, ?_⟩
  · intro s t k hinit hrun
    refine Nat.le_trans (ranked.length_le noScan (TransSys.Reachable.init hinit) hrun) (Nat.le_of_eq ?_)
    have hwork : ∀ p, Meetings.workOf (rank V args) s p =
        2 * (V.opening + args.numProcs + 2 * args.total + 1) + 1 := by
      intro p
      simp [Meetings.workOf, rank, hinit.net.loc, hinit.net.waits, network, start, left]
    rw [Meetings.work, Finset.sum_congr rfl fun p _ => hwork p, Finset.sum_const, Finset.card_univ,
      Fintype.card_fin, smul_eq_mul]
  · rw [← total_pos_iff]
    constructor
    · intro hall
      have hfresh : (Meetings.system (network V args W buf) (halls args member)).Reachable
          ⟨(network V args W buf).fresh, fun _ _ => 0⟩ :=
        TransSys.Reachable.init ⟨init_fresh, fun _ _ => rfl⟩
      rcases hall _ hfresh with ⟨t, hsteps, hdone⟩
      exact total_pos_of_done (p := ⟨0, args.numProcs_pos⟩) (hfresh.steps hsteps) rfl (hdone _)
    · intro htotal s hs
      rcases ranked.exists_blocked noScan hs with ⟨t, hsteps, hblocked⟩
      exact ⟨t, hsteps, done_of_blocked htotal rfl (hs.steps hsteps) hblocked⟩

end End

/-! ## The reports -/

section Reports

variable {V : Variant} {args : OneToOneArgs} {M : Type} {W : MsgWords M} {buf : args.Id → M}
variable {H : Halls args.Id (Proc M)} {s : Meetings args.Id M (Proc M)} {p q : args.Id}
variable {l l' : Proc M} {i j : Nat}

/-- Who has begun the turn of its report has been at the barriers before it. -/
theorem Stage.pos_of_reported (h : Stage V args W buf p l i j) (hcloses : V.closes = true)
    (hrep : l.reported = true) : V.opening + p.val ≤ pos V args l := by
  cases h with
  | past hpc _ =>
      rcases hpc with ⟨hpc, _, _, hdecide⟩ | ⟨hpc, _⟩
      · rw [hrep] at hdecide
        simpa [pos, hpc] using hdecide
      · simp only [pos, hpc, hcloses, if_true]
        omega
  | opening _ _ _ hrep' => simp [hrep] at hrep'
  | recv _ _ _ _ hrep' => simp [hrep] at hrep'
  | reply _ _ _ _ _ _ hrep' => simp [hrep] at hrep'
  | send _ _ _ _ _ hrep' => simp [hrep] at hrep'
  | await _ _ _ _ _ hrep' => simp [hrep] at hrep'

/-- When a process has begun the turn of its report, those with smaller ids have come to a later
barrier than the one before theirs. -/
theorem behind_report (hcloses : V.closes = true) (hhall : H.hall = hall args)
    (h : (Meetings.system (network V args W buf) H).Reachable s) (hp : H.member 0 p = true)
    (hq : H.member 0 q = true) (hlt : p.val < q.val) (hrep : (s.net.loc q).reported = true) :
    V.opening + p.val < pos V args (s.net.loc p) ∨
      V.opening + p.val ≤ pos V args (s.net.loc p) ∧ s.net.waits p = true := by
  rcases (account h q).pair with ⟨_, _, hstage, _, _⟩
  have hpos := hstage.pos_of_reported hcloses hrep
  have hbarrier : (seq V args)[V.opening + q.val - 1]? = some 0 := by
    rw [seq, List.getElem?_replicate, if_pos]
    rw [if_pos hcloses]
    omega
  rcases (inOrder hhall).together h (by omega) hbarrier hq hp with hpast | ⟨heq, hwaits⟩
  · exact Or.inl (by omega)
  · exact Or.inr ⟨by omega, hwaits⟩

/-- So they have begun the turns of theirs. -/
theorem reports_in_order (hcloses : V.closes = true) (hhall : H.hall = hall args)
    (h : (Meetings.system (network V args W buf) H).Reachable s) (hp : H.member 0 p = true)
    (hq : H.member 0 q = true) (hlt : p.val < q.val) (hrep : (s.net.loc q).reported = true) :
    (s.net.loc p).reported = true := by
  have hbehind := behind_report hcloses hhall h hp hq hlt hrep
  rcases (account h p).pair with ⟨_, _, hstage, _, _⟩
  -- who is in its loop is not at a barrier
  have hloop : pos V args (s.net.loc p) = V.opening →
      ∃ k, next V args W p (s.net.loc p) = .meet k := by
    intro hpos
    rcases hbehind with hpast | ⟨_, hwaits⟩
    · omega
    · exact (Meetings.waits_of_reachable h p hwaits).meet
  cases hstage with
  | past hpc _ =>
      rcases hpc with ⟨hpc, _, _, hdecide⟩ | ⟨_, hrep'⟩
      · simp only [pos, hpc] at hbehind
        rw [hdecide, decide_eq_true_eq]
        omega
      · exact hrep'
  | opening hpc hco _ _ =>
      simp only [pos, hpc] at hbehind
      omega
  | recv _ hpc _ _ _ =>
      rcases hloop (by simp [pos, hpc]) with ⟨k, hk⟩
      simp [next, hpc] at hk
  | reply _ _ hpc _ _ _ _ =>
      rcases hloop (by simp [pos, hpc]) with ⟨k, hk⟩
      simp [next, hpc] at hk
  | send _ hpc _ _ _ _ =>
      rcases hloop (by simp [pos, hpc]) with ⟨k, hk⟩
      simp [next, hpc] at hk
  | await _ _ hpc _ _ _ =>
      rcases hloop (by simp [pos, hpc]) with ⟨k, hk⟩
      simp [next, hpc] at hk

/-! ### In a call -/

theorem pos_close (hcloses : V.closes = true) : pos V args (Proc.close V args p 0 l) = V.opening := by
  simp [Proc.close, hcloses, args.numProcs_pos, pos]

theorem pos_testRecv (hcloses : V.closes = true) :
    pos V args (Proc.testRecv V args W p l) = V.opening := by
  unfold Proc.testRecv
  split
  · exact pos_close hcloses
  · split
    · simp only
      split <;> rfl
    · rfl

theorem pos_testSend (hcloses : V.closes = true) :
    pos V args (Proc.testSend V args W p l) = V.opening := by
  unfold Proc.testSend
  split
  · rfl
  · exact pos_close hcloses

theorem pos_testReply (hcloses : V.closes = true) :
    pos V args (Proc.testReply V args W p l) = V.opening := by
  unfold Proc.testReply
  split <;> exact pos_testSend hcloses

theorem pos_of_put (hcloses : V.closes = true) {d : args.Id} {m : M}
    (h : next V args W p l = .put d m l') : pos V args l = V.opening ∧ pos V args l' = V.opening := by
  cases hpc : l.pc with
  | reply =>
      simp only [next, hpc, Action.put.injEq] at h
      rw [← h.2.2]
      exact ⟨by simp [pos, hpc], pos_testRecv hcloses⟩
  | send =>
      simp only [next, hpc, Action.put.injEq] at h
      rw [← h.2.2]
      refine ⟨by simp [pos, hpc], ?_⟩
      split
      · rfl
      · exact pos_testSend hcloses
  | _ => simp [next, hpc] at h

theorem pos_of_take (hcloses : V.closes = true) {r : args.Id} {f : M → Proc M}
    (h : next V args W p l = .take r f) (m : M) :
    pos V args l = V.opening ∧ pos V args (f m) = V.opening := by
  cases hpc : l.pc with
  | recv =>
      simp only [next, hpc, Action.take.injEq] at h
      rw [← h.2]
      refine ⟨by simp [pos, hpc], ?_⟩
      simp only
      split
      · rfl
      · exact pos_testRecv hcloses
  | await =>
      simp only [next, hpc, Action.take.injEq] at h
      rw [← h.2]
      exact ⟨by simp [pos, hpc], pos_testReply hcloses⟩
  | _ => simp [next, hpc] at h

end Reports

end OneToOne
end Bench
end Ssmp
