import Ssmp.Barrier.Progress
import Ssmp.Linked.Refines
import Ssmp.Whole.Model

/-!
# Whole.Refines — programs on the whole library run as on the network

A program that uses the messages and the barriers of the library does what the same program does on
one-place channels and in halls where it waits for the others (`refines`).  A call of
`ssmp_barrier_wait` comes to its hall when it increments `ticket`, and it has passed when it returns:
by then every participant has come as often.
-/

namespace Ssmp

open Lib Barrier Network
open PhaseBarrier (Stage Inv)

namespace Whole

section Relation

variable {n : Nat} {σ : Type}

/-- Where a process is that calls `ssmp_barrier_wait(bar)`, of which it is a participant if `member`,
and whether it waits in the hall.  The first argument says that it is in the call. -/
inductive Stand (bar : Nat) (member : Bool) : Bool → List Nat → Pc → Bool → Prop where
  | out : Stand bar member false [] .idle false
  | asked : Stand bar member true [bar] .idle false
  | before {pc : Pc} (hbar : bar < ssmpNumBarriers)
      (hpc : ∃ numPart, pc = .waitClear bar numPart ∨ pc = .addTicket bar numPart) :
      Stand bar member true [] pc false
  | inside {pc : Pc} (hbar : bar < ssmpNumBarriers)
      (hpc : pc = .setCleared bar ∨ pc = .waitSet bar ∨ pc = .subTicket bar ∨
        pc = .resetCleared bar) : Stand bar member true [] pc true
  | returning : Stand bar member true [] (.ret bar) member
  | returned : Stand bar member true [] .idle member

/-- The barriers are in order. -/
def BarsOk (barriers : Nat → SsmpBarrier) (s : Barrier.State n) : Prop :=
  ∀ bar < ssmpNumBarriers, WellFormed barriers bar s ∧ Inv (Barrier.view barriers bar s)

/-- The state `a` of the network with halls is the one that `x` stands for. -/
structure Rel (b : Build) (N : Network (Fin n) b.layout.Payload σ) (hall : Fin n → σ → Nat)
    (barriers : Nat → SsmpBarrier) (x : Whole b.layout n σ)
    (a : Meetings (Fin n) b.layout.Payload σ) : Prop where
  linked : Linked.Rel b N x.linked (Meetings.bare a.net)
  bars : BarsOk barriers x.bars
  came : ∀ p bar, a.came p bar = (x.bars.arrived p).count bar
  stand : ∀ p, Stand (hall p (x.loc p)) ((halls hall barriers).member (hall p (x.loc p)) p)
    (x.inWait p) (x.bars.todo p) (x.bars.pc p) (a.net.waits p)
  idle : ∀ p, x.inWait p = true → x.busy p = false ∧ ∃ k, N.next p (x.loc p) = .meet k

end Relation

/-! ## The barriers -/

section Bars

variable {n : Nat} {barriers : Nat → SsmpBarrier} {s : Barrier.State n} {p q : Fin n} {bar : Nat}

theorem BarsOk.init (hready : ∀ bar < ssmpNumBarriers, (barriers bar).Counted n)
    (hn : n < 2 ^ 31) (h : s.Init barriers fun _ => []) : BarsOk barriers s := by
  intro bar hbar
  exact inv_of_counted hn hbar (hready bar hbar) (TransSys.Reachable.init h)

theorem BarsOk.step (hready : ∀ bar < ssmpNumBarriers, (barriers bar).Counted n)
    (hn : n < 2 ^ 31) (h : BarsOk barriers s) (p : Fin n) : BarsOk barriers (s.step p) := by
  intro bar hbar
  rcases h bar hbar with ⟨hw, hi⟩
  have hcounts := (hready bar hbar).counts
  refine ⟨hw.step hcounts hbar p, ?_⟩
  rcases view_step hn hcounts hbar hw hi p with hsame | ⟨_, hmove⟩
  · rw [hsame]
    exact hi
  · exact hi.move hmove

theorem BarsOk.ask (h : BarsOk barriers s) (p : Fin n) (bar : Nat) :
    BarsOk barriers (s.ask p bar) := by
  intro bar' hbar
  rcases h bar' hbar with ⟨hw, hi⟩
  exact ⟨⟨hw.color, hw.participants, hw.cleared, hw.pc⟩, hi⟩

/-- Who is in a call of a barrier that exists is a participant. -/
theorem BarsOk.member (h : BarsOk barriers s) (hbar : bar < ssmpNumBarriers)
    (hcur : (s.pc p).current = some bar) (hret : s.pc p ≠ .ret bar) :
    (barriers bar).member p = true := by
  have hok := (h bar hbar).1.pc p
  cases hpc : s.pc p with
  | idle => simp [hpc, Pc.current] at hcur
  | ret b' =>
      have hb : b' = bar := by simpa [hpc, Pc.current] using hcur
      exact absurd (hb ▸ hpc) hret
  | waitClear b' numPart =>
      rw [hpc] at hok
      exact (hok (by simpa [hpc, Pc.current] using hcur)).1
  | addTicket b' numPart =>
      rw [hpc] at hok
      exact (hok (by simpa [hpc, Pc.current] using hcur)).1
  | _ =>
      rw [hpc] at hok
      exact hok (by simpa [hpc, Pc.current] using hcur)

theorem entered_eq_of_out {P : Type} [Fintype P] {v : PhaseBarrier.State P} {q : P} (h : Inv v)
    (hq : v.stage q = .out) : v.entered q = v.completed q := by
  rcases h.phase with ⟨r, hg | hr⟩
  · have hok := hg.each q
    simp only [PhaseBarrier.GatherOk, hq] at hok
    rw [hok.1, hok.2]
  · have hok := hr.each q
    simp only [PhaseBarrier.ReleaseOk, hq] at hok
    rw [hok.1, hok.2]

/-- When a participant is out of a barrier, every participant has come as often as it has. -/
theorem BarsOk.all_came (h : BarsOk barriers s) (hbar : bar < ssmpNumBarriers)
    (hpc : s.pc p = .idle) (hp : (barriers bar).member p = true)
    (hq : (barriers bar).member q = true) :
    (s.arrived p).count bar ≤ (s.arrived q).count bar := by
  have hi := (h bar hbar).2
  have hout : (Barrier.view barriers bar s).stage ⟨p, hp⟩ = .out := by
    simp [Barrier.view, hpc, stageAt]
  have heq : (s.arrived p).count bar = (s.returned p).count bar := entered_eq_of_out hi hout
  rw [heq]
  exact hi.completed_le ⟨p, hp⟩ ⟨q, hq⟩

end Bars

/-! ## Where a process stands -/

section Stands

variable {n : Nat} {s : Barrier.State n} {p : Fin n} {bar : Nat} {member waits inWait : Bool}
variable {todo : List Nat} {pc : Pc} {numPart : UInt32}

theorem Stand.of_addTicket (h : Stand bar member true todo pc waits)
    (hpc : pc = .addTicket bar numPart) :
    bar < ssmpNumBarriers ∧ todo = [] ∧ waits = false := by
  cases h with
  | before hbar _ => exact ⟨hbar, rfl, rfl⟩
  | inside hbar hpc' =>
      subst hpc
      simp at hpc'
  | _ => cases hpc

theorem Stand.waits_of_returned (h : Stand bar member true [] .idle waits) : waits = member := by
  cases h with
  | before _ hpc => simp at hpc
  | inside _ hpc => simp at hpc
  | returned => rfl

theorem Stand.of_notWait (h : Stand bar member false todo pc waits) :
    todo = [] ∧ pc = .idle ∧ waits = false := by
  cases h
  exact ⟨rfl, rfl, rfl⟩

theorem Stand.waits_of_inside {bar' : Nat} (h : Stand bar member true todo (.waitSet bar') waits) :
    waits = true := by
  cases h with
  | before _ hpc => simp at hpc
  | inside _ _ => rfl

/-- A call that neither begins nor returns is a call on a barrier that exists. -/
theorem Stand.current_lt {bar' : Nat} (h : Stand bar member inWait todo pc waits)
    (hcur : pc.current = some bar') (hret : pc ≠ .ret bar') :
    bar' = bar ∧ bar' < ssmpNumBarriers := by
  cases h with
  | before hbar hpc =>
      have hbars : bar = bar' := by
        rcases hpc with ⟨numPart, rfl | rfl⟩ <;> simpa [Pc.current] using hcur
      exact ⟨hbars.symm, hbars ▸ hbar⟩
  | inside hbar hpc =>
      have hbars : bar = bar' := by
        rcases hpc with rfl | rfl | rfl | rfl <;> simpa [Pc.current] using hcur
      exact ⟨hbars.symm, hbars ▸ hbar⟩
  | returning =>
      have hbars : bar = bar' := by simpa [Pc.current] using hcur
      exact absurd (by rw [hbars]) hret
  | _ => simp [Pc.current] at hcur

/-- The actions of a process that waits in the hall. -/
theorem step_inside (hpc : s.pc p = .setCleared bar ∨ s.pc p = .waitSet bar ∨
      s.pc p = .subTicket bar ∨ s.pc p = .resetCleared bar) :
    (s.step p).todo = s.todo ∧
      ((s.step p).pc p = .setCleared bar ∨ (s.step p).pc p = .waitSet bar ∨
        (s.step p).pc p = .subTicket bar ∨ (s.step p).pc p = .resetCleared bar ∨
        (s.step p).pc p = .ret bar) := by
  rcases hpc with hpc | hpc | hpc | hpc
  · simp [State.step, State.setPc, State.setBarrier, hpc]
  · by_cases hc : (s.barrier bar).cleared = 0
    · simp [State.step, hpc, hc]
    · simp [State.step, State.setPc, hpc, hc]
  · simp only [State.step, hpc, State.setPc, State.setBarrier, Function.update_self]
    split <;> simp
  · simp [State.step, State.setPc, State.setBarrier, hpc]

/-- An action other than the increment of `ticket`. -/
theorem Stand.step (hcallPc : ∃ numPart, s.callPc p bar =
      if member then .waitClear bar numPart else .ret bar)
    (hrange : member = true → bar < ssmpNumBarriers)
    (hinside : (s.pc p).current = some bar → s.pc p ≠ .ret bar → member = true)
    (hadd : ∀ numPart, s.pc p ≠ .addTicket bar numPart)
    (h : Stand bar member true (s.todo p) (s.pc p) waits) :
    (s.step p).arrived = s.arrived ∧
      Stand bar member true ((s.step p).todo p) ((s.step p).pc p) waits := by
  generalize htodo : s.todo p = todo at h
  generalize hpc : s.pc p = pc at h
  cases h with
  | asked =>
      -- the loop that counts the participants
      rcases hcallPc with ⟨numPart, hcall⟩
      refine ⟨by simp [State.step, State.setPc, hpc, htodo], ?_⟩
      have htodo' : (s.step p).todo p = [] := by simp [State.step, State.setPc, hpc, htodo]
      have hpc' : (s.step p).pc p = s.callPc p bar := by simp [State.step, State.setPc, hpc, htodo]
      rw [htodo', hpc', hcall]
      cases member with
      | false => exact Stand.returning
      | true => exact Stand.before (hrange rfl) ⟨numPart, Or.inl rfl⟩
  | before hbar hpc' =>
      rcases hpc' with ⟨numPart, rfl | rfl⟩
      · refine ⟨step_arrived (by simp [hpc]), ?_⟩
        by_cases hc : (s.barrier bar).cleared = 1
        · have hsame : s.step p = s := by simp [State.step, hpc, hc]
          rw [hsame, htodo, hpc]
          exact Stand.before hbar ⟨numPart, Or.inl rfl⟩
        · have htodo' : (s.step p).todo p = [] := by simp [State.step, State.setPc, hpc, hc, htodo]
          have hnext : (s.step p).pc p = .addTicket bar numPart := by
            simp [State.step, State.setPc, hpc, hc]
          rw [htodo', hnext]
          exact Stand.before hbar ⟨numPart, Or.inr rfl⟩
      · exact absurd hpc (hadd numPart)
  | inside hbar hpc' =>
      have hmem : member = true := by
        refine hinside ?_ ?_
        · rw [hpc]
          rcases hpc' with rfl | rfl | rfl | rfl <;> rfl
        · rw [hpc]
          rcases hpc' with rfl | rfl | rfl | rfl <;> simp
      refine ⟨step_arrived (by rw [hpc]; rcases hpc' with rfl | rfl | rfl | rfl <;> simp), ?_⟩
      rw [← hpc] at hpc'
      rcases step_inside hpc' with ⟨htodo', hnext⟩
      rw [htodo', htodo]
      rcases hnext with hnext | hnext | hnext | hnext | hnext
      · exact Stand.inside hbar (Or.inl hnext)
      · exact Stand.inside hbar (Or.inr (Or.inl hnext))
      · exact Stand.inside hbar (Or.inr (Or.inr (Or.inl hnext)))
      · exact Stand.inside hbar (Or.inr (Or.inr (Or.inr hnext)))
      · rw [hnext, hmem]
        exact Stand.returning
  | returning =>
      refine ⟨step_arrived (by simp [hpc]), ?_⟩
      have htodo' : (s.step p).todo p = [] := by simp [State.step, State.setPc, hpc, htodo]
      have hnext : (s.step p).pc p = .idle := by simp [State.step, State.setPc, hpc]
      rw [htodo', hnext]
      exact Stand.returned
  | returned =>
      have hsame : s.step p = s := by simp [State.step, hpc, htodo]
      refine ⟨by rw [hsame], ?_⟩
      rw [hsame, htodo, hpc]
      exact Stand.returned

end Stands

/-! ## One step -/

section Steps

variable {n : Nat} {σ : Type} {b : Build} {N : Network (Fin n) b.layout.Payload σ}
variable {hall : Fin n → σ → Nat} {barriers : Nat → SsmpBarrier}
variable {x y : Whole b.layout n σ} {a : Meetings (Fin n) b.layout.Payload σ} {me : Fin n}

/-- A process that is not in a call goes on, which no other process notices. -/
theorem goto_linked {u : Network.State (Fin n) b.layout.Payload σ}
    (h : Linked.Rel b N x.linked u) (hidle : x.busy me = false) (k : σ) :
    Linked.Rel b N { x.linked with loc := Function.update x.loc me k } (u.goto me k) := by
  rcases h.idle hidle with ⟨hcode, _, hcur⟩
  refine ⟨h.good, h.chan, h.met, h.waits, ?_⟩
  intro p
  show Linked.Phase b (N.next p (Function.update x.loc me k p)) (Function.update x.loc me k p)
    (x.sys.proc p) ((u.goto me k).loc p) (u.cursor p) (x.busy p)
  by_cases hp : p = me
  · subst hp
    rw [hidle, Function.update_self, goto_loc_self]
    exact Linked.Phase.idle hcode rfl hcur
  · rw [Function.update_of_ne hp, goto_loc_ne hp]
    exact h.phase p

/-- A step that is not at a barrier. -/
theorem Rel.lib (hn : n ≤ 256) (h : Rel b N hall barriers x a) (hsafe : N.Safe a.net)
    (hout : x.inWait me = false) (hbars : y.bars = x.bars) (hwait : y.inWait = x.inWait)
    (hbusy : ∀ p, p ≠ me → y.busy p = x.busy p) (hloc : ∀ p, p ≠ me → y.loc p = x.loc p)
    (hst : Linked.Step b N x.linked me y.linked) :
    ∃ a', (a' = a ∨ Meetings.Step N (halls hall barriers) a me a') ∧
      Rel b N hall barriers y a' := by
  rcases h.linked.step hn hsafe hst with ⟨u, hu, hrel⟩
  have hmet : u.met = fun _ => 0 := hrel.met
  have hwaits : u.waits = fun _ => false := hrel.waits
  -- where `me` is does not matter to the barriers: it is in no call there
  have hstand : ∀ p, Stand (hall p (y.loc p)) ((halls hall barriers).member (hall p (y.loc p)) p)
      (y.inWait p) (y.bars.todo p) (y.bars.pc p) (a.net.waits p) := by
    intro p
    have hold := h.stand p
    rw [hbars, hwait]
    by_cases hp : p = me
    · subst hp
      rw [hout] at hold ⊢
      generalize htodo : x.bars.todo p = l at hold
      generalize hpc : x.bars.pc p = c at hold
      generalize hw : a.net.waits p = w at hold
      cases hold
      exact Stand.out
    · rw [hloc p hp]
      exact hold
  have hidle : ∀ p, y.inWait p = true → y.busy p = false ∧ ∃ k, N.next p (y.loc p) = .meet k := by
    intro p hin
    rw [hwait] at hin
    have hp : p ≠ me := by
      rintro rfl
      rw [hout] at hin
      cases hin
    rw [hbusy p hp, hloc p hp]
    exact h.idle p hin
  rcases hu with rfl | hmove
  · exact ⟨a, Or.inl rfl, hrel, by rw [hbars]; exact h.bars, by rw [hbars]; exact h.came, hstand, hidle⟩
  · rcases Meetings.move_of_bare hmove (by rw [hwaits]) with ⟨hstep, hmeet⟩
    refine ⟨_, Or.inr (Meetings.Step.move hstep hmeet), ?_, by rw [hbars]; exact h.bars,
      by rw [hbars]; exact h.came, hstand, hidle⟩
    have hbare : Meetings.bare { u with met := a.net.met, waits := a.net.waits } = u := by
      rw [Meetings.bare, ← hmet, ← hwaits]
    rw [hbare]
    exact hrel

theorem Rel.wait (h : Rel b N hall barriers x a) (hidle : x.busy me = false)
    (hout : x.inWait me = false) {k : σ} (hnext : N.next me (x.loc me) = .meet k) :
    Rel b N hall barriers
      { x with
        bars := x.bars.ask me (hall me (x.loc me))
        inWait := Function.update x.inWait me true } a := by
  refine ⟨h.linked, h.bars.ask _ _, h.came, ?_, ?_⟩
  · intro p
    have hold := h.stand p
    by_cases hp : p = me
    · subst hp
      show Stand _ _ (Function.update x.inWait p true p)
        (Function.update x.bars.todo p [hall p (x.loc p)] p) (x.bars.pc p) (a.net.waits p)
      rw [Function.update_self, Function.update_self]
      rw [hout] at hold
      generalize x.bars.todo p = l at hold
      generalize x.bars.pc p = c at hold ⊢
      generalize a.net.waits p = w at hold ⊢
      cases hold
      exact Stand.asked
    · show Stand _ _ (Function.update x.inWait me true p)
        (Function.update x.bars.todo me [hall me (x.loc me)] p) (x.bars.pc p) (a.net.waits p)
      rw [Function.update_of_ne hp, Function.update_of_ne hp]
      exact hold
  · intro p hin
    by_cases hp : p = me
    · subst hp
      exact ⟨hidle, k, hnext⟩
    · refine h.idle p ?_
      rw [← hin]
      exact (Function.update_of_ne hp _ _).symm

theorem Rel.inWait_of_busy (h : Rel b N hall barriers x a) (hbusy : x.busy me = true) :
    x.inWait me = false := by
  by_contra hin
  rw [(h.idle me (by simpa using hin)).1] at hbusy
  cases hbusy

theorem Rel.inWait_of_exec (h : Rel b N hall barriers x a) {t : Sys b.layout n}
    (hex : x.sys.exec me = some t) : x.inWait me = false := by
  by_contra hin
  have hbusy := (h.idle me (by simpa using hin)).1
  exact Sys.not_exec (h.linked.idle hbusy).1 hex

theorem Rel.inWait_of_calls (h : Rel b N hall barriers x a) {code : List (Act n)} {msg : Line}
    (hcall : Linked.Calls b me (N.next me (x.loc me)) code msg) : x.inWait me = false := by
  by_contra hin
  rcases (h.idle me (by simpa using hin)).2 with ⟨k, hk⟩
  rw [hk] at hcall
  cases hcall

/-! ### Actions of `ssmp_barrier_wait` -/

/-- Where a call begins: a process that is no participant has nothing to do in it. -/
theorem callPc_halls (hready : ∀ bar < ssmpNumBarriers, (barriers bar).Counted n)
    {s : Barrier.State n} (h : BarsOk barriers s) (p : Fin n) (bar : Nat) :
    s.callPc p bar =
      if (halls (σ := σ) hall barriers).member bar p then
        .waitClear bar (UInt32.ofNat (Fintype.card (Part (barriers bar) n)))
      else .ret bar := by
  by_cases hbar : bar < ssmpNumBarriers
  · rw [callPc_eq (h bar hbar).1 (hready bar hbar).counts hbar]
    simp [halls, hbar]
  · simp [State.callPc, halls, hbar, Nat.le_of_not_lt hbar]

/-- An action of process `me`, after which it stands at its barrier as the network has it. -/
theorem Rel.of_access (hready : ∀ bar < ssmpNumBarriers, (barriers bar).Counted n) (hn : n ≤ 256)
    (h : Rel b N hall barriers x a) {a' : Meetings (Fin n) b.layout.Payload σ}
    (hbare : Meetings.bare a'.net = Meetings.bare a.net)
    (hwaits : ∀ p, p ≠ me → a'.net.waits p = a.net.waits p)
    (hcame : ∀ p bar, a'.came p bar = ((x.bars.step me).arrived p).count bar)
    (hstand : Stand (hall me (x.loc me))
      ((halls hall barriers).member (hall me (x.loc me)) me)
      (x.inWait me) ((x.bars.step me).todo me) ((x.bars.step me).pc me) (a'.net.waits me)) :
    Rel b N hall barriers { x with bars := x.bars.step me } a' := by
  have hsame := step_same x.bars me
  refine ⟨?_, h.bars.step hready (by omega) me, hcame, ?_, h.idle⟩
  · rw [hbare]
    exact h.linked
  · intro p
    by_cases hp : p = me
    · subst hp
      exact hstand
    · have hold := h.stand p
      rw [← hsame.todo p hp, ← hsame.pc p hp, ← hwaits p hp] at hold
      exact hold

/-- The increment of `ticket` is what brings a process to its hall. -/
theorem Rel.addTicket (hready : ∀ bar < ssmpNumBarriers, (barriers bar).Counted n) (hn : n ≤ 256)
    (h : Rel b N hall barriers x a) (hin : x.inWait me = true) {numPart : UInt32}
    (hbar : hall me (x.loc me) < ssmpNumBarriers) (htodo : x.bars.todo me = [])
    (hpc : x.bars.pc me = .addTicket (hall me (x.loc me)) numPart)
    (hwaits : a.net.waits me = false) :
    ∃ a', (a' = a ∨ Meetings.Step N (halls hall barriers) a me a') ∧
      Rel b N hall barriers { x with bars := x.bars.step me } a' := by
  have hidle := h.idle me hin
  have hloc : a.net.loc me = x.loc me := (h.linked.idle hidle.1).2.1
  rcases hidle.2 with ⟨k, hk⟩
  have hmem : (halls hall barriers).member (hall me (x.loc me)) me = true := by
    simp [halls, hbar, h.bars.member hbar (p := me) (by rw [hpc]; rfl) (by rw [hpc]; simp)]
  have hhall : a.hallOf (halls hall barriers) me = hall me (x.loc me) := by
    rw [Meetings.hallOf, hloc]
    rfl
  have hstep : Meetings.Step N (halls hall barriers) a me (a.come me (hall me (x.loc me))) := by
    rw [← hhall]
    exact Meetings.Step.come (by rw [hloc]; exact hk) (by rw [hhall]; exact hmem) hwaits
  refine ⟨_, Or.inr hstep, h.of_access hready hn rfl ?_ ?_ ?_⟩
  · intro p hp
    exact Function.update_of_ne hp _ _
  · intro p bar
    have harrived : (x.bars.step me).arrived =
        Function.update x.bars.arrived me (x.bars.arrived me ++ [hall me (x.loc me)]) := by
      simp only [State.step, hpc]
    rw [harrived]
    by_cases hp : p = me
    · subst hp
      rw [Function.update_self, List.count_append, ← h.came]
      by_cases hb : bar = hall p (x.loc p)
      · rw [hb, List.count_singleton_self, Meetings.come_came_self]
      · rw [Meetings.come_came_other hb, List.count_singleton, beq_eq_false_iff_ne.2 (Ne.symm hb)]
        rfl
    · rw [Function.update_of_ne hp, Meetings.come_came_ne hp, h.came]
  · have htodo' : (x.bars.step me).todo me = [] := by
      simp [State.step, State.setPc, State.setBarrier, hpc, htodo]
    have hwaits' : (a.come me (hall me (x.loc me))).net.waits me = true := Function.update_self _ _ _
    rw [hin, htodo', hwaits']
    refine Stand.inside hbar ?_
    simp only [State.step, hpc, State.setPc, Function.update_self]
    split
    · exact Or.inl rfl
    · exact Or.inr (Or.inl rfl)

theorem Rel.inside_member (h : Rel b N hall barriers x a)
    (hcur : (x.bars.pc me).current = some (hall me (x.loc me)))
    (hret : x.bars.pc me ≠ .ret (hall me (x.loc me))) :
    (halls hall barriers).member (hall me (x.loc me)) me = true := by
  have hbar := ((h.stand me).current_lt hcur hret).2
  simp [halls, hbar, h.bars.member hbar hcur hret]

theorem Rel.access (hready : ∀ bar < ssmpNumBarriers, (barriers bar).Counted n) (hn : n ≤ 256)
    (h : Rel b N hall barriers x a) (hin : x.inWait me = true) :
    ∃ a', (a' = a ∨ Meetings.Step N (halls hall barriers) a me a') ∧
      Rel b N hall barriers { x with bars := x.bars.step me } a' := by
  have hstand := h.stand me
  rw [hin] at hstand
  by_cases hadd : ∃ numPart, x.bars.pc me = .addTicket (hall me (x.loc me)) numPart
  · rcases hadd with ⟨numPart, hpc⟩
    rcases hstand.of_addTicket hpc with ⟨hbar, htodo, hwaits⟩
    exact h.addTicket hready hn hin hbar htodo hpc hwaits
  · have hrange : (halls hall barriers).member (hall me (x.loc me)) me = true →
        hall me (x.loc me) < ssmpNumBarriers := by
      intro hmem
      simp only [halls, Bool.and_eq_true, decide_eq_true_eq] at hmem
      exact hmem.1
    rcases hstand.step ⟨_, callPc_halls hready h.bars me _⟩ hrange h.inside_member
      (not_exists.1 hadd) with ⟨harrived, hstand'⟩
    refine ⟨a, Or.inl rfl, h.of_access hready hn rfl (fun _ _ => rfl) ?_ ?_⟩
    · intro p bar
      rw [harrived, h.came]
    · rw [hin]
      exact hstand'

/-! ### Returns -/

/-- The return of `ssmp_barrier_wait` is what takes a process out of its hall. -/
theorem Rel.cross (h : Rel b N hall barriers x a) (hin : x.inWait me = true)
    (hpc : x.bars.pc me = .idle) (htodo : x.bars.todo me = []) {k : σ}
    (hnext : N.next me (x.loc me) = .meet k) :
    ∃ a', Meetings.Step N (halls hall barriers) a me a' ∧
      Rel b N hall barriers
        { x with
          loc := Function.update x.loc me k
          inWait := Function.update x.inWait me false } a' := by
  rcases h.linked.idle (h.idle me hin).1 with ⟨hcode, hloc, hcur⟩
  have hloc' : a.net.loc me = x.loc me := hloc
  have hhall : a.hallOf (halls hall barriers) me = hall me (x.loc me) := by
    rw [Meetings.hallOf, hloc']
    rfl
  have hstand := h.stand me
  rw [hin, htodo, hpc] at hstand
  have hwaits : a.net.waits me = (halls hall barriers).member (hall me (x.loc me)) me :=
    hstand.waits_of_returned
  -- what is to be shown of a state in which `me` has gone on and does not wait
  have hrel : ∀ u : Network.State (Fin n) b.layout.Payload σ, u.waits me = false →
      (∀ p, p ≠ me → u.waits p = a.net.waits p) →
      Meetings.bare u = Meetings.bare (a.net.goto me k) →
      Rel b N hall barriers
        { x with
          loc := Function.update x.loc me k
          inWait := Function.update x.inWait me false } { a with net := u } := by
    intro u hself hother hbare
    refine ⟨?_, h.bars, h.came, ?_, ?_⟩
    · show Linked.Rel b N _ (Meetings.bare u)
      rw [hbare]
      exact goto_linked h.linked (h.idle me hin).1 k
    · intro p
      by_cases hp : p = me
      · subst hp
        show Stand _ _ (Function.update x.inWait p false p) (x.bars.todo p) (x.bars.pc p) (u.waits p)
        rw [Function.update_self, htodo, hpc, hself]
        exact Stand.out
      · show Stand (hall p (Function.update x.loc me k p))
          ((halls hall barriers).member (hall p (Function.update x.loc me k p)) p)
          (Function.update x.inWait me false p) (x.bars.todo p) (x.bars.pc p) (u.waits p)
        rw [Function.update_of_ne hp, Function.update_of_ne hp, hother p hp]
        exact h.stand p
    · intro p hin'
      have hp : p ≠ me := by
        rintro rfl
        have hself : Function.update x.inWait p false p = false := Function.update_self _ _ _
        exact absurd (hself.symm.trans hin') (by decide)
      show x.busy p = false ∧ ∃ k', N.next p (Function.update x.loc me k p) = .meet k'
      rw [Function.update_of_ne hp]
      exact h.idle p ((Function.update_of_ne hp _ _).symm.trans hin')
  cases hmem : (halls hall barriers).member (hall me (x.loc me)) me with
  | false =>
      rw [hmem] at hwaits
      refine ⟨_, Meetings.Step.skip (by rw [hloc']; exact hnext) (by rw [hhall]; exact hmem), ?_⟩
      exact hrel _ hwaits (fun _ _ => rfl) rfl
  | true =>
      rw [hmem] at hwaits
      refine ⟨_, Meetings.Step.pass (by rw [hloc']; exact hnext) hwaits ?_, ?_⟩
      · intro q hq
        rw [hhall] at hq ⊢
        simp only [halls, Bool.and_eq_true, decide_eq_true_eq] at hmem hq
        rw [h.came, h.came]
        exact h.bars.all_came hq.1 hpc hmem.2 hq.2
      · exact hrel _ (Function.update_self _ _ _) (fun p hp => Function.update_of_ne hp _ _) rfl

/-! ## Every step -/

theorem Rel.step (hready : ∀ bar < ssmpNumBarriers, (barriers bar).Counted n) (hn : n ≤ 256)
    (h : Rel b N hall barriers x a) (hsafe : N.Safe a.net) (hst : Step b N hall x me y) :
    ∃ a', (a' = a ∨ Meetings.Step N (halls hall barriers) a me a') ∧
      Rel b N hall barriers y a' := by
  cases hst with
  | call hidle hcall =>
      refine h.lib hn hsafe (h.inWait_of_calls hcall) rfl rfl (fun p hp => Function.update_of_ne hp _ _)
        (fun _ _ => rfl) (Linked.Step.call hidle hcall)
  | @run t hex =>
      refine h.lib hn hsafe (h.inWait_of_exec hex) rfl rfl (fun _ _ => rfl) (fun _ _ => rfl) ?_
      exact @Linked.Step.run n σ b N x.linked me t hex
  | ret hbusy hcode hret =>
      refine h.lib hn hsafe (h.inWait_of_busy hbusy) rfl rfl (fun p hp => Function.update_of_ne hp _ _)
        (fun p hp => Function.update_of_ne hp _ _) (Linked.Step.ret hbusy hcode hret)
  | wait hidle hout hnext => exact ⟨a, Or.inl rfl, h.wait hidle hout hnext⟩
  | access hin => exact h.access hready hn hin
  | cross hin hpc htodo hnext =>
      rcases h.cross hin hpc htodo hnext with ⟨a', hstep, hrel⟩
      exact ⟨a', Or.inr hstep, hrel⟩

theorem Rel.init (hready : ∀ bar < ssmpNumBarriers, (barriers bar).Counted n) (hn : n ≤ 256)
    (h : Init b N barriers x) : ∃ a, Meetings.Init N a ∧ Rel b N hall barriers x a := by
  have hlinked : Linked.Init b N x.linked := ⟨h.sys, h.loc, h.busy, fun _ => rfl, fun _ => rfl⟩
  rcases Linked.Rel.init hlinked with ⟨u, hu, hrel⟩
  have hbare : Meetings.bare u = u := by
    rw [Meetings.bare, ← funext hu.met, ← funext hu.waits]
  refine ⟨⟨u, fun _ _ => 0⟩, ⟨hu, fun _ _ => rfl⟩, ?_, BarsOk.init hready (by omega) h.bars, ?_, ?_, ?_⟩
  · show Linked.Rel b N x.linked (Meetings.bare u)
    rw [hbare]
    exact hrel
  · intro p bar
    rw [h.bars.arrived]
    rfl
  · intro p
    show Stand _ _ (x.inWait p) (x.bars.todo p) (x.bars.pc p) (u.waits p)
    rw [h.inWait, h.bars.todo, h.bars.pc, hu.waits]
    exact Stand.out
  · intro p hin
    rw [h.inWait] at hin
    cases hin

/-- Every run of programs on the whole library is a run of the network with halls, if the network
overwrites empty places only. -/
theorem refines (hready : ∀ bar < ssmpNumBarriers, (barriers bar).Counted n) (hn : n ≤ 256)
    (hsafe : ∀ a, (Meetings.system N (halls hall barriers)).Reachable a → N.Safe a.net)
    (h : (Whole.system b N hall barriers).Reachable x) :
    ∃ a, (Meetings.system N (halls hall barriers)).Reachable a ∧ Rel b N hall barriers x a := by
  induction h with
  | init h0 =>
      rcases Rel.init hready hn h0 with ⟨a, ha, hrel⟩
      exact ⟨a, TransSys.Reachable.init ha, hrel⟩
  | step _ hst ih =>
      rcases ih with ⟨a, ha, hrel⟩
      rcases hrel.step hready hn (hsafe a ha) hst with ⟨a', rfl | hstep, hrel'⟩
      · exact ⟨a', ha, hrel'⟩
      · exact ⟨a', TransSys.Reachable.step ha hstep, hrel'⟩

/-! ## What the relation says -/

theorem Rel.sent (h : Rel b N hall barriers x a) (ij : Fin n × Fin n) :
    x.sys.sent ij = (a.net.chan ij).ins :=
  (h.linked.chan.ins ij).symm

theorem Rel.recvd (h : Rel b N hall barriers x a) (ij : Fin n × Fin n) :
    x.sys.recvd ij = (a.net.chan ij).outs :=
  (h.linked.chan.outs ij).symm

theorem Rel.loc (h : Rel b N hall barriers x a) (hidle : x.busy me = false) :
    a.net.loc me = x.loc me :=
  (h.linked.idle hidle).2.1

/-- Who waits in a hall is in a call of `ssmp_barrier_wait`. -/
theorem Rel.inWait_of_waits (h : Rel b N hall barriers x a) (hwaits : a.net.waits me = true) :
    x.inWait me = true := by
  by_contra hout
  have hstand := h.stand me
  rw [Bool.eq_false_iff.2 hout] at hstand
  exact absurd (hstand.of_notWait.2.2.symm.trans hwaits) (by decide)

/-- Every state of a run on the library stands for a state of a run on the network: what has been sent
and received is what has been put and taken, the channels are FIFO buffers, a process that is in no call
that sends or receives is where it is on the network, and every process has incremented the `ticket` of
a barrier as often as it has come to the hall. -/
theorem library_network (hready : ∀ bar < ssmpNumBarriers, (barriers bar).Ready n) (hn : n ≤ 256)
    (hsafe : ∀ a, (Meetings.system N (halls hall barriers)).Reachable a → N.Safe a.net)
    (h : (Whole.system b N hall barriers).Reachable x) :
    ∃ a, (Meetings.system N (halls hall barriers)).Reachable a ∧
      (∀ ij, x.sys.sent ij = (a.net.chan ij).ins ∧ x.sys.recvd ij = (a.net.chan ij).outs ∧
        (a.net.chan ij).Fifo) ∧
      (∀ p, x.busy p = false → x.loc p = a.net.loc p) ∧
      (∀ p bar, (x.bars.arrived p).count bar = a.came p bar) ∧
      ∀ p, a.net.waits p = true → x.inWait p = true := by
  rcases refines (fun bar hbar => (hready bar hbar).counted) hn hsafe h with ⟨a, ha, hrel⟩
  exact ⟨a, ha, fun ij => ⟨hrel.sent ij, hrel.recvd ij, hrel.linked.chan.fifo ij⟩,
    fun _ hidle => (hrel.loc hidle).symm, fun p bar => (hrel.came p bar).symm,
    fun _ => hrel.inWait_of_waits⟩

end Steps

end Whole
end Ssmp
