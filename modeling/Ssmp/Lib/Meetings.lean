import Ssmp.Lib.Network

/-!
# Meetings — networks with several barriers

A process of a network meets others.  Here there are several places to meet at, the halls: where a
process is in its program decides at which, and every hall has its members.  A process that is no
member of a hall passes it at once; a member waits until all members have come as often as it has.

* `Meetings.fifo` — the channels are FIFO buffers, if only empty places are overwritten,
* `Meetings.Blocked` — a process that can do nothing, at least for now,
* `Meetings.Visits` — all come to some of the halls in the same order: who has passed one has left nobody
  behind (`Visits.together`), and who waits, waits for one who is at none of them
  (`Visits.exists_behind`),
* `Meetings.InOrder` — so it is for all halls,
* `Meetings.Ranked` — programs for which less and less is left to do: their runs are bounded
  (`Ranked.length_le`) and can be continued until all are blocked (`Ranked.exists_blocked`),
* `Meetings.remaining` — what is left for a process to take, if the others send only so much.
-/

namespace Ssmp
namespace Lib

open Network

universe u v w

/-- At which hall a process meets others, by its location, and the members of the halls. -/
structure Halls (P : Type u) (σ : Type w) where
  hall : P → σ → Nat
  member : Nat → P → Bool

/-- The state of the network, and how often each process has come to each hall. -/
structure Meetings (P : Type u) (M : Type v) (σ : Type w) where
  net : Network.State P M σ
  came : P → Nat → Nat

namespace Meetings

variable {P : Type u} {M : Type v} {σ : Type w}

/-! ## Steps -/

section Steps

variable [DecidableEq P]

/-- The hall at which `p` meets others where it is. -/
def hallOf (H : Halls P σ) (s : Meetings P M σ) (p : P) : Nat :=
  H.hall p (s.net.loc p)

def come (p : P) (h : Nat) (s : Meetings P M σ) : Meetings P M σ where
  net := s.net.arrive p
  came := Function.update s.came p (Function.update (s.came p) h (s.came p h + 1))

variable (N : Network P M σ) (H : Halls P σ)

inductive Step : Meetings P M σ → P → Meetings P M σ → Prop where
  | move {s : Meetings P M σ} {p : P} {t : Network.State P M σ} (h : N.Step s.net p t)
      (hmeet : ∀ k, N.next p (s.net.loc p) ≠ .meet k) : Step s p { s with net := t }
  | skip {s : Meetings P M σ} {p : P} {k : σ} (h : N.next p (s.net.loc p) = .meet k)
      (hout : H.member (s.hallOf H p) p = false) : Step s p { s with net := s.net.goto p k }
  | come {s : Meetings P M σ} {p : P} {k : σ} (h : N.next p (s.net.loc p) = .meet k)
      (hmem : H.member (s.hallOf H p) p = true) (hout : s.net.waits p = false) :
      Step s p (s.come p (s.hallOf H p))
  | pass {s : Meetings P M σ} {p : P} {k : σ} (h : N.next p (s.net.loc p) = .meet k)
      (hin : s.net.waits p = true)
      (hall : ∀ q, H.member (s.hallOf H p) q = true →
        s.came p (s.hallOf H p) ≤ s.came q (s.hallOf H p)) :
      Step s p { s with net := (s.net.leave p).goto p k }

structure Init (s : Meetings P M σ) : Prop where
  net : N.Init s.net
  came : ∀ p h, s.came p h = 0

def system : TransSys (Meetings P M σ) P where
  init := Init N
  step := Step N H

/-- Process `p` stops, or what it waits for is not there. -/
def Blocked (s : Meetings P M σ) (p : P) : Prop :=
  match N.next p (s.net.loc p) with
  | .put d _ _ => (s.net.chan (p, d)).place ≠ none
  | .overwrite _ _ _ => False
  | .take r _ => (s.net.chan (r, p)).place = none
  | .scan srcs _ => ∀ r ∈ srcs, (s.net.chan (r, p)).place = none
  | .meet _ =>
      s.net.waits p = true ∧ ∃ q, H.member (s.hallOf H p) q = true ∧
        s.came q (s.hallOf H p) < s.came p (s.hallOf H p)
  | .stop => True

end Steps

/-! ## Counts -/

section Counts

variable [DecidableEq P] {p q : P} {h h' : Nat} {s : Meetings P M σ}

@[simp] theorem come_net : (s.come p h).net = s.net.arrive p := rfl

@[simp] theorem come_came_self : (s.come p h).came p h = s.came p h + 1 := by
  simp [come]

theorem come_came_ne (hq : q ≠ p) : (s.come p h).came q = s.came q :=
  Function.update_of_ne hq _ _

theorem come_came_other (hh : h' ≠ h) : (s.come p h).came q h' = s.came q h' := by
  by_cases hq : q = p
  · subst hq
    simp [come, hh]
  · rw [come_came_ne hq]

end Counts

/-! ## Steps that are not at a barrier -/

section Moves

variable {N : Network P M σ} {r u : Network.State P M σ} {p : P}

/-- The network, with nothing said of its own barrier. -/
def bare (r : Network.State P M σ) : Network.State P M σ :=
  { r with met := fun _ => 0, waits := fun _ => false }

@[simp] theorem bare_loc : (bare r).loc = r.loc := rfl
@[simp] theorem bare_chan : (bare r).chan = r.chan := rfl
@[simp] theorem bare_cursor : (bare r).cursor = r.cursor := rfl
@[simp] theorem bare_met : (bare r).met p = 0 := rfl
@[simp] theorem bare_waits : (bare r).waits p = false := rfl

variable [DecidableEq P]

/-- A step that is not at a barrier leaves the barrier as it is. -/
theorem move_waits (hmove : N.Step r p u) (hmeet : ∀ k, N.next p (r.loc p) ≠ .meet k) :
    u.waits = r.waits ∧ u.met = r.met := by
  cases hmove with
  | arrive h _ => exact absurd h (hmeet _)
  | leave h _ _ => exact absurd h (hmeet _)
  | _ => exact ⟨rfl, rfl⟩

/-- A step after which nobody waits, of a network of whose barrier nothing is said, is not at it. -/
theorem move_of_bare (hmove : N.Step (bare r) p u) (hwaits : u.waits p = false) :
    N.Step r p { u with met := r.met, waits := r.waits } ∧
      ∀ k, N.next p (r.loc p) ≠ .meet k := by
  cases hmove with
  | put h hfree =>
      exact ⟨Network.Step.put h hfree, fun k hk => by cases h.symm.trans hk⟩
  | overwrite h => exact ⟨Network.Step.overwrite h, fun k hk => by cases h.symm.trans hk⟩
  | take h hm => exact ⟨Network.Step.take h hm, fun k hk => by cases h.symm.trans hk⟩
  | pass h hr hmiss => exact ⟨Network.Step.pass h hr hmiss, fun k hk => by cases h.symm.trans hk⟩
  | wrap h hend => exact ⟨Network.Step.wrap h hend, fun k hk => by cases h.symm.trans hk⟩
  | hit h hr hm => exact ⟨Network.Step.hit h hr hm, fun k hk => by cases h.symm.trans hk⟩
  | arrive _ _ => simp [Network.State.arrive] at hwaits
  | leave _ hin _ => cases hin

end Moves

/-! ## What holds in every run -/

section Runs

variable [DecidableEq P] {N : Network P M σ} {H : Halls P σ} {s t : Meetings P M σ} {p : P}

/-- If nothing but empty places is ever overwritten, every pair is a FIFO buffer. -/
theorem fifo (hsafe : ∀ s, (system N H).Reachable s → N.Safe s.net)
    (h : (system N H).Reachable s) : ∀ ij, (s.net.chan ij).Fifo := by
  induction h with
  | @init s h0 =>
      have hinit : Init N s := h0
      exact hinit.net.fifo
  | @step s t p hr hst ih =>
      have hstep : Step N H s p t := hst
      cases hstep with
      | move hmove _ => exact hmove.fifo (hsafe _ hr) ih
      | _ => exact ih

/-- Who waits is a member, and has come to the hall. -/
structure Waits (N : Network P M σ) (H : Halls P σ) (s : Meetings P M σ) (p : P) : Prop where
  meet : ∃ k, N.next p (s.net.loc p) = .meet k
  member : H.member (s.hallOf H p) p = true
  came : 0 < s.came p (s.hallOf H p)

theorem Step.waits_ne {q : P} (hst : Step N H s p t) (hq : q ≠ p) :
    t.net.waits q = s.net.waits q ∧ t.net.loc q = s.net.loc q ∧ t.came q = s.came q := by
  cases hst with
  | move hmove _ =>
      refine ⟨?_, hmove.loc_ne hq, rfl⟩
      cases hmove with
      | arrive _ _ => exact Function.update_of_ne hq _ _
      | leave _ _ _ => exact Function.update_of_ne hq _ _
      | _ => rfl
  | skip _ _ => exact ⟨rfl, goto_loc_ne hq, rfl⟩
  | come _ _ _ => exact ⟨Function.update_of_ne hq _ _, rfl, come_came_ne hq⟩
  | pass _ _ _ => exact ⟨Function.update_of_ne hq _ _, goto_loc_ne hq, rfl⟩

theorem waits_of_reachable (h : (system N H).Reachable s) :
    ∀ p, s.net.waits p = true → Waits N H s p := by
  induction h with
  | @init s h0 =>
      have hinit : Init N s := h0
      intro p hp
      rw [hinit.net.waits] at hp
      cases hp
  | @step s t p hr hst ih =>
      have hstep : Step N H s p t := hst
      intro q hq
      by_cases hqp : q = p
      · subst hqp
        cases hstep with
        | move hmove hmeet =>
            rw [(move_waits hmove hmeet).1] at hq
            rcases (ih q hq).meet with ⟨k, hk⟩
            exact absurd hk (hmeet k)
        | skip hnext hout =>
            have hwaits := ih q hq
            rw [hwaits.member] at hout
            cases hout
        | come hnext hmem hout => exact ⟨⟨_, hnext⟩, hmem, by simp [hallOf]⟩
        | @pass k hnext hin hall =>
            have hleft : ((s.net.leave q).goto q k).waits q = false := Function.update_self _ _ _
            exact absurd (hleft.symm.trans hq) (by decide)
      · rcases hstep.waits_ne hqp with ⟨hwaits, hloc, hcame⟩
        rw [hwaits] at hq
        have hold := ih q hq
        refine ⟨?_, ?_, ?_⟩
        · rw [hloc]
          exact hold.meet
        · rw [hallOf, hloc]
          exact hold.member
        · rw [hallOf, hloc, hcame]
          exact hold.came

end Runs

/-! ## Programs that come to the halls in one order -/

section Order

variable [DecidableEq P] {N : Network P M σ} {H : Halls P σ} {s t : Meetings P M σ} {p q : P}
variable {seq : List Nat} {pos : P → σ → Nat}

/-- The next action of `p` can lead to the location `k`. -/
def Goes (N : Network P M σ) (r : Network.State P M σ) (p : P) (k : σ) : Prop :=
  match N.next p (r.loc p) with
  | .put d _ k' => (r.chan (p, d)).place = none ∧ k = k'
  | .overwrite _ _ k' => k = k'
  | .take src f => ∃ m, (r.chan (src, p)).place = some m ∧ k = f m
  | .scan srcs f => ∃ src ∈ srcs, ∃ m, (r.chan (src, p)).place = some m ∧ k = f src m
  | .meet k' => k = k'
  | .stop => False

/-- The programs come to the halls of `seq` one after the other, and in between to none but other halls:
`pos` counts the halls of `seq` passed, by the location. -/
structure Visits (N : Network P M σ) (H : Halls P σ) (seq : List Nat) (pos : P → σ → Nat) :
    Prop where
  start : ∀ p, pos p (N.start p) = 0
  stays : ∀ s p k, (system N H).Reachable s → Goes N s.net p k →
    (∀ k', N.next p (s.net.loc p) = .meet k' → s.hallOf H p ∉ seq) → pos p k = pos p (s.net.loc p)
  passes : ∀ s p k, (system N H).Reachable s → N.next p (s.net.loc p) = .meet k →
    s.hallOf H p ∈ seq →
    pos p k = pos p (s.net.loc p) + 1 ∧ seq[pos p (s.net.loc p)]? = some (s.hallOf H p)

/-- The programs come to the halls `seq` one after the other, and to no others: `pos` counts the halls
passed, by the location. -/
structure InOrder (N : Network P M σ) (H : Halls P σ) (seq : List Nat) (pos : P → σ → Nat) :
    Prop where
  start : ∀ p, pos p (N.start p) = 0
  stays : ∀ s p k, (system N H).Reachable s → Goes N s.net p k →
    (∀ k', N.next p (s.net.loc p) ≠ .meet k') → pos p k = pos p (s.net.loc p)
  passes : ∀ s p k, (system N H).Reachable s → N.next p (s.net.loc p) = .meet k →
    pos p k = pos p (s.net.loc p) + 1 ∧ seq[pos p (s.net.loc p)]? = some (s.hallOf H p)

theorem InOrder.mem (ho : InOrder N H seq pos) (h : (system N H).Reachable s) {k : σ}
    (hnext : N.next p (s.net.loc p) = .meet k) : s.hallOf H p ∈ seq :=
  List.mem_of_getElem? (ho.passes s p k h hnext).2

theorem InOrder.visits (ho : InOrder N H seq pos) : Visits N H seq pos where
  start := ho.start
  stays s p k h hgoes hmeet :=
    ho.stays s p k h hgoes fun k' hk' => absurd (ho.mem h hk') (hmeet k' hk')
  passes s p k h hnext _ := ho.passes s p k h hnext

omit [DecidableEq P] in
theorem goes_of_meet {r : Network.State P M σ} {k : σ} (hnext : N.next p (r.loc p) = .meet k) :
    Goes N r p k := by
  unfold Goes
  rw [hnext]

/-- A step of `p` that is not at a barrier goes on, or it is a turn of a scan. -/
theorem goes_of_step {r u : Network.State P M σ} (hmove : N.Step r p u)
    (hmeet : ∀ k, N.next p (r.loc p) ≠ .meet k) :
    (∃ k, Goes N r p k ∧ u.loc p = k) ∨
      ∃ c, u = r.seek p c ∧ ∃ srcs k, N.next p (r.loc p) = .scan srcs k := by
  unfold Goes
  cases hmove with
  | put h hfree => exact Or.inl ⟨_, by rw [h]; exact ⟨hfree, rfl⟩, goto_loc_self⟩
  | overwrite h => exact Or.inl ⟨_, by rw [h], goto_loc_self⟩
  | take h hm => exact Or.inl ⟨_, by rw [h]; exact ⟨_, hm, rfl⟩, goto_loc_self⟩
  | pass h _ _ => exact Or.inr ⟨_, rfl, _, _, h⟩
  | wrap h _ => exact Or.inr ⟨_, rfl, _, _, h⟩
  | hit h hr hm =>
      exact Or.inl ⟨_, by rw [h]; exact ⟨_, List.mem_of_getElem? hr, _, hm, rfl⟩, goto_loc_self⟩
  | arrive h _ => exact absurd h (hmeet _)
  | leave h _ _ => exact absurd h (hmeet _)

/-- Who is not at a barrier does not wait. -/
theorem not_waits (h : (system N H).Reachable s) (hmeet : ∀ k, N.next p (s.net.loc p) ≠ .meet k) :
    s.net.waits p ≠ true := by
  intro hwaits
  rcases (waits_of_reachable h p hwaits).meet with ⟨k, hk⟩
  exact hmeet k hk

theorem count_take {i hall x : Nat} (h : seq[i]? = some x) :
    (seq.take (i + 1)).count hall = (seq.take i).count hall + if x = hall then 1 else 0 := by
  rw [List.take_add_one, h, Option.toList_some, List.count_append, List.count_singleton]
  simp [beq_iff_eq]

/-- A member has come to a hall as often as it has passed it, and once more while it waits there. -/
theorem Visits.came (ho : Visits N H seq pos) (h : (system N H).Reachable s) :
    ∀ p, ∀ hall ∈ seq, H.member hall p = true → s.came p hall =
      (seq.take (pos p (s.net.loc p))).count hall +
        if s.net.waits p = true ∧ s.hallOf H p = hall then 1 else 0 := by
  induction h with
  | @init s h0 =>
      have hinit : Init N s := h0
      intro p hall _ _
      simp [hinit.came, hinit.net.loc, ho.start, hinit.net.waits]
  | @step s t p hr hst ih =>
      have hstep : Step N H s p t := hst
      intro q hall hseqMem hq
      by_cases hqp : q = p
      · subst hqp
        have hold := ih q hall hseqMem hq
        cases hstep with
        | @move u hmove hmeet =>
            have hpos : pos q (u.loc q) = pos q (s.net.loc q) := by
              rcases goes_of_step hmove hmeet with ⟨k, hk, hloc⟩ | ⟨c, rfl, _⟩
              · rw [hloc]
                exact ho.stays s q k hr hk fun k' hk' => absurd hk' (hmeet k')
              · rfl
            have hnot : s.net.waits q ≠ true := not_waits hr hmeet
            have hnot' : u.waits q ≠ true := by
              rw [(move_waits hmove hmeet).1]
              exact hnot
            rw [if_neg fun h => hnot h.1] at hold
            rw [if_neg fun h => hnot' h.1]
            show s.came q hall = (seq.take (pos q (u.loc q))).count hall + 0
            rw [hpos, hold]
        | @skip k hnext hout =>
            have hne : s.hallOf H q ≠ hall := by
              rintro rfl
              rw [hq] at hout
              cases hout
            rw [if_neg fun h => hne h.2] at hold
            have hnot : s.net.waits q ≠ true := fun hwaits => by
              rw [(waits_of_reachable hr q hwaits).member] at hout
              cases hout
            rw [if_neg fun h => hnot h.1]
            show s.came q hall = (seq.take (pos q ((s.net.goto q k).loc q))).count hall + 0
            rw [goto_loc_self]
            by_cases hmem : s.hallOf H q ∈ seq
            · rcases ho.passes s q k hr hnext hmem with ⟨hpos, hseq⟩
              rw [hpos, count_take hseq, if_neg hne, hold]
            · rw [ho.stays s q k hr (goes_of_meet hnext) fun _ _ => hmem, hold]
        | come hnext hmem hout =>
            have hwaits : (s.net.arrive q).waits q = true := Function.update_self _ _ _
            rw [if_neg fun h => absurd (hout.symm.trans h.1) (by decide), Nat.add_zero] at hold
            show (s.come q (s.hallOf H q)).came q hall = (seq.take (pos q (s.net.loc q))).count hall +
              if (s.net.arrive q).waits q = true ∧ s.hallOf H q = hall then 1 else 0
            by_cases hhall : s.hallOf H q = hall
            · rw [if_pos ⟨hwaits, hhall⟩, hhall, come_came_self, hold]
            · rw [if_neg fun h => hhall h.2, come_came_other (Ne.symm hhall), hold, Nat.add_zero]
        | @pass k hnext hin hall' =>
            have hleft : ((s.net.leave q).goto q k).waits q ≠ true := by
              have hfalse : ((s.net.leave q).goto q k).waits q = false := Function.update_self _ _ _
              simp [hfalse]
            rw [if_neg fun h => hleft h.1]
            show s.came q hall =
              (seq.take (pos q (((s.net.leave q).goto q k).loc q))).count hall + 0
            rw [goto_loc_self, hold, Nat.add_zero]
            by_cases hmem : s.hallOf H q ∈ seq
            · rcases ho.passes s q k hr hnext hmem with ⟨hpos, hseq⟩
              rw [hpos, count_take hseq]
              by_cases hhall : s.hallOf H q = hall
              · rw [if_pos ⟨hin, hhall⟩, if_pos hhall]
              · rw [if_neg fun h => hhall h.2, if_neg hhall]
            · have hne : s.hallOf H q ≠ hall := fun heq => hmem (heq ▸ hseqMem)
              rw [ho.stays s q k hr (goes_of_meet hnext) fun _ _ => hmem, if_neg fun h => hne h.2,
                Nat.add_zero]
      · rcases hstep.waits_ne hqp with ⟨hwaits, hloc, hcame⟩
        rw [hwaits, hloc, hcame, hallOf, hloc]
        exact ih q hall hseqMem hq

theorem Step.came_le (hst : Step N H s p t) (q : P) (hall : Nat) : s.came q hall ≤ t.came q hall := by
  cases hst with
  | come _ _ _ =>
      by_cases hq : q = p
      · subst hq
        by_cases hhall : hall = s.hallOf H q
        · rw [hhall, come_came_self]
          exact Nat.le_succ _
        · rw [come_came_other hhall]
      · rw [come_came_ne hq]
  | _ => exact Nat.le_refl _

theorem count_take_le {i j hall : Nat} (h : i ≤ j) :
    (seq.take i).count hall ≤ (seq.take j).count hall :=
  (List.take_sublist_take_left h).count_le hall

/-- When a member has passed a hall, every member has come to it. -/
theorem Visits.passed (ho : Visits N H seq pos) (h : (system N H).Reachable s) :
    ∀ q i hall, i < pos q (s.net.loc q) → seq[i]? = some hall → H.member hall q = true →
      ∀ p, H.member hall p = true → (seq.take (i + 1)).count hall ≤ s.came p hall := by
  induction h with
  | @init s h0 =>
      have hinit : Init N s := h0
      intro q i hall hi
      rw [hinit.net.loc, ho.start] at hi
      exact absurd hi (Nat.not_lt_zero i)
  | @step s t p hr hst ih =>
      have hstep : Step N H s p t := hst
      intro q i hall hi hseq hq r hrmem
      have hgrows := hstep.came_le r hall
      by_cases hold : i < pos q (s.net.loc q)
      · exact Nat.le_trans (ih q i hall hold hseq hq r hrmem) hgrows
      -- this step has taken `q` out of the hall
      have hqp : q = p := by
        by_contra hne
        rw [(hstep.waits_ne hne).2.1] at hi
        exact hold hi
      subst hqp
      cases hstep with
      | @move u hmove hmeet =>
          exfalso
          rcases goes_of_step hmove hmeet with ⟨k, hk, hloc⟩ | ⟨c, rfl, _⟩
          · have hstays := ho.stays s q k hr hk fun k' hk' => absurd hk' (hmeet k')
            have hi' : i < pos q (u.loc q) := hi
            rw [hloc, hstays] at hi'
            exact hold hi'
          · exact hold hi
      | @skip k hnext hout =>
          exfalso
          have hi' : i < pos q ((s.net.goto q k).loc q) := hi
          rw [goto_loc_self] at hi'
          by_cases hmem : s.hallOf H q ∈ seq
          · rcases ho.passes s q k hr hnext hmem with ⟨hpos, hhere⟩
            rw [hpos] at hi'
            have hsame : i = pos q (s.net.loc q) := by omega
            rw [← hsame, hseq] at hhere
            rw [← Option.some.inj hhere, hq] at hout
            cases hout
          · rw [ho.stays s q k hr (goes_of_meet hnext) fun _ _ => hmem] at hi'
            exact hold hi'
      | come _ _ _ => exact absurd hi hold
      | @pass k hnext hin hall' =>
          have hi' : i < pos q (((s.net.leave q).goto q k).loc q) := hi
          rw [goto_loc_self] at hi'
          by_cases hmem : s.hallOf H q ∈ seq
          · rcases ho.passes s q k hr hnext hmem with ⟨hpos, hhere⟩
            rw [hpos] at hi'
            have hsame : i = pos q (s.net.loc q) := by omega
            rw [← hsame, hseq] at hhere
            have hhall : s.hallOf H q = hall := (Option.some.inj hhere).symm
            have hcame := ho.came hr q hall (List.mem_of_getElem? hseq) hq
            rw [if_pos ⟨hin, hhall⟩, ← hsame] at hcame
            have hle := hall' r (by rw [hhall]; exact hrmem)
            rw [hhall, hcame] at hle
            rw [count_take hseq, if_pos rfl]
            exact hle
          · rw [ho.stays s q k hr (goes_of_meet hnext) fun _ _ => hmem] at hi'
            exact absurd hi' hold

/-- So it waits there, or it has passed it too. -/
theorem Visits.together (ho : Visits N H seq pos) (h : (system N H).Reachable s) {i hall : Nat}
    (hi : i < pos q (s.net.loc q)) (hseq : seq[i]? = some hall) (hq : H.member hall q = true)
    (hp : H.member hall p = true) :
    i < pos p (s.net.loc p) ∨
      i = pos p (s.net.loc p) ∧ s.net.waits p = true ∧ s.hallOf H p = hall := by
  have hmem := List.mem_of_getElem? hseq
  have hpassed := ho.passed h q i hall hi hseq hq p hp
  rw [ho.came h p hall hmem hp, count_take hseq, if_pos rfl] at hpassed
  by_cases hlt : i < pos p (s.net.loc p)
  · exact Or.inl hlt
  have hle : pos p (s.net.loc p) ≤ i := Nat.le_of_not_lt hlt
  have hcount := @count_take_le seq _ _ hall hle
  have hwaits : s.net.waits p = true ∧ s.hallOf H p = hall := by
    by_contra hnot
    rw [if_neg hnot] at hpassed
    omega
  refine Or.inr ⟨?_, hwaits⟩
  by_contra hne
  -- it would wait in the same hall at an earlier place of the sequence
  rcases (waits_of_reachable h p hwaits.1).meet with ⟨k, hk⟩
  have hhere := (ho.passes s p k h hk (by rw [hwaits.2]; exact hmem)).2
  rw [hwaits.2] at hhere
  have hearlier := @count_take_le seq (pos p (s.net.loc p) + 1) i hall (by omega)
  rw [count_take hhere, if_pos rfl] at hearlier
  rw [if_pos hwaits] at hpassed
  omega

theorem InOrder.together (ho : InOrder N H seq pos) (h : (system N H).Reachable s) {i hall : Nat}
    (hi : i < pos q (s.net.loc q)) (hseq : seq[i]? = some hall) (hq : H.member hall q = true)
    (hp : H.member hall p = true) :
    i < pos p (s.net.loc p) ∨ i = pos p (s.net.loc p) ∧ s.net.waits p = true := by
  rcases ho.visits.together h hi hseq hq hp with hlt | ⟨heq, hwaits, _⟩
  · exact Or.inl hlt
  · exact Or.inr ⟨heq, hwaits⟩

end Order

/-! ## When nobody can go on -/

section Stuck

variable [DecidableEq P] {N : Network P M σ} {H : Halls P σ} {s : Meetings P M σ} {p q : P}
variable {seq : List Nat} {pos : P → σ → Nat}

/-- No program scans. -/
def NoScan (N : Network P M σ) : Prop :=
  ∀ p l srcs k, N.next p l ≠ .scan srcs k

/-- Who can make no step is blocked. -/
theorem blocked_of_no_step (hscan : NoScan N) (hno : ∀ t, ¬ Step N H s p t) : Blocked N H s p := by
  unfold Blocked
  cases hnext : N.next p (s.net.loc p) with
  | put d m k =>
      intro hfree
      exact hno _ (Step.move (Network.Step.put hnext hfree) fun k' hk => by cases hnext.symm.trans hk)
  | overwrite d m k =>
      exact hno _ (Step.move (Network.Step.overwrite hnext) fun k' hk => by
        cases hnext.symm.trans hk)
  | take r k =>
      cases hplace : (s.net.chan (r, p)).place with
      | none => exact hplace
      | some m =>
          exact absurd (Step.move (Network.Step.take hnext hplace) fun k' hk => by
            cases hnext.symm.trans hk) (hno _)
  | scan srcs k => exact absurd hnext (hscan _ _ _ _)
  | meet k =>
      cases hwaits : s.net.waits p with
      | false =>
          cases hmem : H.member (s.hallOf H p) p with
          | false => exact absurd (Step.skip hnext hmem) (hno _)
          | true => exact absurd (Step.come hnext hmem hwaits) (hno _)
      | true =>
          refine ⟨rfl, ?_⟩
          by_contra hnone
          refine hno _ (Step.pass hnext hwaits fun q hq => ?_)
          by_contra hlt
          exact hnone ⟨q, hq, Nat.lt_of_not_le hlt⟩
  | stop => trivial

/-- If all are blocked and somebody is at a barrier of the sequence, somebody else is not, and has passed
no more of them than any of those who are. -/
theorem Visits.exists_behind [Finite P] (ho : Visits N H seq pos) (h : (system N H).Reachable s)
    (hblocked : ∀ p, Blocked N H s p) {k : σ} (hp : N.next p (s.net.loc p) = .meet k)
    (hmem : s.hallOf H p ∈ seq) :
    ∃ q, (∀ k', N.next q (s.net.loc q) = .meet k' → s.hallOf H q ∉ seq) ∧
      ∀ r k', N.next r (s.net.loc r) = .meet k' → s.hallOf H r ∈ seq →
        pos q (s.net.loc q) ≤ pos r (s.net.loc r) := by
  -- the one at a barrier who has passed the fewest
  obtain ⟨p₀, ⟨⟨k₀, hk₀⟩, hmem₀⟩, hleast⟩ := Set.exists_min_image
    {r | (∃ k', N.next r (s.net.loc r) = .meet k') ∧ s.hallOf H r ∈ seq}
    (fun r => pos r (s.net.loc r)) (Set.toFinite _) ⟨p, ⟨k, hp⟩, hmem⟩
  have hwait := hblocked p₀
  unfold Blocked at hwait
  rw [hk₀] at hwait
  rcases hwait with ⟨hin, q, hmemq, hlt⟩
  have hmember₀ := (waits_of_reachable h p₀ hin).member
  rw [ho.came h p₀ _ hmem₀ hmember₀, if_pos ⟨hin, rfl⟩, ho.came h q _ hmem₀ hmemq] at hlt
  have hseq := (ho.passes s p₀ k₀ h hk₀ hmem₀).2
  have hle : pos q (s.net.loc q) ≤ pos p₀ (s.net.loc p₀) := by
    by_contra hgt
    have hcount := @count_take_le seq _ _ (s.hallOf H p₀) (Nat.lt_of_not_le hgt)
    rw [Nat.succ_eq_add_one, count_take hseq, if_pos rfl] at hcount
    omega
  refine ⟨q, ?_, fun r k' hr hmemr => Nat.le_trans hle (hleast r ⟨⟨k', hr⟩, hmemr⟩)⟩
  -- one who had passed as many would wait in the same hall
  intro k' hk' hmem'
  have hsame : pos q (s.net.loc q) = pos p₀ (s.net.loc p₀) :=
    Nat.le_antisymm hle (hleast q ⟨⟨k', hk'⟩, hmem'⟩)
  have hseq' := (ho.passes s q k' h hk' hmem').2
  rw [hsame, hseq] at hseq'
  have hwait' := hblocked q
  unfold Blocked at hwait'
  rw [hk'] at hwait'
  rw [hsame, if_pos ⟨hwait'.1, (Option.some.inj hseq').symm⟩] at hlt
  exact Nat.lt_irrefl _ hlt

theorem InOrder.exists_behind [Finite P] (ho : InOrder N H seq pos) (h : (system N H).Reachable s)
    (hblocked : ∀ p, Blocked N H s p) {k : σ} (hp : N.next p (s.net.loc p) = .meet k) :
    ∃ q, (∀ k', N.next q (s.net.loc q) ≠ .meet k') ∧
      ∀ r k', N.next r (s.net.loc r) = .meet k' → pos q (s.net.loc q) ≤ pos r (s.net.loc r) := by
  rcases ho.visits.exists_behind h hblocked hp (ho.mem h hp) with ⟨q, hnot, hleast⟩
  exact ⟨q, fun k' hk' => hnot k' hk' (ho.mem h hk'), fun r k' hr => hleast r k' hr (ho.mem h hr)⟩

end Stuck

/-! ## Bounded runs -/

section Work

variable [DecidableEq P] {N : Network P M σ} {H : Halls P σ} {s t : Meetings P M σ} {p q : P}
variable {rank : P → Network.State P M σ → Nat} {k : Nat}

theorem Step.sameAt (hst : Step N H s p t) (hq : q ≠ p) : SameAt q s.net t.net := by
  cases hst with
  | move hmove _ => exact hmove.sameAt hq
  | skip _ _ => exact ⟨goto_loc_ne hq, fun _ => rfl, fun _ => rfl⟩
  | come _ _ _ => exact ⟨rfl, fun _ => rfl, fun _ => rfl⟩
  | pass _ _ _ => exact ⟨goto_loc_ne hq, fun _ => rfl, fun _ => rfl⟩

/-- From `r` to `u` process `p` has done more than to scan in vain. -/
def Acts (N : Network P M σ) (r : Network.State P M σ) (p : P) (u : Network.State P M σ) : Prop :=
  u.chan ≠ r.chan ∨ ∀ srcs k, N.next p (r.loc p) ≠ .scan srcs k

/-- A measure that no step raises, and that every step lowers but those of a scan that finds nothing. -/
structure Lowers (N : Network P M σ) (H : Halls P σ) (μ : Meetings P M σ → Nat) : Prop where
  le : ∀ s p t, (system N H).Reachable s → Step N H s p t → μ t ≤ μ s
  lt : ∀ s p t, (system N H).Reachable s → Step N H s p t → Acts N s.net p t.net → μ t < μ s

/-- A step of a scan that changes no channel finds nothing. -/
theorem sameAt_of_not_acts {r u : Network.State P M σ} (hmove : N.Step r p u)
    (hnot : ¬ Acts N r p u) : SameAt p r u := by
  simp only [Acts, not_or, not_not, not_forall] at hnot
  rcases hnot with ⟨hchan, srcs, k, hscan⟩
  cases hmove with
  | pass _ _ _ => exact ⟨rfl, fun _ => rfl, fun _ => rfl⟩
  | wrap _ _ => exact ⟨rfl, fun _ => rfl, fun _ => rfl⟩
  | @hit r' m _ _ _ _ hm =>
      have houts := congrArg OnePlace.outs (congrFun hchan (r', p))
      simp only [goto_chan, seek_chan, onChan_chan_self, OnePlace.clear_outs] at houts
      exact absurd houts (by simp)
  | put hnext _ => cases hnext.symm.trans hscan
  | overwrite hnext => cases hnext.symm.trans hscan
  | take hnext _ => cases hnext.symm.trans hscan
  | arrive hnext _ => cases hnext.symm.trans hscan
  | leave hnext _ _ => cases hnext.symm.trans hscan

/-- How many messages of `srcs` process `p` can still take, if it takes not more than `cap q` of `q`. -/
def remaining (srcs : Finset P) (cap : P → Nat) (p : P) (chan : P × P → OnePlace M) : Nat :=
  ∑ q ∈ srcs, (cap q - (chan (q, p)).outs.length)

section Remaining

variable {srcs : Finset P} {cap : P → Nat} {chan chan' : P × P → OnePlace M}

omit [DecidableEq P] in
theorem remaining_le : remaining srcs cap p chan ≤ ∑ q ∈ srcs, cap q :=
  Finset.sum_le_sum fun _ _ => Nat.sub_le _ _

omit [DecidableEq P] in
theorem remaining_congr (h : ∀ q, (chan' (q, p)).outs = (chan (q, p)).outs) :
    remaining srcs cap p chan' = remaining srcs cap p chan :=
  Finset.sum_congr rfl fun q _ => by rw [h]

/-- Taking a message leaves one less. -/
theorem remaining_clear {r : Network.State P M σ} (hmem : q ∈ srcs) {m : M}
    (hlt : (r.chan (q, p)).outs.length < cap q) :
    remaining srcs cap p (r.onChan (q, p) (.clear m)).chan < remaining srcs cap p r.chan := by
  refine Finset.sum_lt_sum ?_ ⟨q, hmem, ?_⟩
  · intro q' _
    rw [outs_clear, List.length_append]
    omega
  · rw [outs_clear, if_pos rfl, List.length_append, List.length_singleton]
    omega

end Remaining

/-- Whenever a program goes on, less is left for it to do.  What is left depends on its location and on
what it has put and taken. -/
structure Ranked (N : Network P M σ) (H : Halls P σ) (rank : P → Network.State P M σ → Nat) :
    Prop where
  same : ∀ p r u, SameAt p r u → rank p u = rank p r
  moves : ∀ s p u, (system N H).Reachable s → N.Step s.net p u → Acts N s.net p u →
    (∀ k, N.next p (s.net.loc p) ≠ .meet k) → rank p u < rank p s.net
  meets : ∀ s p k, (system N H).Reachable s → N.next p (s.net.loc p) = .meet k →
    rank p (s.net.goto p k) < rank p s.net

/-- It is enough to look at the locations, if they say what is left and no program scans. -/
theorem Ranked.ofLoc {left : P → σ → Nat} (hscan : NoScan N)
    (hgoes : ∀ s p k, (system N H).Reachable s → Goes N s.net p k → left p k < left p (s.net.loc p)) :
    Ranked N H fun p r => left p (r.loc p) where
  same p r u h := by rw [h.loc]
  moves s p u h hmove _ hmeet := by
    rcases goes_of_step hmove hmeet with ⟨k, hk, hloc⟩ | ⟨_, _, _, _, hnext⟩
    · rw [hloc]
      exact hgoes s p k h hk
    · exact absurd hnext (hscan _ _ _ _)
  meets s p k h hnext := by
    rw [goto_loc_self]
    refine hgoes s p k h ?_
    unfold Goes
    rw [hnext]

/-- What process `p` has left to do: a barrier takes two steps. -/
def workOf (rank : P → Network.State P M σ → Nat) (s : Meetings P M σ) (p : P) : Nat :=
  2 * rank p s.net + if s.net.waits p = true then 0 else 1

def work [Fintype P] (rank : P → Network.State P M σ → Nat) (s : Meetings P M σ) : Nat :=
  ∑ p, workOf rank s p

theorem Ranked.workOf_lt (hr : Ranked N H rank) (h : (system N H).Reachable s)
    (hst : Step N H s p t) (hacts : Acts N s.net p t.net) : workOf rank t p < workOf rank s p := by
  unfold workOf
  cases hst with
  | @move u hmove hmeet =>
      have hlt := hr.moves s p u h hmove hacts hmeet
      show 2 * rank p u + (if u.waits p = true then 0 else 1) < _
      rw [(move_waits hmove hmeet).1]
      omega
  | @skip k hnext hout =>
      have hlt := hr.meets s p k h hnext
      show 2 * rank p (s.net.goto p k) + (if s.net.waits p = true then 0 else 1) < _
      omega
  | come hnext hmem hout =>
      have hnot : s.net.waits p ≠ true := by simp [hout]
      have hin : (s.net.arrive p).waits p = true := Function.update_self _ _ _
      have hsame := hr.same p s.net (s.net.arrive p) ⟨rfl, fun _ => rfl, fun _ => rfl⟩
      show 2 * rank p (s.net.arrive p) + (if (s.net.arrive p).waits p = true then 0 else 1) < _
      rw [if_pos hin, if_neg hnot, hsame]
      omega
  | @pass k hnext hin hall =>
      have hlt := hr.meets s p k h hnext
      have hsame := hr.same p (s.net.goto p k) ((s.net.leave p).goto p k)
        ⟨rfl, fun _ => rfl, fun _ => rfl⟩
      show 2 * rank p ((s.net.leave p).goto p k) + (if _ then 0 else 1) < _
      rw [hsame, if_pos hin]
      split <;> omega

/-- A scan that finds nothing has as much left to do as before. -/
theorem Ranked.workOf_eq (hr : Ranked N H rank) (hst : Step N H s p t)
    (hnot : ¬ Acts N s.net p t.net) : workOf rank t p = workOf rank s p := by
  cases hst with
  | @move u hmove hmeet =>
      show 2 * rank p u + (if u.waits p = true then 0 else 1) = _
      rw [(move_waits hmove hmeet).1, hr.same p s.net u (sameAt_of_not_acts hmove hnot), workOf]
  | skip hnext _ => exact absurd (Or.inr fun srcs k hk => by cases hnext.symm.trans hk) hnot
  | come hnext _ _ => exact absurd (Or.inr fun srcs k hk => by cases hnext.symm.trans hk) hnot
  | pass hnext _ _ => exact absurd (Or.inr fun srcs k hk => by cases hnext.symm.trans hk) hnot

theorem Ranked.workOf_ne (hr : Ranked N H rank) (hst : Step N H s p t) (hq : q ≠ p) :
    workOf rank t q = workOf rank s q := by
  rw [workOf, workOf, (hst.waits_ne hq).1, hr.same q s.net t.net (hst.sameAt hq)]

/-- Every step but those of scans in vain takes work away. -/
theorem Ranked.lowers [Fintype P] (hr : Ranked N H rank) : Lowers N H (work rank) where
  le s p t h hst := by
    refine Finset.sum_le_sum fun q _ => ?_
    by_cases hq : q = p
    · rw [hq]
      by_cases hacts : Acts N s.net p t.net
      · exact Nat.le_of_lt (hr.workOf_lt h hst hacts)
      · exact Nat.le_of_eq (hr.workOf_eq hst hacts)
    · exact Nat.le_of_eq (hr.workOf_ne hst hq)
  lt s p t h hst hacts := by
    refine Finset.sum_lt_sum ?_ ⟨p, Finset.mem_univ p, hr.workOf_lt h hst hacts⟩
    intro q _
    by_cases hq : q = p
    · rw [hq]
      exact Nat.le_of_lt (hr.workOf_lt h hst hacts)
    · exact Nat.le_of_eq (hr.workOf_ne hst hq)

section Unscanned

variable (hscan : NoScan N)

include hscan

theorem Ranked.work_lt [Fintype P] (hr : Ranked N H rank) (h : (system N H).Reachable s)
    (hst : Step N H s p t) : work rank t < work rank s :=
  hr.lowers.lt s p t h hst (Or.inr fun _ _ => hscan _ _ _ _)

/-- If no program scans, a run is not longer than the work at its beginning. -/
theorem Ranked.length_le [Fintype P] (hr : Ranked N H rank) (h : (system N H).Reachable s)
    (hrun : (system N H).Run k s t) : k ≤ work rank s :=
  Nat.le_trans (Nat.le_add_right _ _)
    (hrun.length_le (μ := work rank) (fun _ _ _ hs hst => hr.work_lt hscan hs hst) h)

/-- And every run can be continued to a state in which all are blocked. -/
theorem Ranked.exists_blocked [Fintype P] (hr : Ranked N H rank) (h : (system N H).Reachable s) :
    ∃ t, (system N H).Steps s t ∧ ∀ p, Blocked N H t p := by
  rcases TransSys.exists_final (μ := work rank) (fun _ _ _ hs hst => hr.work_lt hscan hs hst) h with
    ⟨t, hsteps, hfinal⟩
  exact ⟨t, hsteps, fun p => blocked_of_no_step hscan fun u => hfinal p u⟩

end Unscanned

end Work

end Meetings
end Lib
end Ssmp
