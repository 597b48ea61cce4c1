import Ssmp.Lib.Meetings

/-!
# Part — a network as a part of larger programs

The programs of a network may run those of another, smaller one as a part of theirs: where a process is
inside of the part, it does what the smaller program does.  Inside all meet at one hall, of which they
are members, and outside at others.

* `loc_invariant` — what the actions of a program keep holds where the program is,
* `Part` — one network is a part of another,
* `Part.Follows` — a state of the part follows one of the whole,
* `Part.Follows.step_inside`, `Part.Follows.step_outside` — a step inside is a step of the part, if the
  channels are the same, and one outside is none,
* `Part.Follows.not_blocked` — who is ready in the part is not blocked,
* `Part.invariant` — the rule for a relation between the runs of both,
* `Part.project` — the state of the part in a state of the whole, and the rules for what holds there
  (`Part.project_invariant`, `Part.project_reachable`).
-/

namespace Ssmp
namespace Lib

open Network

universe u v w x

section Actions

variable {P : Type u} {M : Type v} {σ : Type w} {τ : Type x}

/-- The action with other locations behind it. -/
def Action.map (f : σ → τ) : Action P M σ → Action P M τ
  | .put d m k => .put d m (f k)
  | .overwrite d m k => .overwrite d m (f k)
  | .take q k => .take q fun m => f (k m)
  | .scan srcs k => .scan srcs fun q m => f (k q m)
  | .meet k => .meet (f k)
  | .stop => .stop

/-- The location `l` is one of those behind the action. -/
def Action.Leads (l : σ) : Action P M σ → Prop
  | .put _ _ k => l = k
  | .overwrite _ _ k => l = k
  | .take _ k => ∃ m, l = k m
  | .scan _ k => ∃ q m, l = k q m
  | .meet k => l = k
  | .stop => False

variable {act : Action P M σ} {f : σ → τ}

theorem map_eq_put {d : P} {m : M} {k : τ} (h : act.map f = .put d m k) :
    ∃ k', act = .put d m k' ∧ f k' = k := by
  cases act with
  | put d' m' k' =>
      simp only [Action.map, Action.put.injEq] at h
      rcases h with ⟨rfl, rfl, rfl⟩
      exact ⟨k', rfl, rfl⟩
  | _ => simp [Action.map] at h

theorem map_eq_overwrite {d : P} {m : M} {k : τ} (h : act.map f = .overwrite d m k) :
    ∃ k', act = .overwrite d m k' ∧ f k' = k := by
  cases act with
  | overwrite d' m' k' =>
      simp only [Action.map, Action.overwrite.injEq] at h
      rcases h with ⟨rfl, rfl, rfl⟩
      exact ⟨k', rfl, rfl⟩
  | _ => simp [Action.map] at h

theorem map_eq_take {q : P} {k : M → τ} (h : act.map f = .take q k) :
    ∃ k', act = .take q k' ∧ ∀ m, f (k' m) = k m := by
  cases act with
  | take q' k' =>
      simp only [Action.map, Action.take.injEq] at h
      rcases h with ⟨rfl, rfl⟩
      exact ⟨k', rfl, fun _ => rfl⟩
  | _ => simp [Action.map] at h

theorem map_eq_scan {srcs : List P} {k : P → M → τ} (h : act.map f = .scan srcs k) :
    ∃ k', act = .scan srcs k' ∧ ∀ q m, f (k' q m) = k q m := by
  cases act with
  | scan srcs' k' =>
      simp only [Action.map, Action.scan.injEq] at h
      rcases h with ⟨rfl, rfl⟩
      exact ⟨k', rfl, fun _ _ => rfl⟩
  | _ => simp [Action.map] at h

theorem map_eq_meet {k : τ} (h : act.map f = .meet k) : ∃ k', act = .meet k' ∧ f k' = k := by
  cases act with
  | meet k' =>
      simp only [Action.map, Action.meet.injEq] at h
      exact ⟨k', rfl, h⟩
  | _ => simp [Action.map] at h

theorem leads_map {l : τ} (h : (act.map f).Leads l) : ∃ k, act.Leads k ∧ l = f k := by
  cases act with
  | put d m k => exact ⟨k, rfl, h⟩
  | overwrite d m k => exact ⟨k, rfl, h⟩
  | take q k =>
      rcases h with ⟨m, rfl⟩
      exact ⟨k m, ⟨m, rfl⟩, rfl⟩
  | scan srcs k =>
      rcases h with ⟨q, m, rfl⟩
      exact ⟨k q m, ⟨q, m, rfl⟩, rfl⟩
  | meet k => exact ⟨k, rfl, h⟩
  | stop => exact h.elim

theorem map_eq_stop : act.map f = .stop ↔ act = .stop := by
  cases act with
  | _ => simp [Action.map]

end Actions

variable {P : Type u} {M : Type v} {σ : Type w} {τ : Type x}

/-! ## Locations -/

section Locations

variable [DecidableEq P] {N : Network P M σ} {H : Halls P σ} {s : Meetings P M σ} {p : P}

omit [DecidableEq P] in
theorem leads_of_goes {r : Network.State P M σ} {k : σ} (h : Meetings.Goes N r p k) :
    (N.next p (r.loc p)).Leads k := by
  unfold Meetings.Goes at h
  cases hnext : N.next p (r.loc p) with
  | put d m k' =>
      rw [hnext] at h
      exact h.2
  | overwrite d m k' =>
      rw [hnext] at h
      exact h
  | take q f =>
      rw [hnext] at h
      rcases h with ⟨m, _, hk⟩
      exact ⟨m, hk⟩
  | scan srcs f =>
      rw [hnext] at h
      rcases h with ⟨q, _, m, _, hk⟩
      exact ⟨q, m, hk⟩
  | meet k' =>
      rw [hnext] at h
      exact h
  | stop =>
      rw [hnext] at h
      exact h

/-- A process stays where it is, or goes on to a location behind its action. -/
theorem leads_of_step {t : Meetings P M σ} (hst : Meetings.Step N H s p t) :
    t.net.loc p = s.net.loc p ∨ (N.next p (s.net.loc p)).Leads (t.net.loc p) := by
  cases hst with
  | move hmove hmeet =>
      rcases Meetings.goes_of_step hmove hmeet with ⟨k, hk, hloc⟩ | ⟨_, rfl, _⟩
      · rw [hloc]
        exact Or.inr (leads_of_goes hk)
      · exact Or.inl rfl
  | skip hnext _ =>
      rw [goto_loc_self, hnext]
      exact Or.inr rfl
  | come _ _ _ => exact Or.inl rfl
  | pass hnext _ _ =>
      rw [goto_loc_self, hnext]
      exact Or.inr rfl

/-- A predicate that is kept by the actions of a program holds where the program is. -/
theorem loc_invariant {I : P → σ → Prop} (hstart : ∀ p, I p (N.start p))
    (hleads : ∀ p l k, I p l → (N.next p l).Leads k → I p k)
    (h : (Meetings.system N H).Reachable s) : ∀ p, I p (s.net.loc p) := by
  induction h with
  | @init s h0 =>
      have hinit : Meetings.Init N s := h0
      intro p
      rw [hinit.net.loc]
      exact hstart p
  | @step s t p _ hst ih =>
      have hstep : Meetings.Step N H s p t := hst
      intro q
      by_cases hq : q = p
      · subst hq
        rcases leads_of_step hstep with hsame | hk
        · rw [hsame]
          exact ih q
        · exact hleads q _ _ (ih q) hk
      · rw [(hstep.waits_ne hq).2.1]
        exact ih q

end Locations

/-! ## Parts -/

/-- The programs of `N` run those of `N₀` where they are `inside`; `back` is where they are in the
part, and where they have been or will be in it while they are outside. -/
structure Part [DecidableEq P] (N₀ : Network P M σ) (N : Network P M τ) (H : Halls P τ) (hall : Nat)
    (inside : P → τ → Bool) (back : P → τ → σ) : Prop where
  start : ∀ p, back p (N.start p) = N₀.start p
  group : ∀ p, H.member hall p = N₀.group p
  next : ∀ p l, inside p l = true → ∃ f, N.next p l = (N₀.next p (back p l)).map f ∧
    ∀ k, back p (f k) = k
  meets : ∀ s p k, (Meetings.system N H).Reachable s → inside p (s.net.loc p) = true →
    N.next p (s.net.loc p) = .meet k → s.hallOf H p = hall ∧ H.member hall p = true
  apart : ∀ p l k, inside p l = false → N.next p l = .meet k → H.hall p l ≠ hall
  noScan : ∀ p l srcs k, inside p l = false → N.next p l ≠ .scan srcs k
  stays : ∀ p l k, inside p l = false → (N.next p l).Leads k → back p k = back p l

namespace Part

section Steps

variable [DecidableEq P]
variable {N₀ : Network P M σ} {N : Network P M τ} {H : Halls P τ} {hall : Nat}
variable {inside : P → τ → Bool} {back : P → τ → σ}
variable {r u : Network.State P M σ} {s t : Meetings P M τ} {p : P}

/-- The state `r` of the part follows the state `s` of the whole; of the channels nothing is said. -/
structure Follows (hall : Nat) (inside : P → τ → Bool) (back : P → τ → σ) (r : Network.State P M σ)
    (s : Meetings P M τ) : Prop where
  loc : ∀ p, r.loc p = back p (s.net.loc p)
  cursor : r.cursor = s.net.cursor
  met : ∀ p, r.met p = s.came p hall
  waits : ∀ p, r.waits p = (s.net.waits p && inside p (s.net.loc p))

theorem Follows.init (hpart : Part N₀ N H hall inside back) (hr : N₀.Init r) (hs : Meetings.Init N s) :
    Follows hall inside back r s where
  loc p := by rw [hr.loc, hs.net.loc, hpart.start]
  cursor := by
    funext p
    rw [hr.cursor, hs.net.cursor]
  met p := by rw [hr.met, hs.came]
  waits p := by rw [hr.waits, hs.net.waits, Bool.false_and]

/-- Both go on, and nobody has come to a barrier or left one. -/
theorem Follows.goto (h : Follows hall inside back r s) {v : Network.State P M τ} {l : τ} {k : σ}
    (hout : s.net.waits p = false) (hloc : v.loc = Function.update s.net.loc p l)
    (hloc₀ : u.loc = Function.update r.loc p k) (hback : back p l = k) (hcursor : u.cursor = v.cursor)
    (hmet : u.met = r.met) (hwaits₀ : u.waits = r.waits) (hwaits : v.waits = s.net.waits) :
    Follows hall inside back u { s with net := v } where
  loc q := by
    show u.loc q = back q (v.loc q)
    rw [hloc, hloc₀]
    by_cases hq : q = p
    · subst hq
      simp [hback]
    · simp [hq, h.loc]
  cursor := hcursor
  met q := by
    rw [hmet]
    exact h.met q
  waits q := by
    show u.waits q = (v.waits q && inside q (v.loc q))
    rw [hwaits₀, h.waits, hwaits, hloc]
    by_cases hq : q = p
    · subst hq
      simp [hout]
    · simp [hq]

/-- A step inside is a step of the part, if the channels are the same. -/
theorem Follows.step_inside (hpart : Part N₀ N H hall inside back) (h : Follows hall inside back r s)
    (hchan : r.chan = s.net.chan) (hs : (Meetings.system N H).Reachable s)
    (hin : inside p (s.net.loc p) = true) (hst : Meetings.Step N H s p t) :
    ∃ u, N₀.Step r p u ∧ Follows hall inside back u t ∧ u.chan = t.net.chan := by
  rcases hpart.next p _ hin with ⟨f, hnext, hf⟩
  rw [← h.loc] at hnext
  have hmeets := fun k => hpart.meets s p k hs hin
  cases hst with
  | @move v hmove hmeet =>
      have hout : s.net.waits p = false := by
        simpa using Meetings.not_waits hs hmeet
      cases hmove with
      | put hact hfree =>
          rw [hnext] at hact
          rcases map_eq_put hact with ⟨k, hk, rfl⟩
          rw [← hchan] at hfree
          exact ⟨_, Network.Step.put hk hfree,
            h.goto hout rfl rfl (hf k) h.cursor rfl rfl rfl, by simp [State.goto, State.onChan, hchan]⟩
      | overwrite hact =>
          rw [hnext] at hact
          rcases map_eq_overwrite hact with ⟨k, hk, rfl⟩
          exact ⟨_, Network.Step.overwrite hk,
            h.goto hout rfl rfl (hf k) h.cursor rfl rfl rfl, by simp [State.goto, State.onChan, hchan]⟩
      | @take q m k hact hm =>
          rw [hnext] at hact
          rcases map_eq_take hact with ⟨k', hk, hfk⟩
          rw [← hchan] at hm
          refine ⟨_, Network.Step.take hk hm, h.goto hout rfl rfl ?_ h.cursor rfl rfl rfl, ?_⟩
          · rw [← hfk, hf]
          · simp [State.goto, State.onChan, hchan]
      | pass hact hr hmiss =>
          rw [hnext] at hact
          rcases map_eq_scan hact with ⟨k', hk, _⟩
          rw [← h.cursor] at hr ⊢
          rw [← hchan] at hmiss
          refine ⟨_, Network.Step.pass hk hr hmiss, ⟨h.loc, ?_, h.met, h.waits⟩, hchan⟩
          simp [State.seek, h.cursor]
      | wrap hact hend =>
          rw [hnext] at hact
          rcases map_eq_scan hact with ⟨k', hk, _⟩
          rw [← h.cursor] at hend
          refine ⟨_, Network.Step.wrap hk hend, ⟨h.loc, ?_, h.met, h.waits⟩, hchan⟩
          simp [State.seek, h.cursor]
      | hit hact hr hm =>
          rw [hnext] at hact
          rcases map_eq_scan hact with ⟨k', hk, hfk⟩
          rw [← h.cursor] at hr ⊢
          rw [← hchan] at hm
          refine ⟨_, Network.Step.hit hk hr hm, h.goto hout rfl rfl ?_ ?_ rfl rfl rfl, ?_⟩
          · rw [← hfk, hf]
          · simp [State.goto, State.seek, State.onChan, h.cursor]
          · simp [State.goto, State.seek, State.onChan, hchan]
      | arrive hact _ => exact absurd hact (hmeet _)
      | leave hact _ _ => exact absurd hact (hmeet _)
  | @skip k hact hmem =>
      rcases hmeets k hact with ⟨hhall, hmember⟩
      rw [hhall, hmember] at hmem
      cases hmem
  | @come k hact hmem hout =>
      have hhall : s.hallOf H p = hall := (hmeets k hact).1
      rw [hnext] at hact
      rcases map_eq_meet hact with ⟨k', hk, _⟩
      refine ⟨_, Network.Step.arrive hk (by rw [h.waits, hout, Bool.false_and]),
        ⟨h.loc, h.cursor, ?_, ?_⟩, hchan⟩
      · intro q
        rw [hhall]
        by_cases hq : q = p
        · subst hq
          simp [State.arrive, h.met]
        · rw [Meetings.come_came_ne hq]
          simp [State.arrive, hq, h.met]
      · intro q
        by_cases hq : q = p
        · subst hq
          simp [State.arrive, hin]
        · simp [State.arrive, hq, h.waits]
  | @pass k hact hwait hall' =>
      rcases hmeets k hact with ⟨hhere, _⟩
      rw [hnext] at hact
      rcases map_eq_meet hact with ⟨k', hk, rfl⟩
      refine ⟨_, Network.Step.leave hk (by rw [h.waits, hwait, hin]; rfl) ?_, ⟨?_, h.cursor, h.met, ?_⟩,
        hchan⟩
      · intro q hq
        have hle := hall' q (by rw [hhere, hpart.group]; exact hq)
        rw [hhere] at hle
        rwa [h.met, h.met]
      · intro q
        by_cases hq : q = p
        · subst hq
          simp [hf]
        · rw [goto_loc_ne hq, goto_loc_ne hq]
          exact h.loc q
      · intro q
        by_cases hq : q = p
        · subst hq
          simp [State.leave, State.goto]
        · simp [State.leave, State.goto, hq, h.waits]

/-- A step outside is none of the part. -/
theorem Follows.step_outside (hpart : Part N₀ N H hall inside back) (h : Follows hall inside back r s)
    (hs : (Meetings.system N H).Reachable s) (hin : inside p (s.net.loc p) = false)
    (hst : Meetings.Step N H s p t) : Follows hall inside back r t := by
  have hstays := fun k => hpart.stays p (s.net.loc p) k hin
  have hself : Function.update r.loc p (r.loc p) = r.loc := Function.update_eq_self p r.loc
  cases hst with
  | @move v hmove hmeet =>
      have hout : s.net.waits p = false := by
        simpa using Meetings.not_waits hs hmeet
      cases hmove with
      | @put _ _ k hact _ =>
          refine h.goto hout rfl hself.symm ?_ h.cursor rfl rfl rfl
          rw [hstays k (by rw [hact]; rfl), h.loc]
      | @overwrite _ _ k hact =>
          refine h.goto hout rfl hself.symm ?_ h.cursor rfl rfl rfl
          rw [hstays k (by rw [hact]; rfl), h.loc]
      | @take _ m k hact _ =>
          refine h.goto hout rfl hself.symm ?_ h.cursor rfl rfl rfl
          rw [hstays (k m) (by rw [hact]; exact ⟨m, rfl⟩), h.loc]
      | pass hact _ _ => exact absurd hact (hpart.noScan p _ _ _ hin)
      | wrap hact _ => exact absurd hact (hpart.noScan p _ _ _ hin)
      | hit hact _ _ => exact absurd hact (hpart.noScan p _ _ _ hin)
      | arrive hact _ => exact absurd hact (hmeet _)
      | leave hact _ _ => exact absurd hact (hmeet _)
  | @skip k hact hmem =>
      have hout : s.net.waits p = false := by
        by_contra hwaits
        have hmember := (Meetings.waits_of_reachable hs p (by simpa using hwaits)).member
        rw [hmem] at hmember
        cases hmember
      refine h.goto hout rfl hself.symm ?_ h.cursor rfl rfl rfl
      rw [hstays k (by rw [hact]; rfl), h.loc]
  | @come k hact hmem hout =>
      have hne : s.hallOf H p ≠ hall := hpart.apart p _ k hin hact
      refine ⟨h.loc, h.cursor, ?_, ?_⟩
      · intro q
        rw [Meetings.come_came_other (Ne.symm hne), h.met]
      · intro q
        by_cases hq : q = p
        · subst hq
          simp [h.waits, hin]
        · simp [State.arrive, hq, h.waits]
  | @pass k hact hwait hall' =>
      refine ⟨?_, h.cursor, h.met, ?_⟩
      · intro q
        by_cases hq : q = p
        · subst hq
          rw [goto_loc_self, hstays k (by rw [hact]; rfl), h.loc]
        · rw [goto_loc_ne hq]
          exact h.loc q
      · intro q
        by_cases hq : q = p
        · subst hq
          simp [State.leave, State.goto, h.waits, hin]
        · simp [State.leave, State.goto, hq, h.waits]

/-- Who is ready in the part is not blocked in the whole. -/
theorem Follows.not_blocked (hpart : Part N₀ N H hall inside back)
    (hs : (Meetings.system N H).Reachable s) (h : Follows hall inside back r s)
    (hchan : r.chan = s.net.chan)
    (hin : inside p (s.net.loc p) = true) (hready : N₀.Ready r p) : ¬ Meetings.Blocked N H s p := by
  rcases hpart.next p _ hin with ⟨f, hnext, _⟩
  rw [← h.loc] at hnext
  unfold Network.Ready at hready
  unfold Meetings.Blocked
  rw [hnext, ← hchan]
  cases hact : N₀.next p (r.loc p) with
  | put d m k =>
      rw [hact] at hready
      exact fun hne => hne hready
  | overwrite d m k => exact id
  | take q k =>
      rw [hact] at hready
      exact hready
  | scan srcs k =>
      rw [hact] at hready
      rcases hready with ⟨q, hq, hne⟩
      exact fun hempty => hne (hempty q hq)
  | meet k =>
      rw [hact] at hready hnext
      have hhall : s.hallOf H p = hall := (hpart.meets s p _ hs hin hnext).1
      rintro ⟨hwaits, q, hq, hlt⟩
      rw [hhall] at hq hlt
      have hle := hready (by rw [h.waits, hwaits, hin]; rfl) q (by rw [← hpart.group]; exact hq)
      rw [h.met, h.met] at hle
      exact Nat.not_le_of_lt hlt hle
  | stop => rw [hact] at hready; exact hready.elim

/-- A relation that holds at first, and that every step keeps, inside of the part and outside, relates
every state of the whole to a state of the part that follows it. -/
theorem invariant (hpart : Part N₀ N H hall inside back)
    {I : Network.State P M σ → Meetings P M τ → Prop}
    (hinit : ∀ r s, N₀.Init r → Meetings.Init N s → I r s)
    (hsame : ∀ r s p, N₀.system.Reachable r → (Meetings.system N H).Reachable s →
      Follows hall inside back r s → I r s → inside p (s.net.loc p) = true → r.chan = s.net.chan)
    (hin : ∀ r s p u t, N₀.system.Reachable r → (Meetings.system N H).Reachable s →
      Follows hall inside back r s → I r s → inside p (s.net.loc p) = true →
      Meetings.Step N H s p t → N₀.Step r p u → u.chan = t.net.chan → I u t)
    (hout : ∀ r s p t, N₀.system.Reachable r → (Meetings.system N H).Reachable s →
      Follows hall inside back r s → I r s → inside p (s.net.loc p) = false →
      Meetings.Step N H s p t → I r t)
    (h : (Meetings.system N H).Reachable s) :
    ∃ r, N₀.system.Reachable r ∧ Follows hall inside back r s ∧ I r s := by
  induction h with
  | @init s h0 =>
      have hs : Meetings.Init N s := h0
      exact ⟨N₀.fresh, TransSys.Reachable.init init_fresh, Follows.init hpart init_fresh hs,
        hinit _ _ init_fresh hs⟩
  | @step s t p hs hst ih =>
      rcases ih with ⟨r, hr, hfollows, hI⟩
      have hstep : Meetings.Step N H s p t := hst
      cases hp : inside p (s.net.loc p) with
      | true =>
          have hchan := hsame r s p hr hs hfollows hI hp
          rcases hfollows.step_inside hpart hchan hs hp hstep with ⟨u, hu, hfollows', hchan'⟩
          exact ⟨u, TransSys.Reachable.step hr hu, hfollows',
            hin r s p u t hr hs hfollows hI hp hstep hu hchan'⟩
      | false =>
          exact ⟨r, hr, hfollows.step_outside hpart hs hp hstep,
            hout r s p t hr hs hfollows hI hp hstep⟩

end Steps

/-! ## The state of the part -/

section Project

variable [DecidableEq P]
variable {N₀ : Network P M σ} {N : Network P M τ} {H : Halls P τ} {hall : Nat}
variable {inside : P → τ → Bool} {back : P → τ → σ}
variable {r : Network.State P M σ} {s t : Meetings P M τ} {p : P}

/-- The state of the part that has the channels of the whole. -/
def project (hall : Nat) (inside : P → τ → Bool) (back : P → τ → σ) (s : Meetings P M τ) :
    Network.State P M σ where
  loc p := back p (s.net.loc p)
  chan := s.net.chan
  cursor := s.net.cursor
  met p := s.came p hall
  waits p := s.net.waits p && inside p (s.net.loc p)

omit [DecidableEq P] in
theorem follows_project : Follows hall inside back (project hall inside back s) s :=
  ⟨fun _ => rfl, rfl, fun _ => rfl, fun _ => rfl⟩

omit [DecidableEq P] in
theorem Follows.eq_project (h : Follows hall inside back r s) (hchan : r.chan = s.net.chan) :
    r = project hall inside back s := by
  cases r with
  | mk loc chan cursor met waits =>
      have hloc : loc = fun p => back p (s.net.loc p) := funext h.loc
      have hcursor : cursor = s.net.cursor := h.cursor
      have hmet : met = fun p => s.came p hall := funext h.met
      have hwaits : waits = fun p => s.net.waits p && inside p (s.net.loc p) := funext h.waits
      have hchan' : chan = s.net.chan := hchan
      subst hloc hcursor hmet hwaits hchan'
      rfl

theorem project_init (hpart : Part N₀ N H hall inside back) (hs : Meetings.Init N s) :
    N₀.Init (project hall inside back s) := by
  have hfollows := Follows.init hpart init_fresh hs
  have hchan : N₀.fresh.chan = s.net.chan := by
    funext pq
    rw [hs.net.chan]
    rfl
  rw [← hfollows.eq_project hchan]
  exact init_fresh

/-- A step inside is a step of the part. -/
theorem project_step (hpart : Part N₀ N H hall inside back) (hs : (Meetings.system N H).Reachable s)
    (hin : inside p (s.net.loc p) = true) (hst : Meetings.Step N H s p t) :
    N₀.Step (project hall inside back s) p (project hall inside back t) := by
  rcases follows_project.step_inside hpart rfl hs hin hst with ⟨u, hu, hfollows, hchan⟩
  rw [← hfollows.eq_project hchan]
  exact hu

/-- A step outside changes at most the channels. -/
theorem project_outside (hpart : Part N₀ N H hall inside back)
    (hs : (Meetings.system N H).Reachable s) (hin : inside p (s.net.loc p) = false)
    (hst : Meetings.Step N H s p t) :
    project hall inside back t = { project hall inside back s with chan := t.net.chan } := by
  have hfollows := follows_project.step_outside hpart hs hin hst
  have hsame : Follows hall inside back
      { project hall inside back s with chan := t.net.chan } t :=
    ⟨hfollows.loc, hfollows.cursor, hfollows.met, hfollows.waits⟩
  exact (hsame.eq_project rfl).symm

/-- What every step of the part keeps, from whatever state, and every change of the channels from
outside, holds in every state of the whole. -/
theorem project_invariant (hpart : Part N₀ N H hall inside back) {I : Network.State P M σ → Prop}
    (hinit : ∀ r, N₀.Init r → I r) (hstep : ∀ r p u, I r → N₀.Step r p u → I u)
    (hout : ∀ s p t, (Meetings.system N H).Reachable s → inside p (s.net.loc p) = false →
      Meetings.Step N H s p t → I (project hall inside back s) →
      I { project hall inside back s with chan := t.net.chan })
    (h : (Meetings.system N H).Reachable s) : I (project hall inside back s) := by
  induction h with
  | init h0 => exact hinit _ (project_init hpart h0)
  | @step s t p hs hst ih =>
      cases hp : inside p (s.net.loc p) with
      | true => exact hstep _ p _ ih (project_step hpart hs hp hst)
      | false =>
          rw [project_outside hpart hs hp hst]
          exact hout s p t hs hp hst ih

/-- As long as nothing outside has changed the channels, the part is in one of its own runs. -/
theorem project_reachable (hpart : Part N₀ N H hall inside back) {Past : Meetings P M τ → Prop}
    (hpast : ∀ s p t, (Meetings.system N H).Reachable s → Meetings.Step N H s p t → Past s → Past t)
    (hchan : ∀ s p t, (Meetings.system N H).Reachable s → inside p (s.net.loc p) = false →
      Meetings.Step N H s p t → ¬ Past t → t.net.chan = s.net.chan)
    (h : (Meetings.system N H).Reachable s) (hnot : ¬ Past s) :
    N₀.system.Reachable (project hall inside back s) := by
  induction h with
  | init h0 => exact TransSys.Reachable.init (project_init hpart h0)
  | @step s t p hs hst ih =>
      have hbefore := ih fun hp => hnot (hpast s p t hs hst hp)
      cases hp : inside p (s.net.loc p) with
      | true => exact TransSys.Reachable.step hbefore (project_step hpart hs hp hst)
      | false =>
          rw [project_outside hpart hs hp hst, hchan s p t hs hp hst hnot]
          exact hbefore

end Project

end Part

end Lib
end Ssmp
