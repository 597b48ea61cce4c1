import Mathlib.Data.Fintype.Card
import Ssmp.Lib.TransSys

/-!
# PhaseBarrier — a reusable barrier from a counter and a flag

Each of finitely many processes passes the barrier any number of times.  It waits until the flag is
down, increments the counter, waits until the flag is up, and decrements the counter.  Who brings
the counter to the number of processes raises the flag, who brings it to zero lowers it, both as
separate steps.

* `Inv` — a run alternates between gathering and releasing, one round after the other,
* `Inv.completed_le`, `Inv.entered_le_of_released` — nobody leaves a round before all are in it,
* `Inv.reset`, `Inv.count_le` — the barrier is as new when nobody is inside,
* `Inv.exists_releasing`, `Inv.exists_gathering` — who can go on when somebody waits.
-/

namespace Ssmp
namespace Lib
namespace PhaseBarrier

universe u

/-! ## States and moves -/

inductive Stage where
  /-- Not inside, or waiting for the flag to be down. -/
  | out
  /-- Has seen the flag down. -/
  | ready
  /-- Has brought the counter to the number of processes. -/
  | last
  /-- Is counted and waits for the flag to be up. -/
  | held
  /-- Has seen the flag up. -/
  | go
  /-- Has brought the counter to zero. -/
  | final
  /-- Has nothing left to do but to return. -/
  | done
  deriving DecidableEq

namespace Stage

/-- Between the increment and the decrement. -/
def counted : Stage → Bool
  | last | held | go => true
  | out | ready | final | done => false

/-- Past the second wait. -/
def released : Stage → Bool
  | go | final | done => true
  | out | ready | last | held => false

end Stage

/-- The last two fields count the increments and the returns of each process. -/
@[ext]
structure State (P : Type u) where
  stage : P → Stage
  count : Nat
  flag : Bool
  entered : P → Nat
  completed : P → Nat

section Moves

variable {P : Type u} [DecidableEq P]

def State.put (s : State P) (p : P) (x : Stage) : State P :=
  { s with stage := Function.update s.stage p x }

/-- The state after `p` has incremented the counter. -/
def State.enter (s : State P) (p : P) (x : Stage) : State P :=
  { s.put p x with
    count := s.count + 1
    entered := Function.update s.entered p (s.entered p + 1) }

inductive Move [Fintype P] : State P → P → State P → Prop where
  | pass {s : State P} {p : P} (h : s.stage p = .out) (hflag : s.flag = false) :
      Move s p (s.put p .ready)
  | arrive {s : State P} {p : P} (h : s.stage p = .ready)
      (hcount : s.count + 1 ≠ Fintype.card P) : Move s p (s.enter p .held)
  | arriveLast {s : State P} {p : P} (h : s.stage p = .ready)
      (hcount : s.count + 1 = Fintype.card P) : Move s p (s.enter p .last)
  | raise {s : State P} {p : P} (h : s.stage p = .last) :
      Move s p { s.put p .held with flag := true }
  | see {s : State P} {p : P} (h : s.stage p = .held) (hflag : s.flag = true) :
      Move s p (s.put p .go)
  | leave {s : State P} {p : P} (h : s.stage p = .go) (hcount : s.count ≠ 1) :
      Move s p { s.put p .done with count := s.count - 1 }
  | leaveLast {s : State P} {p : P} (h : s.stage p = .go) (hcount : s.count = 1) :
      Move s p { s.put p .final with count := s.count - 1 }
  | lower {s : State P} {p : P} (h : s.stage p = .final) :
      Move s p { s.put p .done with flag := false }
  | ret {s : State P} {p : P} (h : s.stage p = .done) :
      Move s p
        { s.put p .out with completed := Function.update s.completed p (s.completed p + 1) }

variable {s : State P} {p q : P} {x y : Stage}

@[simp] theorem put_self : (s.put p x).stage p = x := Function.update_self _ _ _

@[simp] theorem put_count : (s.put p x).count = s.count := rfl

@[simp] theorem put_flag : (s.put p x).flag = s.flag := rfl

@[simp] theorem put_entered : (s.put p x).entered = s.entered := rfl

@[simp] theorem put_completed : (s.put p x).completed = s.completed := rfl

theorem put_ne (h : q ≠ p) : (s.put p x).stage q = s.stage q := Function.update_of_ne h _ _

/-- At most one process is at stage `y`. -/
def AtMostOne {P : Type u} (y : Stage) (s : State P) : Prop :=
  ∀ p q, s.stage p = y → s.stage q = y → p = q

theorem exists_put (h : ∃ q, s.stage q = y) (hp : s.stage p ≠ y) :
    ∃ q, (s.put p x).stage q = y := by
  rcases h with ⟨q, hq⟩
  -- the process at `y` is not the one that moves
  have hne : q ≠ p := fun heq => hp (heq ▸ hq)
  exact ⟨q, (put_ne hne).trans hq⟩

theorem atMostOne_put (h : AtMostOne y s) (hx : x ≠ y) : AtMostOne y (s.put p x) := by
  -- `p` itself is not at `y` afterwards
  have hother : ∀ q, (s.put p x).stage q = y → q ≠ p := by
    rintro q hq rfl
    exact hx (put_self.symm.trans hq)
  intro q q' hq hq'
  rw [put_ne (hother q hq)] at hq
  rw [put_ne (hother q' hq')] at hq'
  exact h q q' hq hq'

theorem atMostOne_put_new (h : ∀ q, s.stage q ≠ x) : AtMostOne x (s.put p x) := by
  have hself : ∀ q, (s.put p x).stage q = x → q = p := by
    intro q hq
    by_contra hne
    exact h q ((put_ne hne).symm.trans hq)
  intro q q' hq hq'
  rw [hself q hq, hself q' hq']

end Moves

/-! ## The invariant -/

section Invariant

variable {P : Type u} [Fintype P]

/-- Nobody inside, the counter 0, the flag down. -/
structure Fresh {P : Type u} (s : State P) : Prop where
  stage : ∀ p, s.stage p = .out
  count : s.count = 0
  flag : s.flag = false
  entered : ∀ p, s.entered p = 0
  completed : ∀ p, s.completed p = 0

/-- The processes that are counted. -/
def State.inside (s : State P) : Finset P :=
  Finset.univ.filter fun p => (s.stage p).counted

/-- What a process can be doing while round `r` gathers. -/
def GatherOk (r : Nat) (s : State P) (p : P) : Prop :=
  match s.stage p with
  | .out | .ready => s.entered p = r ∧ s.completed p = r
  | .done => s.entered p = r ∧ s.completed p + 1 = r
  | .held => s.entered p = r + 1 ∧ s.completed p = r
  | .last => s.entered p = r + 1 ∧ s.completed p = r ∧ s.count = Fintype.card P
  | .go | .final => False

/-- What a process can be doing while round `r` is released. -/
def ReleaseOk {P : Type u} (r : Nat) (s : State P) (p : P) : Prop :=
  match s.stage p with
  | .out => s.entered p = r + 1 ∧ s.completed p = r + 1
  | .held | .go | .done => s.entered p = r + 1 ∧ s.completed p = r
  | .final => s.entered p = r + 1 ∧ s.completed p = r ∧ s.count = 0
  | .ready | .last => False

structure Gathering (r : Nat) (s : State P) : Prop where
  flag : s.flag = false
  each : ∀ p, GatherOk r s p
  /-- When all are counted, one of them is about to raise the flag. -/
  full : s.count = Fintype.card P → s.count ≠ 0 → ∃ p, s.stage p = .last
  unique : AtMostOne .last s

structure Releasing {P : Type u} (r : Nat) (s : State P) : Prop where
  flag : s.flag = true
  each : ∀ p, ReleaseOk r s p
  /-- When nobody is counted, one process is about to lower the flag. -/
  empty : s.count = 0 → ∃ p, s.stage p = .final
  unique : AtMostOne .final s

structure Inv (s : State P) : Prop where
  count : s.count = s.inside.card
  phase : ∃ r, Gathering r s ∨ Releasing r s

variable {s t : State P} {p q : P} {r : Nat}

theorem mem_inside : p ∈ s.inside ↔ (s.stage p).counted = true := by
  simp [State.inside]

theorem GatherOk.congr (h : GatherOk r s q) (hstage : t.stage q = s.stage q)
    (hentered : t.entered q = s.entered q) (hcompleted : t.completed q = s.completed q)
    (hcount : s.stage q = .last → t.count = s.count) : GatherOk r t q := by
  unfold GatherOk at h ⊢
  rw [hstage, hentered, hcompleted]
  cases hq : s.stage q <;> simp_all

omit [Fintype P] in
theorem ReleaseOk.congr (h : ReleaseOk r s q) (hstage : t.stage q = s.stage q)
    (hentered : t.entered q = s.entered q) (hcompleted : t.completed q = s.completed q)
    (hcount : s.stage q = .final → t.count = s.count) : ReleaseOk r t q := by
  unfold ReleaseOk at h ⊢
  rw [hstage, hentered, hcompleted]
  cases hq : s.stage q <;> simp_all

/-- What a process can be doing after a move of `p`, if only `p` has changed. -/
theorem gatherOk_each (hg : ∀ q, GatherOk r s q) (hp : GatherOk r t p)
    (hstage : ∀ q, q ≠ p → t.stage q = s.stage q)
    (hentered : ∀ q, q ≠ p → t.entered q = s.entered q)
    (hcompleted : ∀ q, q ≠ p → t.completed q = s.completed q)
    (hcount : ∀ q, s.stage q = .last → t.count = s.count) (q : P) : GatherOk r t q := by
  by_cases hq : q = p
  · rw [hq]
    exact hp
  · exact (hg q).congr (hstage q hq) (hentered q hq) (hcompleted q hq) (hcount q)

omit [Fintype P] in
theorem releaseOk_each (hr : ∀ q, ReleaseOk r s q) (hp : ReleaseOk r t p)
    (hstage : ∀ q, q ≠ p → t.stage q = s.stage q)
    (hentered : ∀ q, q ≠ p → t.entered q = s.entered q)
    (hcompleted : ∀ q, q ≠ p → t.completed q = s.completed q)
    (hcount : ∀ q, s.stage q = .final → t.count = s.count) (q : P) : ReleaseOk r t q := by
  by_cases hq : q = p
  · rw [hq]
    exact hp
  · exact (hr q).congr (hstage q hq) (hentered q hq) (hcompleted q hq) (hcount q)

namespace Inv

theorem count_le (h : Inv s) : s.count ≤ Fintype.card P := by
  rw [h.count]
  exact Finset.card_le_univ _

theorem count_pos (h : Inv s) (hp : (s.stage p).counted = true) : 0 < s.count := by
  rw [h.count]
  exact Finset.card_pos.2 ⟨p, mem_inside.2 hp⟩

theorem counted_of_full (h : Inv s) (hfull : s.count = Fintype.card P) (p : P) :
    (s.stage p).counted = true := by
  -- a set of processes as large as their type is the set of all
  have huniv : s.inside = Finset.univ := Finset.eq_univ_of_card _ (h.count.symm.trans hfull)
  rw [← mem_inside, huniv]
  exact Finset.mem_univ p

theorem not_full (h : Inv s) (hp : (s.stage p).counted = false) : s.count ≠ Fintype.card P := by
  intro hfull
  rw [h.counted_of_full hfull p] at hp
  cases hp

theorem not_counted_of_zero (h : Inv s) (hzero : s.count = 0) (p : P) :
    (s.stage p).counted = false := by
  by_contra hp
  have hpos := h.count_pos (p := p) (by simpa using hp)
  omega

theorem exists_counted (h : Inv s) (hpos : s.count ≠ 0) : ∃ p, (s.stage p).counted = true := by
  have hne : s.inside.Nonempty := by
    rw [← Finset.card_pos, ← h.count]
    omega
  rcases hne with ⟨p, hp⟩
  exact ⟨p, mem_inside.1 hp⟩

theorem exists_uncounted (h : Inv s) (hless : s.count ≠ Fintype.card P) :
    ∃ p, (s.stage p).counted = false := by
  by_contra hall
  apply hless
  have huniv : s.inside = Finset.univ := by
    refine Finset.eq_univ_of_forall ?_
    intro p
    rw [mem_inside]
    by_contra hp
    exact hall ⟨p, by simpa using hp⟩
  rw [h.count, huniv, Finset.card_univ]

theorem fresh (h : Fresh s) : Inv s := by
  have hinside : s.inside = ∅ := by
    ext p
    simp [mem_inside, h.stage, Stage.counted]
  -- a fresh state gathers for round 0
  refine ⟨by rw [h.count, hinside, Finset.card_empty], 0, Or.inl ⟨h.flag, ?_, ?_, ?_⟩⟩
  · intro p
    simp [GatherOk, h.stage, h.entered, h.completed]
  · intro _ hne
    exact absurd h.count hne
  · intro p q hp
    simp [h.stage] at hp

end Inv

/-- Nobody is about to raise the flag while somebody is missing. -/
theorem Gathering.not_last (hg : Gathering r s) (hi : Inv s) (hp : (s.stage p).counted = false)
    (q : P) : s.stage q ≠ .last := by
  intro hq
  -- a process at `last` has seen the counter full, and it still is
  have hok := hg.each q
  simp only [GatherOk, hq] at hok
  exact hi.not_full hp hok.2.2

/-- Nobody is about to lower the flag while somebody is counted. -/
theorem Releasing.not_final (hr : Releasing r s) (hi : Inv s) (hp : (s.stage p).counted = true)
    (q : P) : s.stage q ≠ .final := by
  intro hq
  -- a process at `final` has seen the counter at 0, and it still is
  have hok := hr.each q
  simp only [ReleaseOk, hq] at hok
  have hpos := hi.count_pos hp
  omega

end Invariant

/-! ## Every move keeps the invariant -/

section Step

variable {P : Type u} [Fintype P] [DecidableEq P] {s t : State P} {p q : P} {x : Stage} {r : Nat}

theorem card_inside_put_same (h : x.counted = (s.stage p).counted) :
    (s.put p x).inside.card = s.inside.card := by
  have hsame : (s.put p x).inside = s.inside := by
    ext q
    rw [mem_inside, mem_inside]
    by_cases hq : q = p
    · rw [hq, put_self, h]
    · rw [put_ne hq]
  rw [hsame]

theorem card_inside_put_counted (hp : (s.stage p).counted = false) (hx : x.counted = true) :
    (s.put p x).inside.card = s.inside.card + 1 := by
  have hinsert : (s.put p x).inside = insert p s.inside := by
    ext q
    rw [Finset.mem_insert, mem_inside, mem_inside]
    by_cases hq : q = p
    · simp [hq, hx]
    · simp [put_ne hq, hq]
  rw [hinsert, Finset.card_insert_of_notMem]
  simp [mem_inside, hp]

theorem card_inside_put_uncounted (hp : (s.stage p).counted = true) (hx : x.counted = false) :
    (s.put p x).inside.card = s.inside.card - 1 := by
  have herase : (s.put p x).inside = s.inside.erase p := by
    ext q
    rw [Finset.mem_erase, mem_inside, mem_inside]
    by_cases hq : q = p
    · simp [hq, hx]
    · simp [put_ne hq, hq]
  rw [herase, Finset.card_erase_of_mem (mem_inside.2 hp)]

/-- The counter is right after every move. -/
theorem Inv.count_move (h : Inv s) (hm : Move s p t) : t.count = t.inside.card := by
  -- increment and decrement go with a change of `inside`, the other moves stay within a side
  cases hm with
  | pass hp hflag =>
      exact h.count.trans (card_inside_put_same (by rw [hp]; rfl)).symm
  | arrive hp hcount =>
      calc
        s.count + 1 = s.inside.card + 1 := by rw [h.count]
        _ = (s.put p .held).inside.card :=
          (card_inside_put_counted (by rw [hp]; rfl) rfl).symm
  | arriveLast hp hcount =>
      calc
        s.count + 1 = s.inside.card + 1 := by rw [h.count]
        _ = (s.put p .last).inside.card :=
          (card_inside_put_counted (by rw [hp]; rfl) rfl).symm
  | raise hp => exact h.count.trans (card_inside_put_same (by rw [hp]; rfl)).symm
  | see hp hflag => exact h.count.trans (card_inside_put_same (by rw [hp]; rfl)).symm
  | leave hp hcount =>
      calc
        s.count - 1 = s.inside.card - 1 := by rw [h.count]
        _ = (s.put p .done).inside.card :=
          (card_inside_put_uncounted (by rw [hp]; rfl) rfl).symm
  | leaveLast hp hcount =>
      calc
        s.count - 1 = s.inside.card - 1 := by rw [h.count]
        _ = (s.put p .final).inside.card :=
          (card_inside_put_uncounted (by rw [hp]; rfl) rfl).symm
  | lower hp => exact h.count.trans (card_inside_put_same (by rw [hp]; rfl)).symm
  | ret hp => exact h.count.trans (card_inside_put_same (by rw [hp]; rfl)).symm

theorem Gathering.raise (hg : Gathering r s) (hi : Inv s) (hp : s.stage p = .last) :
    Releasing r { s.put p .held with flag := true } := by
  have hok := hg.each p
  simp only [GatherOk, hp] at hok
  rcases hok with ⟨hentered, hcompleted, hfull⟩
  -- everybody is counted, and nobody but `p` is about to raise the flag
  have hheld : ∀ q, q ≠ p → s.stage q = .held := by
    intro q hq
    have hcounted := hi.counted_of_full hfull q
    have hqok := hg.each q
    cases hstage : s.stage q with
    | held => rfl
    | last => exact absurd (hg.unique q p hstage hp) hq
    | go => simp only [GatherOk, hstage] at hqok
    | out => simp [hstage, Stage.counted] at hcounted
    | ready => simp [hstage, Stage.counted] at hcounted
    | final => simp [hstage, Stage.counted] at hcounted
    | done => simp [hstage, Stage.counted] at hcounted
  refine ⟨rfl, ?_, ?_, ?_⟩
  · intro q
    by_cases hq : q = p
    · subst hq
      simp only [ReleaseOk, put_self]
      exact ⟨hentered, hcompleted⟩
    · have hqok := hg.each q
      simp only [GatherOk, hheld q hq] at hqok
      simp only [ReleaseOk, put_ne hq, hheld q hq]
      exact hqok
  · -- the flag goes up on a full counter, which is not 0 as `p` is counted
    intro hzero
    have hpos := hi.count_pos (p := p) (by rw [hp]; rfl)
    exact absurd hzero (Nat.ne_of_gt hpos)
  · -- whoever is held cannot have left, so nobody is at `final`
    have hnone : ∀ q, (s.put p .held).stage q ≠ .final := by
      intro q
      by_cases hq : q = p
      · simp [hq]
      · simp [put_ne hq, hheld q hq]
    exact fun q _ hq => absurd hq (hnone q)

theorem Releasing.lower (hr : Releasing r s) (hi : Inv s) (hp : s.stage p = .final) :
    Gathering (r + 1) { s.put p .done with flag := false } := by
  have hok := hr.each p
  simp only [ReleaseOk, hp] at hok
  rcases hok with ⟨hentered, hcompleted, hzero⟩
  -- nobody is counted, and nobody but `p` is about to lower the flag
  have hout : ∀ q, q ≠ p → s.stage q = .out ∨ s.stage q = .done := by
    intro q hq
    have hcounted := hi.not_counted_of_zero hzero q
    have hqok := hr.each q
    cases hstage : s.stage q with
    | out => exact Or.inl rfl
    | done => exact Or.inr rfl
    | final => exact absurd (hr.unique q p hstage hp) hq
    | ready => simp only [ReleaseOk, hstage] at hqok
    | last => simp [hstage, Stage.counted] at hcounted
    | held => simp [hstage, Stage.counted] at hcounted
    | go => simp [hstage, Stage.counted] at hcounted
  refine ⟨rfl, ?_, ?_, ?_⟩
  · intro q
    by_cases hq : q = p
    · subst hq
      simp only [GatherOk, put_self]
      exact ⟨hentered, congrArg Nat.succ hcompleted⟩
    · have hqok := hr.each q
      rcases hout q hq with hstage | hstage
      · simp only [ReleaseOk, hstage] at hqok
        simp only [GatherOk, put_ne hq, hstage]
        exact hqok
      · simp only [ReleaseOk, hstage] at hqok
        simp only [GatherOk, put_ne hq, hstage]
        exact ⟨hqok.1, congrArg Nat.succ hqok.2⟩
  · -- the flag goes down on an empty counter
    intro _ hne
    exact absurd hzero hne
  · -- nobody has entered the new round, so nobody is at `last`
    have hnone : ∀ q, (s.put p .done).stage q ≠ .last := by
      intro q
      by_cases hq : q = p
      · simp [hq]
      · rcases hout q hq with hstage | hstage <;> simp [put_ne hq, hstage]
    exact fun q _ hq => absurd hq (hnone q)

theorem Gathering.move (hg : Gathering r s) (hi : Inv s) (hm : Move s p t) :
    ∃ r, Gathering r t ∨ Releasing r t := by
  have hok := hg.each p
  -- the stages that go with the other phase are ruled out by `GatherOk`
  cases hm with
  | pass hp hflag =>
      simp only [GatherOk, hp] at hok
      refine ⟨r, Or.inl ⟨hg.flag, ?_, ?_, atMostOne_put hg.unique (by decide)⟩⟩
      · refine gatherOk_each hg.each ?_ (fun _ => put_ne) (fun _ _ => rfl) (fun _ _ => rfl)
          fun _ _ => rfl
        simpa [GatherOk] using hok
      · intro hfull hne
        exact exists_put (hg.full hfull hne) (by rw [hp]; decide)
  | arrive hp hcount =>
      simp only [GatherOk, hp] at hok
      -- `p` was not counted, so the counter was not full
      have hnot := hg.not_last hi (p := p) (by rw [hp]; rfl)
      refine ⟨r, Or.inl ⟨hg.flag, ?_, ?_, atMostOne_put hg.unique (by decide)⟩⟩
      · refine gatherOk_each hg.each ?_ (fun _ => put_ne) (fun _ hq => Function.update_of_ne hq _ _)
          (fun _ _ => rfl) fun q hlast => absurd hlast (hnot q)
        simp [GatherOk, State.enter, hok]
      · intro hfull _
        exact absurd hfull hcount
  | arriveLast hp hcount =>
      simp only [GatherOk, hp] at hok
      -- before this increment somebody was missing, so nobody else is the last
      have hnot := hg.not_last hi (p := p) (by rw [hp]; rfl)
      refine ⟨r, Or.inl ⟨hg.flag, ?_, ?_, atMostOne_put_new hnot⟩⟩
      · refine gatherOk_each hg.each ?_ (fun _ => put_ne) (fun _ hq => Function.update_of_ne hq _ _)
          (fun _ _ => rfl) fun q hlast => absurd hlast (hnot q)
        simp [GatherOk, State.enter, hok, hcount]
      · intro _ _
        exact ⟨p, put_self⟩
  | raise hp => exact ⟨r, Or.inr (hg.raise hi hp)⟩
  | see hp hflag =>
      rw [hg.flag] at hflag
      cases hflag
  | leave hp hcount => simp only [GatherOk, hp] at hok
  | leaveLast hp hcount => simp only [GatherOk, hp] at hok
  | lower hp => simp only [GatherOk, hp] at hok
  | ret hp =>
      simp only [GatherOk, hp] at hok
      refine ⟨r, Or.inl ⟨hg.flag, ?_, ?_, atMostOne_put hg.unique (by decide)⟩⟩
      · refine gatherOk_each hg.each ?_ (fun _ => put_ne) (fun _ _ => rfl)
          (fun _ hq => Function.update_of_ne hq _ _) fun _ _ => rfl
        simp [GatherOk, hok]
      · intro hfull hne
        exact exists_put (hg.full hfull hne) (by rw [hp]; decide)

theorem Releasing.move (hr : Releasing r s) (hi : Inv s) (hm : Move s p t) :
    ∃ r, Gathering r t ∨ Releasing r t := by
  have hok := hr.each p
  -- as before, with `ReleaseOk`
  cases hm with
  | pass hp hflag =>
      rw [hr.flag] at hflag
      cases hflag
  | arrive hp hcount => simp only [ReleaseOk, hp] at hok
  | arriveLast hp hcount => simp only [ReleaseOk, hp] at hok
  | raise hp => simp only [ReleaseOk, hp] at hok
  | see hp hflag =>
      simp only [ReleaseOk, hp] at hok
      refine ⟨r, Or.inr ⟨hr.flag, ?_, ?_, atMostOne_put hr.unique (by decide)⟩⟩
      · refine releaseOk_each hr.each ?_ (fun _ => put_ne) (fun _ _ => rfl) (fun _ _ => rfl)
          fun _ _ => rfl
        simpa [ReleaseOk] using hok
      · intro hzero
        exact exists_put (hr.empty hzero) (by rw [hp]; decide)
  | leave hp hcount =>
      simp only [ReleaseOk, hp] at hok
      have hcounted : (s.stage p).counted = true := by rw [hp]; rfl
      have hnot := hr.not_final hi hcounted
      refine ⟨r, Or.inr ⟨hr.flag, ?_, ?_, atMostOne_put hr.unique (by decide)⟩⟩
      · refine releaseOk_each hr.each ?_ (fun _ => put_ne) (fun _ _ => rfl) (fun _ _ => rfl)
          fun q hfinal => absurd hfinal (hnot q)
        simpa [ReleaseOk] using hok
      · intro hzero
        -- the counter was neither 0 nor 1
        have hpos := hi.count_pos hcounted
        change s.count - 1 = 0 at hzero
        omega
  | leaveLast hp hcount =>
      simp only [ReleaseOk, hp] at hok
      -- before this decrement somebody was counted, so nobody else lowers the flag
      have hnot := hr.not_final hi (p := p) (by rw [hp]; rfl)
      refine ⟨r, Or.inr ⟨hr.flag, ?_, ?_, atMostOne_put_new hnot⟩⟩
      · refine releaseOk_each hr.each ?_ (fun _ => put_ne) (fun _ _ => rfl) (fun _ _ => rfl)
          fun q hfinal => absurd hfinal (hnot q)
        simp [ReleaseOk, hok, hcount]
      · intro _
        exact ⟨p, put_self⟩
  | lower hp => exact ⟨r + 1, Or.inl (hr.lower hi hp)⟩
  | ret hp =>
      simp only [ReleaseOk, hp] at hok
      refine ⟨r, Or.inr ⟨hr.flag, ?_, ?_, atMostOne_put hr.unique (by decide)⟩⟩
      · refine releaseOk_each hr.each ?_ (fun _ => put_ne) (fun _ _ => rfl)
          (fun _ hq => Function.update_of_ne hq _ _) fun _ _ => rfl
        simp [ReleaseOk, hok]
      · intro hzero
        exact exists_put (hr.empty hzero) (by rw [hp]; decide)

theorem Inv.move (h : Inv s) (hm : Move s p t) : Inv t := by
  refine ⟨h.count_move hm, ?_⟩
  -- the moves of `last` and `final` switch the phase, all others stay in it
  rcases h.phase with ⟨r, hg | hr⟩
  · exact hg.move h hm
  · exact hr.move h hm

end Step

/-! ## What the invariant says -/

section Consequences

variable {P : Type u} [Fintype P] {s : State P} {p : P} {r : Nat}

/-! ### The round a process is in -/

theorem GatherOk.le_entered (h : GatherOk r s p) : r ≤ s.entered p := by
  unfold GatherOk at h
  cases hstage : s.stage p <;> simp_all

theorem GatherOk.completed_le (h : GatherOk r s p) : s.completed p ≤ r := by
  unfold GatherOk at h
  cases hstage : s.stage p <;> simp_all
  omega

theorem GatherOk.entered_le (h : GatherOk r s p) : s.entered p ≤ s.completed p + 1 := by
  unfold GatherOk at h
  cases hstage : s.stage p <;> simp_all

theorem GatherOk.entered_of_released (h : GatherOk r s p) (hp : (s.stage p).released = true) :
    s.entered p = r := by
  unfold GatherOk at h
  cases hstage : s.stage p <;> simp_all [Stage.released]

omit [Fintype P] in
theorem ReleaseOk.entered_eq (h : ReleaseOk r s p) : s.entered p = r + 1 := by
  unfold ReleaseOk at h
  cases hstage : s.stage p <;> simp_all

omit [Fintype P] in
theorem ReleaseOk.completed_le (h : ReleaseOk r s p) : s.completed p ≤ r + 1 := by
  unfold ReleaseOk at h
  cases hstage : s.stage p <;> simp_all

omit [Fintype P] in
theorem ReleaseOk.entered_le (h : ReleaseOk r s p) : s.entered p ≤ s.completed p + 1 := by
  unfold ReleaseOk at h
  cases hstage : s.stage p <;> simp_all

/-! ### Safety and progress -/

namespace Inv

/-- A process is in one round at a time. -/
theorem entered_le (h : Inv s) (p : P) : s.entered p ≤ s.completed p + 1 := by
  rcases h.phase with ⟨r, hg | hr⟩
  · exact (hg.each p).entered_le
  · exact (hr.each p).entered_le

/-- Nobody gets past its second wait before all have entered the round. -/
theorem entered_le_of_released (h : Inv s) (hp : (s.stage p).released = true) (q : P) :
    s.entered p ≤ s.entered q := by
  rcases h.phase with ⟨r, hg | hr⟩
  · exact ((hg.each p).entered_of_released hp).trans_le (hg.each q).le_entered
  · exact ((hr.each p).entered_eq.trans (hr.each q).entered_eq.symm).le

/-- Nobody leaves a round before all have entered it. -/
theorem completed_le (h : Inv s) (p q : P) : s.completed p ≤ s.entered q := by
  rcases h.phase with ⟨r, hg | hr⟩
  · exact (hg.each p).completed_le.trans (hg.each q).le_entered
  · exact (hr.each p).completed_le.trans (hr.each q).entered_eq.ge

/-- With nobody inside, the counter is 0 and the flag down. -/
theorem reset (h : Inv s) (hout : ∀ p, s.stage p = .out) : s.count = 0 ∧ s.flag = false := by
  -- whoever is counted is inside
  have hzero : s.count = 0 := by
    by_contra hne
    rcases h.exists_counted hne with ⟨p, hp⟩
    rw [hout p] at hp
    cases hp
  refine ⟨hzero, ?_⟩
  rcases h.phase with ⟨r, hg | hr⟩
  · exact hg.flag
  · rcases hr.empty hzero with ⟨p, hp⟩
    rw [hout p] at hp
    cases hp

/-- While the flag is up, some process inside can make its next move. -/
theorem exists_releasing (h : Inv s) (hflag : s.flag = true) :
    ∃ p, s.stage p = .held ∨ s.stage p = .go ∨ s.stage p = .final := by
  rcases h.phase with ⟨r, hg | hr⟩
  · rw [hg.flag] at hflag
    cases hflag
  · -- the counter at 0 has a process that lowers the flag; above 0 somebody is counted
    by_cases hzero : s.count = 0
    · rcases hr.empty hzero with ⟨p, hp⟩
      exact ⟨p, Or.inr (Or.inr hp)⟩
    · rcases h.exists_counted hzero with ⟨p, hp⟩
      have hok := hr.each p
      refine ⟨p, ?_⟩
      cases hstage : s.stage p <;> simp_all [Stage.counted, ReleaseOk]

/-- When a process waits for the flag to be up, it is up or about to be raised, or somebody has not
entered the round. -/
theorem exists_gathering (h : Inv s) (hp : s.stage p = .held) (hflag : s.flag = false) :
    (∃ q, s.stage q = .last) ∨
      ∃ q, s.entered q < s.entered p ∧
        (s.stage q = .out ∨ s.stage q = .ready ∨ s.stage q = .done) := by
  rcases h.phase with ⟨r, hg | hr⟩
  · -- the counter full has a process that raises the flag; below that somebody is missing
    by_cases hfull : s.count = Fintype.card P
    · have hpos := h.count_pos (p := p) (by rw [hp]; rfl)
      exact Or.inl (hg.full hfull (by omega))
    · right
      rcases h.exists_uncounted hfull with ⟨q, hq⟩
      have hok := hg.each p
      have hqok := hg.each q
      simp only [GatherOk, hp] at hok
      refine ⟨q, ?_⟩
      cases hstage : s.stage q <;> simp_all [Stage.counted, GatherOk]
  · rw [hr.flag] at hflag
    cases hflag

/-- A waiting process can go on, now or after the next step of another, exactly when all have
entered the round. -/
theorem opened_iff (h : Inv s) (hp : s.stage p = .held) :
    (s.flag = true ∨ ∃ q, s.stage q = .last) ↔ ∀ q, s.entered p ≤ s.entered q := by
  constructor
  · intro hopen q
    rcases h.phase with ⟨r, hg | hr⟩
    · rcases hopen with hflag | ⟨l, hl⟩
      · rw [hg.flag] at hflag
        cases hflag
      · have hlok := hg.each l
        have hok := hg.each p
        have hqok := hg.each q
        simp only [GatherOk, hl] at hlok
        simp only [GatherOk, hp] at hok
        have hcounted := h.counted_of_full hlok.2.2 q
        cases hstage : s.stage q <;> simp_all [Stage.counted, GatherOk]
    · exact ((hr.each p).entered_eq.trans (hr.each q).entered_eq.symm).le
  · -- with the flag down and nobody to raise it, somebody is a round behind `p`
    intro hall
    by_contra hclosed
    have hflag : s.flag = false := by
      by_contra hup
      exact hclosed (Or.inl (by simpa using hup))
    rcases h.exists_gathering hp hflag with hlast | ⟨q, hq, _⟩
    · exact hclosed (Or.inr hlast)
    · exact absurd (hall q) (by omega)

end Inv

end Consequences

end PhaseBarrier
end Lib
end Ssmp
