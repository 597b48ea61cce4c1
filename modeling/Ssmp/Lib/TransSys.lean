import Mathlib

/-!
# TransSys — labelled transition systems

The concurrent programs of this development are labelled transition systems: a predicate for the
initial states and a labelled step relation.  This module fixes

* `TransSys.Reachable` — the states some run leads to,
* `TransSys.Reachable.invariant` — an initial property that every step keeps holds in every
  reachable state,
* `TransSys.Steps` — finite runs, with the labels forgotten,
* `TransSys.Run` — runs of a given length, and what bounds it (`Run.length_le`, `exists_final`),
* `TransSys.Descends` — systems with a well-founded measure that some steps leave as it is: what can
  be reached (`Descends.exists_goal`), and that infinite runs come to rest (`Descends.rests`),
* `TransSys.restrict` — the runs whose steps all meet a condition,
* `neZeroTwo`, `neZeroThree` — the numerals of `Fin 2` and `Fin 3`,
* `mem_of_mem_update`, `mem_update_of_ne` — what is left when one of several processes, each with a
  list of actions to do, has done the first of its list.
-/

namespace Ssmp
namespace Lib

universe u v w

structure TransSys (σ : Type u) (ℓ : Type v) where
  init : σ → Prop
  step : σ → ℓ → σ → Prop

namespace TransSys

variable {σ : Type u} {ℓ : Type v}

/-! ## Reachability and the invariant rule -/

inductive Reachable (T : TransSys σ ℓ) : σ → Prop where
  | init {s : σ} : T.init s → Reachable T s
  | step {s t : σ} {l : ℓ} : Reachable T s → T.step s l t → Reachable T t

/-- An initial property that every step keeps is true of every reachable state. -/
theorem Reachable.invariant {T : TransSys σ ℓ} {I : σ → Prop}
    (hinit : ∀ s, T.init s → I s) (hstep : ∀ s l t, I s → T.step s l t → I t)
    {s : σ} (h : T.Reachable s) : I s := by
  induction h with
  | init h0 => exact hinit _ h0
  | step _ hst ih => exact hstep _ _ _ ih hst

/-! ## Runs -/

/-- `T.Steps s t`: some finite run leads from `s` to `t`. -/
def Steps (T : TransSys σ ℓ) : σ → σ → Prop :=
  Relation.ReflTransGen fun s t => ∃ l, T.step s l t

theorem Reachable.steps {T : TransSys σ ℓ} {s t : σ} (h : T.Reachable s) (hst : T.Steps s t) :
    T.Reachable t := by
  induction hst with
  | refl => exact h
  | tail _ hlast ih =>
      rcases hlast with ⟨l, hl⟩
      exact Reachable.step ih hl

theorem Steps.single {T : TransSys σ ℓ} {s t : σ} {l : ℓ} (h : T.step s l t) : T.Steps s t :=
  Relation.ReflTransGen.single ⟨l, h⟩

/-! ## Runs of a given length -/

/-- `T.Run k s t`: a run of `k` steps leads from `s` to `t`. -/
inductive Run (T : TransSys σ ℓ) : Nat → σ → σ → Prop where
  | nil {s : σ} : Run T 0 s s
  | cons {k : Nat} {s t u : σ} {l : ℓ} (hst : T.step s l t) (hrun : Run T k t u) : Run T (k + 1) s u

/-- No step leads from `s`. -/
def Final (T : TransSys σ ℓ) (s : σ) : Prop :=
  ∀ l t, ¬ T.step s l t

section Measure

variable {T : TransSys σ ℓ} {μ : σ → Nat} {s t : σ} {k : Nat}

/-- If every step lowers `μ`, runs are not longer than `μ` is at first. -/
theorem Run.length_le (hdec : ∀ s l t, T.Reachable s → T.step s l t → μ t < μ s)
    (hs : T.Reachable s) (h : T.Run k s t) : k + μ t ≤ μ s := by
  induction h with
  | nil => omega
  | cons hst _ ih =>
      have hfirst := hdec _ _ _ hs hst
      have hrest := ih (Reachable.step hs hst)
      omega

/-- Then every run can be continued to a state from which no step leads. -/
theorem exists_final (hdec : ∀ s l t, T.Reachable s → T.step s l t → μ t < μ s)
    (hs : T.Reachable s) : ∃ t, T.Steps s t ∧ T.Final t := by
  induction hμ : μ s using Nat.strong_induction_on generalizing s with
  | _ m ih =>
      by_cases hfinal : T.Final s
      · exact ⟨s, Relation.ReflTransGen.refl, hfinal⟩
      · simp only [Final, not_forall, not_not] at hfinal
        rcases hfinal with ⟨l, t, hst⟩
        rcases ih (μ t) (hμ ▸ hdec s l t hs hst) (Reachable.step hs hst) rfl with ⟨u, hu, hfin⟩
        exact ⟨u, Relation.ReflTransGen.head ⟨l, hst⟩ hu, hfin⟩

end Measure

section Descent

variable {T : TransSys σ ℓ} {α : Type w} [LT α] {same : σ → σ → Prop} {R : σ → α → Prop}
variable {s : σ} {m : α}

/-- A state has measures (`R`), and a step leads to a state that is as good as the same and has all of
them, or to one that has a lower one. -/
structure Descends (T : TransSys σ ℓ) (same : σ → σ → Prop) (R : σ → α → Prop) : Prop where
  refl : ∀ s, same s s
  trans : ∀ {s t u}, same s t → same t u → same s u
  step : ∀ {s m l t}, R s m → T.step s l t → same s t ∧ R t m ∨ ∃ m', m' < m ∧ R t m'

variable [WellFoundedLT α]

/-- If no state but a goal is left for ever as good as the same, a goal can be reached. -/
theorem Descends.exists_goal (hd : Descends T same R) {goal : σ → Prop}
    (hgoal : ∀ s m, R s m → goal s ∨ ∃ t, T.Steps s t ∧ ¬ same s t) (h : R s m) :
    ∃ t, T.Steps s t ∧ goal t := by
  induction m using WellFoundedLT.induction generalizing s with
  | _ m ih =>
      rcases hgoal s m h with hs | ⟨u, hu, hne⟩
      · exact ⟨s, Relation.ReflTransGen.refl, hs⟩
      -- along the steps to `u` there is one that lowers the measure
      have hwalk : ∀ r, T.Steps r u → R r m → same s r → ∃ t, T.Steps r t ∧ goal t := by
        intro r hr
        induction hr using Relation.ReflTransGen.head_induction_on with
        | refl => exact fun _ hsame => absurd hsame hne
        | @head r v hst _ ihr =>
            intro hm hsame
            rcases hst with ⟨l, hst⟩
            have hgo : ∃ t, T.Steps v t ∧ goal t := by
              rcases hd.step hm hst with ⟨hsame', hm'⟩ | ⟨m', hlt, hm'⟩
              · exact ihr hm' (hd.trans hsame hsame')
              · exact ih m' hlt hm'
            rcases hgo with ⟨t, ht, hgoal'⟩
            exact ⟨t, Relation.ReflTransGen.head ⟨l, hst⟩ ht, hgoal'⟩
      exact hwalk s hu h (hd.refl s)

/-- From some point on, all states of an infinite run are as good as the same. -/
theorem Descends.rests (hd : Descends T same R) {f : Nat → σ} {l : Nat → ℓ}
    (hrun : ∀ k, T.step (f k) (l k) (f (k + 1))) (h : R (f 0) m) :
    ∃ k m', ∀ j, same (f k) (f (k + j)) ∧ R (f (k + j)) m' := by
  induction m using WellFoundedLT.induction generalizing f l with
  | _ m ih =>
      by_cases hall : ∀ j, same (f 0) (f j) ∧ R (f j) m
      · exact ⟨0, m, fun j => by rw [Nat.zero_add]; exact hall j⟩
      -- the first state that is not: the step to it has lowered the measure
      classical
      have hex : ∃ j, ¬ (same (f 0) (f j) ∧ R (f j) m) := not_forall.1 hall
      have hspec := Nat.find_spec hex
      have hmin := fun j hj => Nat.find_min hex (m := j) hj
      generalize Nat.find hex = j at hspec hmin
      cases j with
      | zero => exact absurd ⟨hd.refl _, h⟩ hspec
      | succ j =>
          rcases not_not.1 (hmin j (Nat.lt_succ_self j)) with ⟨hsame, hm⟩
          rcases hd.step hm (hrun j) with ⟨hsame', hm'⟩ | ⟨m', hlt, hm'⟩
          · exact absurd ⟨hd.trans hsame hsame', hm'⟩ hspec
          · have hrun' : ∀ k, T.step (f (j + 1 + k)) (l (j + 1 + k)) (f (j + 1 + (k + 1))) :=
              fun k => hrun (j + 1 + k)
            rcases ih m' hlt (f := fun k => f (j + 1 + k)) (l := fun k => l (j + 1 + k)) hrun' hm' with
              ⟨k, m'', hrest⟩
            refine ⟨j + 1 + k, m'', ?_⟩
            intro i
            have hi := hrest i
            rw [← Nat.add_assoc] at hi
            exact hi

end Descent

/-! ## Restricted runs -/

/-- The runs whose steps all meet the condition `P`, on the state before the step and the label. -/
def restrict (T : TransSys σ ℓ) (P : σ → ℓ → Prop) : TransSys σ ℓ where
  init := T.init
  step s l t := T.step s l t ∧ P s l

theorem Reachable.of_restrict {T : TransSys σ ℓ} {P : σ → ℓ → Prop} {s : σ}
    (h : (T.restrict P).Reachable s) : T.Reachable s := by
  induction h with
  | init h0 => exact Reachable.init h0
  | step _ hst ih => exact Reachable.step ih hst.1

/-- Every run is one of them if every step of a run meets the condition. -/
theorem Reachable.restrict {T : TransSys σ ℓ} {P : σ → ℓ → Prop} {s : σ} (h : T.Reachable s)
    (hP : ∀ s l t, T.Reachable s → T.step s l t → P s l) : (T.restrict P).Reachable s := by
  induction h with
  | init h0 => exact Reachable.init h0
  | step hr hst ih => exact Reachable.step ih ⟨hst, hP _ _ _ hr hst⟩

end TransSys

/-! ## Systems of two and three processes -/

instance neZeroTwo : NeZero 2 := ⟨by decide⟩

instance neZeroThree : NeZero 3 := ⟨by decide⟩

/-! ## Lists of actions -/

section Lists

variable {ι : Type u} [DecidableEq ι] {α : Type v} {code : ι → List α} {i j : ι} {a x : α}
variable {rest : List α}

/-- What is left after the head is gone was left before. -/
theorem mem_of_mem_update (hcode : code i = a :: rest) (hx : x ∈ Function.update code i rest j) :
    x ∈ code j := by
  by_cases hj : j = i
  · subst hj
    simp only [Function.update_self] at hx
    simp [hcode, hx]
  · simpa [hj] using hx

/-- An action other than the head is still left. -/
theorem mem_update_of_ne (hcode : code i = a :: rest) (hx : x ∈ code j) (hne : x ≠ a) :
    x ∈ Function.update code i rest j := by
  by_cases hj : j = i
  · subst hj
    rw [hcode] at hx
    simpa [hne] using hx
  · simpa [hj] using hx

end Lists

end Lib
end Ssmp
