import Mathlib.Data.Finset.Card

/-!
# GroupBarrier — a barrier that releases its waiters in groups

The barrier knows the size of a group and nothing else: who arrives waits, until a group is full.

* `Inv` — the members arrive in rounds, as long as nobody else arrives and nobody arrives who is
  still waiting,
* `Inv.exists_missing` — a process waits only for a member that has not come,
* `Inv.all_arrived` — a process that is let go has waited for all members.
-/

namespace Ssmp
namespace Lib
namespace GroupBarrier

universe u

/-- Who waits, in order of arrival, and the number of arrivals of each process. -/
@[ext]
structure State (P : Type u) where
  waiting : List P
  arrivals : P → Nat

section Group

variable {P : Type u} [DecidableEq P]

/-- `p` arrives; a group of `k` is let go. -/
def State.arrive (s : State P) (k : Nat) (p : P) : State P where
  waiting := if (s.waiting ++ [p]).length = k then [] else s.waiting ++ [p]
  arrivals := Function.update s.arrivals p (s.arrivals p + 1)

/-- The members `S` have each arrived `r` times, those that wait once more. -/
structure Inv (S : Finset P) (s : State P) : Prop where
  nodup : s.waiting.Nodup
  member : ∀ p ∈ s.waiting, p ∈ S
  short : s.waiting = [] ∨ s.waiting.length < S.card
  rounds : ∃ r, ∀ p ∈ S, s.arrivals p = r + if p ∈ s.waiting then 1 else 0

variable {S : Finset P} {s : State P} {p : P}

theorem Inv.fresh (hwaiting : s.waiting = []) (harrivals : ∀ p, s.arrivals p = 0) : Inv S s := by
  refine ⟨?_, ?_, Or.inl hwaiting, 0, ?_⟩
  · simp [hwaiting]
  · simp [hwaiting]
  · intro p _
    simp [hwaiting, harrivals]

/-- A group as large as the set of members has all of them. -/
theorem mem_of_full {group : List P} (hnodup : group.Nodup) (hmember : ∀ p ∈ group, p ∈ S)
    (hfull : group.length = S.card) (hp : p ∈ S) : p ∈ group := by
  have hsub : group.toFinset ⊆ S := by
    intro q hq
    exact hmember q (List.mem_toFinset.1 hq)
  have hcard : S.card ≤ group.toFinset.card := by
    simp [List.toFinset_card_of_nodup hnodup, hfull]
  have heq : group.toFinset = S := Finset.eq_of_subset_of_card_le hsub hcard
  exact List.mem_toFinset.1 (heq ▸ hp)

namespace Inv

theorem arrive (h : Inv S s) (hp : p ∈ S) (hnew : p ∉ s.waiting) :
    Inv S (s.arrive S.card p) := by
  rcases h.rounds with ⟨r, hr⟩
  have hnodup : (s.waiting ++ [p]).Nodup := by
    simpa [List.nodup_append, h.nodup] using fun q hq (heq : q = p) => hnew (heq ▸ hq)
  have hmember : ∀ q ∈ s.waiting ++ [p], q ∈ S := by
    intro q hq
    rcases List.mem_append.1 hq with hold | hone
    · exact h.member q hold
    · simpa [List.mem_singleton.1 hone] using hp
  -- after the arrival `p` is counted as the others of its group are
  have hcounted : ∀ q ∈ S, (s.arrive S.card p).arrivals q =
      r + if q ∈ s.waiting ++ [p] then 1 else 0 := by
    intro q hq
    by_cases hqp : q = p
    · subst hqp
      simp [State.arrive, hr q hq, hnew]
    · simp [State.arrive, hr q hq, hqp]
  by_cases hfull : (s.waiting ++ [p]).length = S.card
  · -- the group is full: all members are in it, and the next round begins
    have hwaiting : (s.arrive S.card p).waiting = [] := if_pos hfull
    refine ⟨by simp [hwaiting], by simp [hwaiting], Or.inl hwaiting, r + 1, ?_⟩
    intro q hq
    simp [hcounted q hq, mem_of_full hnodup hmember hfull hq, hwaiting]
  · have hwaiting : (s.arrive S.card p).waiting = s.waiting ++ [p] := if_neg hfull
    have hle : (s.waiting ++ [p]).length ≤ S.card := by
      rw [← List.toFinset_card_of_nodup hnodup]
      exact Finset.card_le_card fun q hq => hmember q (List.mem_toFinset.1 hq)
    refine ⟨by rwa [hwaiting], by rwa [hwaiting], Or.inr ?_, r, ?_⟩
    · rw [hwaiting]
      exact Nat.lt_of_le_of_ne hle hfull
    · rwa [hwaiting]

/-- A process that waits has arrived more often than some member. -/
theorem exists_missing (h : Inv S s) (hp : p ∈ s.waiting) :
    ∃ q ∈ S, s.arrivals q < s.arrivals p := by
  rcases h.rounds with ⟨r, hr⟩
  rcases h.short with hnil | hshort
  · simp [hnil] at hp
  · -- a group that is not full lacks a member
    have hmissing : ∃ q ∈ S, q ∉ s.waiting := by
      by_contra hall
      push Not at hall
      have hsub : S ⊆ s.waiting.toFinset := fun q hq => List.mem_toFinset.2 (hall q hq)
      have hcard := Finset.card_le_card hsub
      rw [List.toFinset_card_of_nodup h.nodup] at hcard
      exact absurd hshort (Nat.not_lt.2 hcard)
    rcases hmissing with ⟨q, hq, hout⟩
    refine ⟨q, hq, ?_⟩
    simp [hr q hq, hr p (h.member p hp), hout, hp]

/-- A member that does not wait has not arrived more often than any other. -/
theorem all_arrived (h : Inv S s) (hp : p ∈ S) (hout : p ∉ s.waiting) :
    ∀ q ∈ S, s.arrivals p ≤ s.arrivals q := by
  rcases h.rounds with ⟨r, hr⟩
  intro q hq
  simp [hr p hp, hr q hq, hout]

end Inv

end Group

end GroupBarrier
end Lib
end Ssmp
