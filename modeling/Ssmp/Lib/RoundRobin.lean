import Mathlib.Data.List.Infix

/-!
# RoundRobin — cyclic scans that share a cursor

Several lists are scanned in turn, each scan from where the last one stopped: it passes the entries
from the cursor on, starts over behind the end, and leaves the cursor one behind the entry it stops
at.  With one list this is round robin: an entry at which every scan would stop is overtaken by each
other entry at most once.  With several lists a scan of one may move the cursor backwards for
another.  This module says what the scans of a list cost an entry of another (`Ranks`) and which
lists cost it nothing (`Harmless`).
-/

namespace Ssmp
namespace Lib
namespace RoundRobin

universe u

/-- How many entries a scan of `size` entries passes from cursor `c` to position `k`. -/
def turns (size k c : Nat) : Nat :=
  if c ≤ k then k - c else if c < size then size - c + k else k

/-- The cursor after a scan of `size` entries has stopped at `c`. -/
def next (size c : Nat) : Nat :=
  if c + 1 = size then 0 else c + 1

section Turns

variable {size k c : Nat}

theorem turns_lt (hk : k < size) : turns size k c < size := by
  unfold turns
  split
  · omega
  · split <;> omega

@[simp] theorem turns_zero : turns size k 0 = k := by
  simp [turns]

theorem turns_of_le (hk : k < size) (hc : size ≤ c) : turns size k c = k := by
  unfold turns
  split
  · omega
  · split <;> omega

theorem turns_succ_lt (hk : k < size) (hc : c < size) (hne : c ≠ k) :
    turns size k (c + 1) < turns size k c := by
  unfold turns
  split
  · split <;> omega
  · split
    · split <;> omega
    · split <;> omega

/-- Past an entry other than the one at `k` a scan is no farther from it. -/
theorem turns_succ_le (hk : k < size) (hne : c ≠ k) : turns size k (c + 1) ≤ turns size k c := by
  by_cases hc : c < size
  · exact Nat.le_of_lt (turns_succ_lt hk hc hne)
  · rw [turns_of_le hk (by omega), turns_of_le hk (by omega)]

end Turns

section Ranks

variable {α : Type u} {C X : List α} {p : α} {k c : Nat}

/-- `rank` bounds what a scan of `X` that does not stop at `p` leaves of the distance `d`: it does
not grow on the way, and the scan leaves less. -/
structure Ranks (d : Nat → Nat) (p : α) (X : List α) (rank : Nat → Nat) : Prop where
  miss : ∀ c, c < X.length → X[c]? ≠ some p → rank (c + 1) ≤ rank c
  wrap : ∀ c, X.length ≤ c → rank 0 ≤ rank c
  stop : ∀ c, c < X.length → X[c]? ≠ some p → d (next X.length c) < rank c

/-- Scans of the list itself come closer to each of its entries. -/
theorem ranks_self (hk : C[k]? = some p) :
    Ranks (turns C.length k) p C (turns C.length k) := by
  have hlt : k < C.length := (List.getElem?_eq_some_iff.1 hk).1
  have hne : ∀ c, C[c]? ≠ some p → c ≠ k := by
    rintro c hc rfl
    exact hc hk
  refine ⟨?_, ?_, ?_⟩
  · intro c _ hc
    exact turns_succ_le hlt (hne c hc)
  · intro c hc
    rw [turns_zero, turns_of_le hlt hc]
  · intro c hc hcp
    have hdown := turns_succ_lt hlt hc (hne c hcp)
    unfold next
    split
    · -- behind the end the scan is as far as at the beginning
      rename_i hend
      rw [turns_zero]
      rwa [hend, turns_of_le hlt (Nat.le_refl _)] at hdown
    · exact hdown

/-- Scans of a list that begins with `C` do not move away from the entries of `C`. -/
theorem ranks_prefix (hk : C[k]? = some p) (hX : C <+: X) :
    Ranks (turns C.length k) p X fun c => turns C.length k c + 1 := by
  have hlt : k < C.length := (List.getElem?_eq_some_iff.1 hk).1
  have hXk : X[k]? = some p := by
    rw [List.prefix_iff_getElem?.1 hX k hlt, ← List.getElem?_eq_getElem hlt, hk]
  have hlen : C.length ≤ X.length := hX.length_le
  have hne : ∀ c, X[c]? ≠ some p → c ≠ k := by
    rintro c hc rfl
    exact hc hXk
  refine ⟨?_, ?_, ?_⟩
  · intro c _ hc
    exact Nat.succ_le_succ (turns_succ_le hlt (hne c hc))
  · intro c hc
    rw [turns_zero, turns_of_le hlt (Nat.le_trans hlen hc)]
  · intro c _ hcp
    have hdown := turns_succ_le hlt (hne c hcp)
    unfold next
    split
    · rename_i hend
      rw [turns_zero]
      rw [hend, turns_of_le hlt hlen] at hdown
      exact Nat.lt_succ_of_le hdown
    · exact Nat.lt_succ_of_le hdown

/-- A list whose scans keep the distance at 0. -/
theorem ranks_zero {d : Nat → Nat}
    (h : ∀ c, c < X.length → X[c]? ≠ some p → d (next X.length c) = 0) :
    Ranks d p X fun _ => 1 where
  miss _ _ _ := Nat.le_refl _
  wrap _ _ := Nat.le_refl _
  stop c hc hcp := by simp [h c hc hcp]

/-- The lists whose scans cost the entries of `C` nothing. -/
def Harmless (C X : List α) : Prop :=
  C.length ≤ 1 ∨ X = [] ∨ C <+: X ∨ C.length = 2 ∧ X = C.tail

instance [DecidableEq α] (C X : List α) : Decidable (Harmless C X) :=
  inferInstanceAs (Decidable (_ ∨ _ ∨ _ ∨ _ ∧ _))

theorem Harmless.refl (C : List α) : Harmless C C :=
  Or.inr (Or.inr (Or.inl (List.prefix_refl C)))

theorem Harmless.ranks (h : Harmless C X) (hk : C[k]? = some p) :
    ∃ rank, (∀ c, rank c ≤ turns C.length k c + 1) ∧ Ranks (turns C.length k) p X rank := by
  have hlt : k < C.length := (List.getElem?_eq_some_iff.1 hk).1
  rcases h with hlen | rfl | hX | ⟨hlen, rfl⟩
  · -- `p` is the only entry
    refine ⟨fun _ => 1, fun _ => Nat.succ_le_succ (Nat.zero_le _), ranks_zero ?_⟩
    intro c _ _
    have := turns_lt (c := next X.length c) hlt
    omega
  · exact ⟨fun _ => 1, fun _ => Nat.succ_le_succ (Nat.zero_le _), ranks_zero (by simp)⟩
  · exact ⟨_, fun _ => Nat.le_refl _, ranks_prefix hk hX⟩
  · -- the scans of the second entry alone start the cursor over
    refine ⟨fun _ => 1, fun _ => Nat.succ_le_succ (Nat.zero_le _), ranks_zero ?_⟩
    intro c hc hcp
    have hzero : c = 0 := by
      have : C.tail.length = 1 := by simp [hlen]
      omega
    subst hzero
    have hfirst : k = 0 := by
      by_contra hne
      have hk1 : k = 1 := by omega
      subst hk1
      exact hcp (by simpa using hk)
    simp [next, hlen, hfirst]

end Ranks

end RoundRobin
end Lib
end Ssmp
