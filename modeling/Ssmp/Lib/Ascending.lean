import Mathlib.Data.List.Pairwise
import Mathlib.Data.Nat.Find
import Mathlib.Order.Interval.Set.Basic

/-!
# Ascending — positions and values of an ascending list

In a strictly ascending list of naturals no entry is below its position, and an entry that equals its
position is preceded by all smaller numbers.  So a test that is made on the position in place of the
entry is right for a few lists only: `mem_Ico_iff` says for which lists position and entry always
agree on being in an interval that has a number the list leaves out.
-/

namespace Ssmp
namespace Lib
namespace Ascending

variable {l : List Nat} {a b i k r x : Nat}

theorem getElem_lt (h : l.Pairwise (· < ·)) (hik : i < k) (hk : k < l.length) :
    l[i] < l[k] :=
  List.pairwise_iff_getElem.1 h i k _ hk hik

/-- From one entry to another the values grow at least as much as the positions. -/
theorem getElem_add_le (h : l.Pairwise (· < ·)) (hik : i ≤ k) (hk : k < l.length) :
    l[i] + (k - i) ≤ l[k] := by
  induction k with
  | zero =>
      have hi : i = 0 := Nat.le_zero.1 hik
      subst hi
      exact Nat.le_refl _
  | succ k ih =>
      by_cases hi : i = k + 1
      · subst hi
        rw [Nat.sub_self, Nat.add_zero]
      · have hprev := ih (by omega) (by omega)
        have hlt := getElem_lt h (show k < k + 1 by omega) hk
        omega

theorem le_getElem (h : l.Pairwise (· < ·)) (hk : k < l.length) : k ≤ l[k] := by
  have hgrow := getElem_add_le h (Nat.zero_le k) hk
  omega

/-- Below an entry that equals its position all entries do. -/
theorem getElem_eq_of_eq (h : l.Pairwise (· < ·)) (hk : k < l.length) (heq : l[k] = k)
    (hik : i ≤ k) : l[i] = i := by
  have hgrow := getElem_add_le h hik hk
  have hle := le_getElem h (Nat.lt_of_le_of_lt hik hk)
  omega

theorem mem_of_getElem_eq (h : l.Pairwise (· < ·)) (hk : k < l.length) (heq : l[k] = k)
    (hik : i ≤ k) : i ∈ l := by
  have hi := getElem_eq_of_eq h hk heq hik
  have hmem := List.getElem_mem (Nat.lt_of_le_of_lt hik hk)
  rwa [hi] at hmem

/-- If all numbers below `a` are entries, they are at their own positions. -/
theorem getElem_eq_of_mem (h : l.Pairwise (· < ·)) (hall : ∀ x, x < a → x ∈ l) (hk : k < a) :
    ∃ hlt : k < l.length, l[k] = k := by
  -- by induction on the number: an earlier position is taken by a smaller one
  induction k using Nat.strong_induction_on with
  | _ k ih =>
      rcases List.mem_iff_getElem.1 (hall k hk) with ⟨i, hi, hval⟩
      have hle := le_getElem h hi
      by_cases hik : i = k
      · subst hik
        exact ⟨hi, hval⟩
      · rcases ih i (by omega) (by omega) with ⟨_, hself⟩
        omega

/-- The first entry that is not below `a`. -/
theorem exists_first (h : l.Pairwise (· < ·)) (hx : x ∈ l) (hax : a ≤ x) :
    ∃ k, ∃ hk : k < l.length, a ≤ l[k] ∧ l[k] ≤ x ∧
      ∀ i, ∀ hi : i < k, l[i] < a := by
  have hex : ∃ k, ∃ hk : k < l.length, a ≤ l[k] := by
    rcases List.mem_iff_getElem.1 hx with ⟨k, hk, hval⟩
    exact ⟨k, hk, by omega⟩
  classical
  rcases Nat.find_spec hex with ⟨hk, hak⟩
  have hbefore : ∀ i, ∀ hi : i < Nat.find hex, l[i] < a := by
    intro i hi
    by_contra hge
    exact Nat.find_min hex hi ⟨Nat.lt_trans hi hk, Nat.not_lt.1 hge⟩
  refine ⟨Nat.find hex, hk, hak, ?_, hbefore⟩
  -- `x` is not before it
  rcases List.mem_iff_getElem.1 hx with ⟨kx, hkx, hval⟩
  have hge : Nat.find hex ≤ kx := Nat.find_min' hex ⟨hkx, by omega⟩
  have hgrow := getElem_add_le h hge hkx
  omega

/-- Position and entry agree on being in `[a, b)`, of which `r` is left out, if and only if no entry
is in it and no position gets there, or all numbers below it are entries and none behind it. -/
theorem mem_Ico_iff (h : l.Pairwise (· < ·)) (hr : r ∈ Set.Ico a b) (hout : r ∉ l) :
    (∀ k, ∀ hk : k < l.length, k ∈ Set.Ico a b ↔ l[k] ∈ Set.Ico a b) ↔
      ((∀ x ∈ l, x ∉ Set.Ico a b) ∧ l.length ≤ a) ∨
        ((∀ x, x < a → x ∈ l) ∧ ∀ x ∈ l, x < b) := by
  constructor
  · intro hagree
    by_cases hnone : ∀ x ∈ l, x ∉ Set.Ico a b
    · refine Or.inl ⟨hnone, ?_⟩
      by_contra hlen
      have ha : a < l.length := Nat.not_le.1 hlen
      have hpos : a ∈ Set.Ico a b := ⟨Nat.le_refl a, Nat.lt_of_le_of_lt hr.1 hr.2⟩
      exact hnone _ (List.getElem_mem ha) ((hagree a ha).1 hpos)
    · refine Or.inr ?_
      simp only [not_forall, not_not] at hnone
      rcases hnone with ⟨x, hx, hxa, hxb⟩
      rcases exists_first h hx hxa with ⟨k, hk, hka, hkx, hbefore⟩
      -- the first entry of the interval is at a position of it
      have hpos := (hagree k hk).2 ⟨hka, Nat.lt_of_le_of_lt hkx hxb⟩
      have hbelow : ∀ y, y < a → y ∈ l := by
        intro y hy
        have hprev : k - 1 < l.length := by omega
        have hlt := hbefore (k - 1) (by have := hpos.1; omega)
        have hle := le_getElem h hprev
        have hge := hpos.1
        exact mem_of_getElem_eq h hprev (by omega) (by omega)
      refine ⟨hbelow, ?_⟩
      -- a position of the interval is left for `r` only
      intro y hy
      by_contra hyb
      rcases exists_first h hy (Nat.not_lt.1 hyb) with ⟨k', hk', hkb, _, hbefore'⟩
      have hout' : k' ∉ Set.Ico a b := fun hin =>
        absurd ((hagree k' hk').1 hin).2 (Nat.not_lt.2 hkb)
      have hkk' : k ≤ k' := by
        by_contra hgt
        have hlt := getElem_lt h (Nat.not_le.1 hgt) hk
        omega
      have hbk' : b ≤ k' := by
        by_contra hlt
        exact hout' ⟨Nat.le_trans hpos.1 hkk', Nat.not_le.1 hlt⟩
      have hlast := hbefore' (b - 1) (by have := hr.2; omega)
      have hge := le_getElem h (show b - 1 < l.length by have := hr.2; omega)
      exact hout (mem_of_getElem_eq h (show b - 1 < l.length by have := hr.2; omega) (by omega)
        (by have := hr.2; omega))
  · rintro (⟨hnone, hlen⟩ | ⟨hbelow, hbehind⟩) k hk
    · refine iff_of_false ?_ (hnone _ (List.getElem_mem hk))
      intro hin
      exact absurd hin.1 (by omega)
    · have hle := le_getElem h hk
      have hlt := hbehind _ (List.getElem_mem hk)
      by_cases hka : k < a
      · rcases getElem_eq_of_mem h hbelow hka with ⟨_, hself⟩
        rw [hself]
      · exact iff_of_true ⟨by omega, by omega⟩ ⟨by omega, hlt⟩

end Ascending
end Lib
end Ssmp
