import Mathlib

/-!
# Blocks — consecutive regions and arrays of cells

A piece of memory is laid out by offsets.  Regions lie one behind the other, each from one offset to
the next, and a region may be an array of cells of one size.  This module fixes

* `block`, `cell` — the places of a block, and of a cell of an array,
* `cell_subset`, `pairwise_disjoint_cell` — the cells of an array,
* `disjoint_of_regions` — what lies in different regions,
* `biUnion_Ico_succ` — consecutive regions leave no gap.
-/

namespace Ssmp
namespace Lib
namespace Blocks

universe u

open scoped Function

/-! ## Arrays -/

/-- The `len` places from `off` on. -/
def block (off len : Nat) : Set Nat :=
  Set.Ico off (off + len)

/-- Cell `i` of an array at `base`. -/
def cell (base size i : Nat) : Set Nat :=
  block (base + i * size) size

section Arrays

variable {n base size i : Nat}

/-- A cell ends where the next begins. -/
theorem cell_eq_Ico (base size i : Nat) :
    cell base size i = Set.Ico (base + i * size) (base + (i + 1) * size) := by
  rw [cell, block, Nat.succ_mul, Nat.add_assoc]

theorem cell_subset (hi : i < n) : cell base size i ⊆ block base (n * size) := by
  rw [cell_eq_Ico]
  exact Set.Ico_subset_Ico (Nat.le_add_right _ _)
    (Nat.add_le_add_left (Nat.mul_le_mul_right size hi) base)

theorem pairwise_disjoint_cell (base size : Nat) : Pairwise (Disjoint on cell base size) := by
  have hmono : Monotone fun i => base + i * size := by
    intro i j hij
    exact Nat.add_le_add_left (Nat.mul_le_mul_right size hij) base
  intro i j hij
  rw [Function.onFun, cell_eq_Ico, cell_eq_Ico]
  exact hmono.pairwise_disjoint_on_Ico_succ hij

end Arrays

/-! ## Regions -/

section Regions

variable {β : Type u} {start : Nat → β}

/-- What lies in different regions has nothing in common. -/
theorem disjoint_of_regions [Preorder β] (hmono : Monotone start) {r r' : Nat} (hne : r ≠ r')
    {s s' : Set β} (hs : s ⊆ Set.Ico (start r) (start (r + 1)))
    (hs' : s' ⊆ Set.Ico (start r') (start (r' + 1))) : Disjoint s s' :=
  (hmono.pairwise_disjoint_on_Ico_succ hne).mono hs hs'

theorem region_subset [Preorder β] (hmono : Monotone start) {r n : Nat} (hr : r < n) :
    Set.Ico (start r) (start (r + 1)) ⊆ Set.Ico (start 0) (start n) :=
  Set.Ico_subset_Ico (hmono (Nat.zero_le r)) (hmono hr)

/-- The first `n` regions leave no gap. -/
theorem biUnion_Ico_succ [LinearOrder β] (hmono : Monotone start) (n : Nat) :
    ⋃ r ∈ Set.Iio n, Set.Ico (start r) (start (r + 1)) = Set.Ico (start 0) (start n) := by
  induction n with
  | zero => simp
  | succ n ih =>
      have hsplit : Set.Iio (n + 1) = insert n (Set.Iio n) := by
        ext r
        simp only [Set.mem_Iio, Set.mem_insert_iff]
        omega
      rw [hsplit, Set.biUnion_insert, ih, Set.union_comm]
      exact Set.Ico_union_Ico_eq_Ico (hmono (Nat.zero_le n)) (hmono (Nat.le_succ n))

end Regions

end Blocks
end Lib
end Ssmp
