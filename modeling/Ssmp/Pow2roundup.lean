import Mathlib

/-!
# Pow2roundup — `pow2roundup` of `src/ssmp.c`

Shifts and disjunctions copy the highest bit of `x - 1` into all lower ones, so that adding 1 gives
the next power of two.
-/

namespace Ssmp

/-! ## The function -/

def pow2roundup (x : UInt32) : UInt32 :=
  if x = 0 then 1
  else
    let x := x - 1
    let x := x ||| x >>> 1
    let x := x ||| x >>> 2
    let x := x ||| x >>> 4
    let x := x ||| x >>> 8
    let x := x ||| x >>> 16
    x + 1

example : pow2roundup 1025 = 2048 := by decide

/-! ## Smearing -/

/-- The bits of `z` are those of `y`, each copied to the `d - 1` places below it as well. -/
def Smeared (d y z : Nat) : Prop :=
  ∀ i, z.testBit i = true ↔ ∃ k, k < d ∧ y.testBit (i + k) = true

section Smear

variable {d y z : Nat}

theorem Smeared.refl (y : Nat) : Smeared 1 y y := by
  intro i
  constructor
  · intro h
    exact ⟨0, by omega, h⟩
  · rintro ⟨k, hk, h⟩
    have hzero : k = 0 := by omega
    simpa [hzero] using h

/-- One line of the function doubles the distance. -/
theorem Smeared.double (h : Smeared d y z) : Smeared (d + d) y (z ||| z >>> d) := by
  intro i
  rw [Nat.testBit_or, Nat.testBit_shiftRight, Bool.or_eq_true, h i, h (d + i)]
  constructor
  · rintro (⟨k, hk, hbit⟩ | ⟨k, hk, hbit⟩)
    · exact ⟨k, by omega, hbit⟩
    · exact ⟨d + k, by omega, by rwa [show i + (d + k) = d + i + k by omega]⟩
  · rintro ⟨k, hk, hbit⟩
    by_cases hlow : k < d
    · exact Or.inl ⟨k, hlow, hbit⟩
    · exact Or.inr ⟨k - d, by omega, by rwa [show d + i + (k - d) = i + k by omega]⟩

/-- Smeared far enough, a number is all ones up to its highest bit. -/
theorem Smeared.eq_ones (h : Smeared d y z) (hy : y ≠ 0) (hd : y < 2 ^ d) :
    z = 2 ^ (y.log2 + 1) - 1 := by
  have hlog : y.log2 < d := (Nat.log2_lt hy).2 hd
  refine Nat.eq_of_testBit_eq fun i => ?_
  rw [Nat.testBit_two_pow_sub_one, Bool.eq_iff_iff, h i, decide_eq_true_iff]
  constructor
  · -- there is no bit above the highest
    rintro ⟨k, _, hbit⟩
    by_contra hi
    have hlt : y < 2 ^ (i + k) :=
      Nat.lt_of_lt_of_le Nat.lt_log2_self (Nat.pow_le_pow_right (by decide) (by omega))
    rw [Nat.testBit_lt_two_pow hlt] at hbit
    cases hbit
  · intro hi
    exact ⟨y.log2 - i, by omega, by
      rw [show i + (y.log2 - i) = y.log2 by omega]
      exact Nat.testBit_log2 hy⟩

theorem Smeared.zero (h : Smeared d 0 z) : z = 0 := by
  refine Nat.eq_of_testBit_eq fun i => ?_
  rw [Nat.zero_testBit, Bool.eq_false_iff]
  intro hi
  rcases (h i).1 hi with ⟨k, _, hbit⟩
  simp at hbit

end Smear

/-! ## The next power of two -/

theorem toNat_or_shiftRight (x s : UInt32) (hs : s.toNat < 32) :
    (x ||| x >>> s).toNat = x.toNat ||| x.toNat >>> s.toNat := by
  rw [UInt32.toNat_or, UInt32.toNat_shiftRight, Nat.mod_eq_of_lt hs]

theorem clog_eq_log2_succ {x : Nat} (hx : 2 ≤ x) : Nat.clog 2 x = (x - 1).log2 + 1 := by
  have hne : x - 1 ≠ 0 := by omega
  apply Nat.le_antisymm
  · have := Nat.lt_log2_self (n := x - 1)
    exact (Nat.clog_le_iff_le_pow (by decide)).2 (by omega)
  · have := Nat.log2_self_le hne
    exact (Nat.lt_clog_iff_pow_lt (by decide)).2 (by omega)

/-- Up to `2 ^ 31` the result is the least power of two that is not below `x`. -/
theorem pow2roundup_toNat {x : UInt32} (hx : x.toNat ≤ 2 ^ 31) :
    (pow2roundup x).toNat = 2 ^ Nat.clog 2 x.toNat := by
  by_cases hzero : x = 0
  · subst hzero
    decide
  have hpos : 1 ≤ x.toNat := by
    by_contra h
    exact hzero (UInt32.toNat_inj.1 (by rw [UInt32.toNat_zero]; omega))
  have hpred : (x - 1).toNat = x.toNat - 1 :=
    UInt32.toNat_sub_of_le _ _ (UInt32.le_iff_toNat_le.2 hpos)
  -- each line doubles the distance
  have hsmear : ∀ {d : Nat} {z s : UInt32}, s.toNat = d → d < 32 →
      Smeared d (x.toNat - 1) z.toNat → Smeared (d + d) (x.toNat - 1) (z ||| z >>> s).toNat := by
    intro d z s hs hd h
    rw [toNat_or_shiftRight z s (by omega), hs]
    exact h.double
  have hone : Smeared 1 (x.toNat - 1) (x - 1).toNat := by
    rw [hpred]
    exact Smeared.refl _
  have hfour := hsmear (d := 2) (s := 2) rfl (by decide)
    (hsmear (d := 1) (s := 1) rfl (by decide) hone)
  have hall := hsmear (d := 16) (s := 16) rfl (by decide)
    (hsmear (d := 8) (s := 8) rfl (by decide) (hsmear (d := 4) (s := 4) rfl (by decide) hfour))
  simp only [pow2roundup, if_neg hzero, UInt32.toNat_add]
  by_cases hlow : x.toNat = 1
  · rw [hlow] at hall
    rw [hall.zero, hlow]
    decide
  · have hlog : (x.toNat - 1).log2 < 31 := (Nat.log2_lt (by omega)).2 (by omega)
    have hpow : 2 ^ ((x.toNat - 1).log2 + 1) ≤ 2 ^ 31 :=
      Nat.pow_le_pow_right (by decide) (by omega)
    have hge : 1 ≤ 2 ^ ((x.toNat - 1).log2 + 1) := Nat.one_le_two_pow
    rw [hall.eq_ones (by omega) (by omega), clog_eq_log2_succ (by omega), UInt32.toNat_one]
    omega

theorem one_le_pow2roundup {x : UInt32} (hx : x.toNat ≤ 2 ^ 31) : 1 ≤ (pow2roundup x).toNat := by
  rw [pow2roundup_toNat hx]
  exact Nat.one_le_two_pow

/-! ## The final increment -/

/-- The word that `x+1` of the last line is computed from. -/
def pow2roundupSmear (x : UInt32) : UInt32 :=
  let x := x - 1
  let x := x ||| x >>> 1
  let x := x ||| x >>> 2
  let x := x ||| x >>> 4
  let x := x ||| x >>> 8
  x ||| x >>> 16

theorem pow2roundup_eq_succ {x : UInt32} (hzero : x ≠ 0) :
    pow2roundup x = pow2roundupSmear x + 1 := by
  rw [pow2roundup, if_neg hzero]
  rfl

/-- A wrapped increment would leave 0. -/
theorem pow2roundupSmear_succ {x : UInt32} (hzero : x ≠ 0) (hx : x.toNat ≤ 2 ^ 31) :
    (pow2roundupSmear x).toNat + 1 = (pow2roundup x).toNat := by
  have hpos := one_le_pow2roundup hx
  have hlt := (pow2roundupSmear x).toNat_lt
  rw [pow2roundup_eq_succ hzero, UInt32.toNat_add, UInt32.toNat_one] at hpos ⊢
  by_cases hwrap : (pow2roundupSmear x).toNat + 1 = 2 ^ 32
  · rw [hwrap, Nat.mod_self] at hpos
    cases hpos
  · exact (Nat.mod_eq_of_lt (by omega)).symm

/-! ## The mask -/

/-- The mask leaves the remainder by the power of two. -/
theorem and_pow2roundup_toNat {x : UInt32} (hx : x.toNat ≤ 2 ^ 31) (w : UInt32) :
    (w &&& (pow2roundup x - 1)).toNat = w.toNat % (pow2roundup x).toNat := by
  have hpred : (pow2roundup x - 1).toNat = (pow2roundup x).toNat - 1 :=
    UInt32.toNat_sub_of_le _ _ (UInt32.le_iff_toNat_le.2 (one_le_pow2roundup hx))
  rw [UInt32.toNat_and, hpred, pow2roundup_toNat hx, Nat.and_two_pow_sub_one_eq_mod]

/-- The values of a masked word are those below the power of two. -/
theorem range_and_pow2roundup {x : UInt32} (hx : x.toNat ≤ 2 ^ 31) :
    (Set.range fun w : UInt32 => w &&& (pow2roundup x - 1)) = {v | v < pow2roundup x} := by
  ext v
  rw [Set.mem_range, Set.mem_ofPred_eq, UInt32.lt_iff_toNat_lt]
  constructor
  · rintro ⟨w, rfl⟩
    rw [and_pow2roundup_toNat hx]
    exact Nat.mod_lt _ (one_le_pow2roundup hx)
  · intro hv
    exact ⟨v, UInt32.toNat_inj.1 (by rw [and_pow2roundup_toNat hx, Nat.mod_eq_of_lt hv])⟩

theorem isLeast_pow2roundup {x : UInt32} (hx : x.toNat ≤ 2 ^ 31) :
    IsLeast {p | (∃ k, p = 2 ^ k) ∧ x.toNat ≤ p} (pow2roundup x).toNat := by
  rw [pow2roundup_toNat hx]
  constructor
  · exact ⟨⟨_, rfl⟩, Nat.le_pow_clog (by decide) _⟩
  · rintro p ⟨⟨k, rfl⟩, hk⟩
    exact Nat.pow_le_pow_right (by decide) ((Nat.clog_le_iff_le_pow (by decide)).2 hk)

/-- Up to `2 ^ 31` the function returns the least power of two that is not below `x`, which is at
least 1, without wrapping; masked words, and words of `my_random` cast to 32 bits and masked, are
exactly the values below it. -/
theorem pow2roundup_least_and_mask (x : UInt32) (hx : x.toNat ≤ 2 ^ 31) :
    IsLeast {p | (∃ k, p = 2 ^ k) ∧ x.toNat ≤ p} (pow2roundup x).toNat ∧
      1 ≤ (pow2roundup x).toNat ∧
      (x ≠ 0 → pow2roundup x = pow2roundupSmear x + 1 ∧
        (pow2roundupSmear x).toNat + 1 < 2 ^ 32) ∧
      (Set.range fun w : UInt32 => w &&& (pow2roundup x - 1)) = {v | v < pow2roundup x} ∧
      (Set.range fun r : UInt64 => r.toUInt32 &&& (pow2roundup x - 1)) =
        {v | v < pow2roundup x} := by
  have hmask := range_and_pow2roundup hx
  refine ⟨isLeast_pow2roundup hx, one_le_pow2roundup hx, ?_, hmask, ?_⟩
  · intro hzero
    have hlt := (pow2roundup x).toNat_lt
    rw [← pow2roundupSmear_succ hzero hx] at hlt
    exact ⟨pow2roundup_eq_succ hzero, hlt⟩
  · -- the cast loses no word
    have hcast : Function.Surjective UInt64.toUInt32 := by
      intro w
      exact ⟨w.toUInt64, UInt32.toUInt32_toUInt64 w⟩
    rw [← hmask]
    exact hcast.range_comp fun w : UInt32 => w &&& (pow2roundup x - 1)

theorem pow2roundup_least_and_mask_1025 :
    (1025 : UInt32).toNat ≤ 2 ^ 31 ∧
      IsLeast {p | (∃ k, p = 2 ^ k) ∧ (1025 : UInt32).toNat ≤ p} (pow2roundup 1025).toNat :=
  ⟨by decide, (pow2roundup_least_and_mask 1025 (by decide)).1⟩

end Ssmp
