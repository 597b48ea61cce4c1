import Mathlib.Data.Fin.Tuple.Basic
import Mathlib.Data.Fintype.EquivFin
import Mathlib.Dynamics.PeriodicPts.Lemmas

/-!
# ShiftRegister — feedback shift registers of words

A row of registers is clocked: each takes the content of the next one, and the last takes a value
computed from all of them.  If that value determines the register that falls out, nothing is lost,
and on finitely many states the clock is a permutation.  The words here are mixed by xorshifts,
which lose nothing either: every bit of the result is a bit of the word and one that is further
from the end the word is shifted out of.
-/

namespace Ssmp
namespace Lib
namespace ShiftRegister

universe u

/-! ## Xorshifts -/

section Xorshift

variable {w s : Nat}

/-- Every bit of `f x` is that of `x`, or the sum of it and of another of lower rank. -/
def Triangular (rank : Nat → Nat) (f : BitVec w → BitVec w) : Prop :=
  ∀ i, i < w → ∃ src : Option Nat, (∀ j, src = some j → j < w ∧ rank j < rank i) ∧
    ∀ x, (f x).getLsbD i = (x.getLsbD i ^^ src.elim false x.getLsbD)

theorem Triangular.injective {rank : Nat → Nat} {f : BitVec w → BitVec w}
    (h : Triangular rank f) : Function.Injective f := by
  intro x y heq
  -- the bits agree rank by rank
  have hall : ∀ r i, i < w → rank i = r → x.getLsbD i = y.getLsbD i := by
    intro r
    induction r using Nat.strong_induction_on with
    | _ r ih =>
        intro i hi hr
        rcases h i hi with ⟨src, hsrc, hbit⟩
        have hsum := (hbit x).symm.trans ((congrArg (fun z => z.getLsbD i) heq).trans (hbit y))
        cases src with
        | none => simpa using hsum
        | some j =>
            rcases hsrc j rfl with ⟨hj, hrank⟩
            have hsame : x.getLsbD j = y.getLsbD j := ih _ (hr ▸ hrank) j hj rfl
            simpa [hsame] using hsum
  exact BitVec.eq_of_getLsbD_eq fun i hi => hall _ i hi rfl

/-- A bit is mixed with one below it. -/
theorem triangular_xor_shiftLeft (hs : 0 < s) :
    Triangular id fun x : BitVec w => x ^^^ x <<< s := by
  intro i hi
  by_cases hlow : i < s
  · refine ⟨none, by simp, ?_⟩
    intro x
    simp [BitVec.getLsbD_shiftLeft, hlow]
  · refine ⟨some (i - s), ?_, ?_⟩
    · rintro j ⟨⟩
      exact ⟨by omega, show i - s < i by omega⟩
    · intro x
      simp only [BitVec.getLsbD_xor, BitVec.getLsbD_shiftLeft, hi, hlow, decide_true, decide_false,
        Bool.not_false, Bool.true_and, Option.elim_some]

/-- A bit is mixed with one above it. -/
theorem triangular_xor_shiftRight (hs : 0 < s) :
    Triangular (w - ·) fun x : BitVec w => x ^^^ x >>> s := by
  intro i hi
  by_cases hhigh : s + i < w
  · refine ⟨some (s + i), ?_, ?_⟩
    · rintro j ⟨⟩
      exact ⟨hhigh, show w - (s + i) < w - i by omega⟩
    · intro x
      simp
  · refine ⟨none, by simp, ?_⟩
    intro x
    have hnone : x.getLsbD (s + i) = false := BitVec.getLsbD_of_ge x _ (Nat.not_lt.1 hhigh)
    simp [hnone]

end Xorshift

/-! ## The clock -/

section Clock

variable {α : Type u} {n : Nat}

/-- Every register takes the next one's content, and the last the feedback. -/
def clock (feedback : α → (Fin n → α) → α) (r : Fin (n + 1) → α) : Fin (n + 1) → α :=
  Fin.snoc (Fin.tail r) (feedback (r 0) (Fin.tail r))

theorem clock_injective {feedback : α → (Fin n → α) → α}
    (h : ∀ t, Function.Injective fun x => feedback x t) : Function.Injective (clock feedback) := by
  intro r r' heq
  have htail : Fin.tail r = Fin.tail r' := by
    have hinit := congrArg Fin.init heq
    simpa only [clock, Fin.init_snoc] using hinit
  have hlast : feedback (r 0) (Fin.tail r) = feedback (r' 0) (Fin.tail r') := by
    have hend := congrArg (fun q => q (Fin.last n)) heq
    simpa only [clock, Fin.snoc_last] using hend
  rw [htail] at hlast
  have hzero : r 0 = r' 0 := h _ hlast
  rw [← Fin.cons_self_tail r, ← Fin.cons_self_tail r', hzero, htail]

end Clock

/-! ## Runs of a permutation -/

section Runs

variable {β : Type u} {f : β → β}

/-- A state that is not fixed does not get to one that is. -/
theorem iterate_ne_of_fixed (hf : Function.Injective f) {a x : β} (ha : f a = a) (hx : x ≠ a)
    (n : Nat) : f^[n] x ≠ a := by
  intro heq
  have hfixed : f^[n] a = a := Function.iterate_fixed ha n
  exact hx (hf.iterate n (heq.trans hfixed.symm))

/-- On finitely many states every run is periodic from its start. -/
theorem exists_period [Finite β] (hf : Function.Injective f) (x : β) :
    ∃ p, 0 < p ∧ ∀ n, f^[n + p] x = f^[n] x := by
  have hperiodic : x ∈ Function.periodicPts f := hf.mem_periodicPts x
  rcases hperiodic with ⟨p, hp, hpx⟩
  refine ⟨p, hp, ?_⟩
  intro n
  rw [Function.iterate_add_apply, hpx.eq]

end Runs

end ShiftRegister
end Lib
end Ssmp
