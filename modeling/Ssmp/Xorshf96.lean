import Ssmp.Lib.ShiftRegister
import Ssmp.Lib.TransSys
import Mathlib.Data.Fin.VecNotation
import Mathlib.Data.Finite.Prod
import Mathlib.Tactic.FinCases

/-!
# Xorshf96 — the random numbers of `include/ssmp.h`

`xorshf96` mixes the first of three words in place, lets the words move down by one and puts the sum
of all of them in the last place.  That is a feedback shift register, and no state is lost.
-/

namespace Ssmp

open Lib ShiftRegister

/-! ## The function -/

/-- What `x`, `y` and `z` point to, with 64 bits in an `unsigned long`. -/
structure Seeds where
  x : UInt64
  y : UInt64
  z : UInt64
  deriving DecidableEq

/-- The value returned, and what the pointers point to afterwards. -/
def xorshf96 (s : Seeds) : UInt64 × Seeds :=
  let x := s.x
  let x := x ^^^ x <<< 16
  let x := x ^^^ x >>> 5
  let x := x ^^^ x <<< 1
  let t := x
  let x := s.y
  let y := s.z
  let z := t ^^^ x ^^^ y
  (z, { x, y, z })

namespace Seeds

/-- One call. -/
def next (s : Seeds) : Seeds :=
  (xorshf96 s).2

def zero : Seeds where
  x := 0
  y := 0
  z := 0

theorem next_zero : zero.next = zero := by
  decide

/-! ## The register -/

/-- The first three lines. -/
def mixed (x : BitVec 64) : BitVec 64 :=
  let x := x ^^^ x <<< 16
  let x := x ^^^ x >>> 5
  x ^^^ x <<< 1

theorem mixed_injective : Function.Injective mixed := by
  have hup := (triangular_xor_shiftLeft (w := 64) (s := 16) (by decide)).injective
  have hdown := (triangular_xor_shiftRight (w := 64) (s := 5) (by decide)).injective
  have hlast := (triangular_xor_shiftLeft (w := 64) (s := 1) (by decide)).injective
  exact hlast.comp (hdown.comp hup)

/-- `t ^ (*x) ^ (*y)`, with the registers as they are after the move. -/
def feedback (x : BitVec 64) (t : Fin 2 → BitVec 64) : BitVec 64 :=
  mixed x ^^^ t 0 ^^^ t 1

theorem feedback_injective (t : Fin 2 → BitVec 64) :
    Function.Injective fun x => feedback x t := by
  intro x x' h
  have hsum : mixed x ^^^ t 0 = mixed x' ^^^ t 0 := (BitVec.xor_left_inj (t 1)).1 h
  exact mixed_injective ((BitVec.xor_left_inj (t 0)).1 hsum)

/-- The words as a row of registers. -/
def regs (s : Seeds) : Fin 3 → BitVec 64 :=
  ![s.x.toBitVec, s.y.toBitVec, s.z.toBitVec]

theorem regs_injective : Function.Injective regs := by
  rintro ⟨x, y, z⟩ ⟨x', y', z'⟩ h
  have hx : x = x' := UInt64.toBitVec_inj.1 (congrFun h 0)
  have hy : y = y' := UInt64.toBitVec_inj.1 (congrFun h 1)
  have hz : z = z' := UInt64.toBitVec_inj.1 (congrFun h 2)
  rw [hx, hy, hz]

instance : Finite Seeds := by
  refine Finite.of_injective (fun s i => (s.regs i).toFin) ?_
  intro s s' h
  exact regs_injective (funext fun i => BitVec.toFin_inj.1 (congrFun h i))

/-- A call clocks the register. -/
theorem regs_next (s : Seeds) : s.next.regs = clock feedback s.regs := by
  funext i
  fin_cases i <;> rfl

theorem next_injective : Function.Injective next := by
  intro s s' h
  have hclock : clock feedback s.regs = clock feedback s'.regs := by
    rw [← regs_next, ← regs_next, h]
  exact regs_injective (clock_injective feedback_injective hclock)

/-- A call permutes the states; other states than the zeros never get there, every run returns to
its start, and runs from different states stay apart. -/
theorem next_bijective_and_runs :
    Function.Bijective next ∧
      (∀ s, s ≠ zero → ∀ n, next^[n] s ≠ zero) ∧
      (∀ s, ∃ p, 0 < p ∧ ∀ n, next^[n + p] s = next^[n] s) ∧
      ∀ s s', s ≠ s' → ∀ n, next^[n] s ≠ next^[n] s' := by
  refine ⟨Finite.injective_iff_bijective.1 next_injective, ?_, ?_, ?_⟩
  · intro s hs n
    exact iterate_ne_of_fixed next_injective next_zero hs n
  · intro s
    exact exists_period next_injective s
  · intro s s' hne n heq
    exact hne (next_injective.iterate n heq)

end Seeds

end Ssmp
