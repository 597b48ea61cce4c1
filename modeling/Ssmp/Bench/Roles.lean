import Mathlib.Logic.Function.Basic
import Mathlib.Order.Basic

/-!
# Bench.Roles — servers and clients of the benchmarks

`benchmarks/bank.c` and `benchmarks/client_server.c` make every `dsl_per_core`-th process a server
and the others clients.  Their `main` functions fill the table `dsl_seq` of the servers by the same
loop, which this module follows.
-/

namespace Ssmp
namespace Bench

/-! ## Defaults -/

/-! `num_procs` and `dsl_per_core` of both programs. -/

def defaultNumProcs : Nat := 2
def defaultDslPerCore : Nat := 2

/-! ## Colors -/

/-- `id % dsl_per_core == 0` -/
def colorDsl (dslPerCore id : Nat) : Bool :=
  id % dslPerCore == 0

/-- `!(color_dsl(id))` -/
def colorApp1 (dslPerCore id : Nat) : Bool :=
  !colorDsl dslPerCore id

/-! ## The table of the servers -/

/-- `num_dsl`, `num_app`, `dsl_seq_idx` and the array `dsl_seq`. -/
structure Roles where
  numDsl : UInt8
  numApp : UInt8
  dslSeqIdx : UInt8
  dslSeq : Nat → UInt8

/-- The loop of `main` after `i` turns. -/
def assignRoles (dslPerCore : Nat) : Nat → Roles
  | 0 => { numDsl := 0, numApp := 0, dslSeqIdx := 0, dslSeq := fun _ => 0 }
  | i + 1 =>
      let r := assignRoles dslPerCore i
      if colorDsl dslPerCore i then
        { r with
          numDsl := r.numDsl + 1
          dslSeqIdx := r.dslSeqIdx + 1
          dslSeq := Function.update r.dslSeq r.dslSeqIdx.toNat (UInt8.ofNat i) }
      else { r with numApp := r.numApp + 1 }

/-- After `i` turns, `d` servers have been found, the multiples of `dslPerCore` below `i`. -/
structure Roles.Found (dslPerCore i d : Nat) (r : Roles) : Prop where
  numDsl : r.numDsl = UInt8.ofNat d
  dslSeqIdx : r.dslSeqIdx = UInt8.ofNat d
  numApp : r.numApp = UInt8.ofNat (i - d)
  le : d ≤ i
  covers : i ≤ d * dslPerCore
  below : ∀ j, j < d → j * dslPerCore < i
  dslSeq : ∀ j, r.dslSeq j = if j < d then UInt8.ofNat (j * dslPerCore) else 0

section Found

variable {dslPerCore i d : Nat} {r : Roles}

/-- A server found after `d` others has id `d * dslPerCore`. -/
theorem Roles.Found.eq_mul (h : r.Found dslPerCore i d) (hi : i % dslPerCore = 0) :
    i = d * dslPerCore := by
  have hdiv : i / dslPerCore * dslPerCore = i := Nat.div_mul_cancel (Nat.dvd_of_mod_eq_zero hi)
  by_cases hlt : i / dslPerCore < d
  · have := h.below _ hlt
    omega
  · have hle : d * dslPerCore ≤ i / dslPerCore * dslPerCore :=
      Nat.mul_le_mul_right _ (by omega)
    have := h.covers
    omega

theorem Roles.found_assignRoles (hpos : 0 < dslPerCore) {n : Nat} (hn : n ≤ 255) :
    ∃ d, (assignRoles dslPerCore n).Found dslPerCore n d := by
  induction n with
  | zero =>
      refine ⟨0, ⟨rfl, rfl, rfl, Nat.le_refl 0, Nat.zero_le _, ?_, fun j => rfl⟩⟩
      intro j hj
      exact absurd hj (Nat.not_lt_zero j)
  | succ i ih =>
      rcases ih (by omega) with ⟨d, h⟩
      by_cases hi : i % dslPerCore = 0
      · -- the next server
        have heq := h.eq_mul hi
        have hd : (assignRoles dslPerCore i).dslSeqIdx.toNat = d := by
          have := h.le
          rw [h.dslSeqIdx, UInt8.toNat_ofNat']
          exact Nat.mod_eq_of_lt (by omega)
        refine ⟨d + 1, ?_⟩
        simp only [assignRoles, colorDsl, hi, BEq.rfl, if_true]
        refine ⟨?_, ?_, ?_, Nat.succ_le_succ h.le, ?_, ?_, ?_⟩
        · simp [h.numDsl, UInt8.ofNat_add]
        · simp [h.dslSeqIdx, UInt8.ofNat_add]
        · rw [Nat.succ_sub_succ]
          exact h.numApp
        · rw [Nat.succ_mul, ← heq]
          exact Nat.add_le_add_left hpos i
        · intro j hj
          have hle : j * dslPerCore ≤ d * dslPerCore := Nat.mul_le_mul_right _ (by omega)
          omega
        · intro j
          by_cases hj : j = d
          · simp only [hd, hj, Function.update_self, if_pos (Nat.lt_succ_self d), ← heq]
          · have hiff : j < d + 1 ↔ j < d := by omega
            simp only [hd, Function.update_of_ne hj, h.dslSeq j, hiff]
      · refine ⟨d, ?_⟩
        have hmul : i ≠ d * dslPerCore := by
          rintro rfl
          exact hi (Nat.mul_mod_left d dslPerCore)
        have hcovers := h.covers
        have hbeq : (i % dslPerCore == 0) = false := by simpa using hi
        simp only [assignRoles, colorDsl, hbeq, Bool.false_eq_true, if_false]
        refine ⟨h.numDsl, h.dslSeqIdx, ?_, Nat.le_succ_of_le h.le, by omega, ?_, h.dslSeq⟩
        · have := h.le
          rw [Nat.succ_sub h.le]
          simp [h.numApp, UInt8.ofNat_add]
        · intro j hj
          have := h.below j hj
          omega

theorem Roles.Found.numDsl_toNat (h : r.Found dslPerCore i d) (hi : i ≤ 255) :
    r.numDsl.toNat = d := by
  have := h.le
  rw [h.numDsl, UInt8.toNat_ofNat']
  exact Nat.mod_eq_of_lt (by omega)

theorem Roles.Found.dslSeq_toNat (h : r.Found dslPerCore i d) (hi : i ≤ 255) {j : Nat}
    (hj : j < d) : (r.dslSeq j).toNat = j * dslPerCore := by
  have hlt := h.below j hj
  rw [h.dslSeq, if_pos hj, UInt8.toNat_ofNat']
  exact Nat.mod_eq_of_lt (by omega)

/-- The servers are the first multiples of `dslPerCore`. -/
theorem Roles.Found.server_iff (h : r.Found dslPerCore i d) {id : Nat} :
    id < i ∧ colorDsl dslPerCore id = true ↔ ∃ j, j < d ∧ id = j * dslPerCore := by
  constructor
  · rintro ⟨hid, hcolor⟩
    have hmod : id % dslPerCore = 0 := by simpa [colorDsl] using hcolor
    have hdiv : id / dslPerCore * dslPerCore = id :=
      Nat.div_mul_cancel (Nat.dvd_of_mod_eq_zero hmod)
    refine ⟨id / dslPerCore, ?_, hdiv.symm⟩
    by_contra hge
    have hle : d * dslPerCore ≤ id / dslPerCore * dslPerCore :=
      Nat.mul_le_mul_right _ (by omega)
    have := h.covers
    omega
  · rintro ⟨j, hj, rfl⟩
    exact ⟨h.below j hj, by simp [colorDsl]⟩

end Found

end Bench
end Ssmp
