import Mathlib.Order.Bounds.Basic
import Ssmp.Lib.Blocks
import Ssmp.Startup.Bounds

/-!
# Startup.Layout — the regions of `SSMP_MEM_NAME`

`ssmp_init_platf` puts the message matrix (SPARC only), the barriers, the initialisation flags and
the chunks one behind the other, at offsets that it computes a second time from the sizes it has
rounded up.  As long as the sum of the sizes fits into an `unsigned int`, the objects share no byte,
lie inside the file and begin at a line, the flags apart.
-/

namespace Ssmp
namespace Startup

open Lib Blocks

open scoped Function

/-! ## Multiples of a line -/

/-- The least multiple of a line that is not below `x`, in numbers without a bound. -/
def lineUp (x : Nat) : Nat :=
  (x + 63) / 64 * 64

theorem isLeast_lineUp (x : Nat) : IsLeast {m | 64 ∣ m ∧ x ≤ m} (lineUp x) := by
  unfold lineUp
  constructor
  · exact ⟨Nat.dvd_mul_left 64 _, by omega⟩
  · rintro m ⟨⟨k, rfl⟩, hm⟩
    omega

/-- As long as the multiple is a word. -/
theorem ssmpIncAlign_toNat {x : Nat} (hx : lineUp x < 2 ^ 32) :
    (ssmpIncAlign (UInt32.ofNat x)).toNat = lineUp x :=
  incAlign_toNat x hx

/-! ## Sizes and offsets -/

/-- The sum of the sizes, without a bound on numbers. -/
def totalSize (T : Target) (n : Nat) : Nat :=
  msgBytes T n + lineUp (16 * sizeofBarrier) + lineUp (n * sizeofInt) + lineUp (n * T.sizeofChunk)

/-- Where a region begins: the matrix, the barriers, the flags and the chunks, as in the pointers
`mem_just_int + sizem + sizeb + sizeui`; behind the chunks nothing follows. -/
def regionStart (T : Target) (n : Nat) : Nat → Nat
  | 0 => 0
  | 1 => (sizes T n).sizem.toNat
  | 2 => (sizes T n).sizem.toNat + (sizes T n).sizeb.toNat
  | 3 => (sizes T n).sizem.toNat + (sizes T n).sizeb.toNat + (sizes T n).sizeui.toNat
  | _ =>
      (sizes T n).sizem.toNat + (sizes T n).sizeb.toNat + (sizes T n).sizeui.toNat +
        (sizes T n).sizecnk.toNat

section Offsets

variable {T : Target} {n : Nat}

theorem monotone_regionStart (T : Target) (n : Nat) : Monotone (regionStart T n) := by
  refine monotone_nat_of_le_succ fun r => ?_
  match r with
  | 0 => exact Nat.zero_le _
  | 1 | 2 | 3 => exact Nat.le_add_right _ _
  | r + 4 => exact Nat.le_refl _

/-- A chunk is a number of lines. -/
theorem lineUp_chunks : lineUp (n * T.sizeofChunk) = n * T.sizeofChunk := by
  unfold lineUp
  rcases sizeofChunk_eq T with h | h <;> rw [h] <;> omega

theorem totalSize_eq_need : totalSize T n = need T n .mem := by
  rw [totalSize, lineUp_chunks, need]
  rfl

/-- The sizes, when their sum is a word. -/
theorem sizes_toNat (hfit : totalSize T n < 2 ^ 32) :
    (sizes T n).sizem.toNat = msgBytes T n ∧
      (sizes T n).sizeb.toNat = 16 * sizeofBarrier ∧
      (sizes T n).sizeui.toNat = lineUp (n * sizeofInt) ∧
      (sizes T n).sizecnk.toNat = n * T.sizeofChunk := by
  have hchunks := @lineUp_chunks T n
  unfold totalSize at hfit
  refine ⟨sizem_toNat (by omega), sizeb_toNat, ssmpIncAlign_toNat (by omega), ?_⟩
  exact sizecnk_toNat (by omega)

theorem size_toNat (hfit : totalSize T n < 2 ^ 32) :
    (sizes T n).size.toNat = totalSize T n := by
  rw [totalSize_eq_need] at hfit ⊢
  exact @newSize_toNat T n .mem hfit

/-- The last region ends with the file. -/
theorem regionStart_four (hfit : totalSize T n < 2 ^ 32) :
    regionStart T n 4 = (sizes T n).size.toNat := by
  rcases sizes_toNat hfit with ⟨hm, hb, hui, hc⟩
  have hlast : regionStart T n 4 = (sizes T n).sizem.toNat + (sizes T n).sizeb.toNat +
      (sizes T n).sizeui.toNat + (sizes T n).sizecnk.toNat := rfl
  rw [hlast, size_toNat hfit, totalSize, lineUp_chunks, hm, hb, hui, hc]
  rfl

end Offsets

/-! ## Objects -/

/-- The objects in `SSMP_MEM_NAME` in a run of `n` processes. -/
inductive Part (T : Target) (n : Nat) where
  /-- The message of the matrix that `receiver` gets from `sender`. -/
  | slot (hsparc : T.arch = .sparc) (receiver sender : Fin n)
  /-- `ssmp_barrier + bar` -/
  | barrier (bar : Fin 16)
  /-- `ues_initialized + ue` -/
  | flag (ue : Fin n)
  /-- `ssmp_chunk_mem + core` -/
  | chunk (core : Fin n)

namespace Part

variable {T : Target} {n : Nat}

def region : Part T n → Nat
  | slot .. => 0
  | barrier _ => 1
  | flag _ => 2
  | chunk _ => 3

/-- The position among the objects of the region. -/
def index : Part T n → Nat
  | slot _ receiver sender => (T.arch.slotPtr n sender receiver).index
  | barrier bar => bar
  | flag ue => ue
  | chunk core => core

def size : Part T n → Nat
  | slot .. => sizeofMsg
  | barrier _ => sizeofBarrier
  | flag _ => sizeofInt
  | chunk _ => T.sizeofChunk

def off (p : Part T n) : Nat :=
  regionStart T n p.region + p.index * p.size

/-- The bytes of the object. -/
def bytes (p : Part T n) : Set Nat :=
  cell (regionStart T n p.region) p.size p.index

theorem slotPtr_sparc (hsparc : T.arch = .sparc) (i j : Nat) :
    T.arch.slotPtr n i j = { file := 0, index := j * n + i } := by
  rw [hsparc]
  rfl

/-- These are the objects that the processes address in the file. -/
theorem addressed_iff {off len : Nat} :
    Addressed T n .mem off len ↔ ∃ p : Part T n, p.off = off ∧ p.size = len := by
  constructor
  · generalize hname : SegName.mem = name
    intro h
    cases h with
    | @barrier bar hbar => exact ⟨barrier ⟨bar, hbar⟩, rfl, rfl⟩
    | @ues ue hue => exact ⟨flag ⟨ue, hue⟩, rfl, rfl⟩
    | @chunk core hcore => exact ⟨chunk ⟨core, hcore⟩, rfl, rfl⟩
    | @recvBuf id core p hid hp =>
        rcases recvBuf_index hp with ⟨hcore, _, rfl⟩
        have hsparc : T.arch = .sparc := by
          cases hT : T.arch with
          | sparc => rfl
          | x86 => simp [fileName, hT] at hname
        exact ⟨slot hsparc ⟨id, hid⟩ ⟨core, hcore⟩, Nat.zero_add _, rfl⟩
    | @sendBuf id core p hid hp =>
        rcases sendBuf_index hp with ⟨hcore, _, rfl⟩
        have hsparc : T.arch = .sparc := by
          cases hT : T.arch with
          | sparc => rfl
          | x86 => simp [fileName, hT] at hname
        exact ⟨slot hsparc ⟨core, hcore⟩ ⟨id, hid⟩, Nat.zero_add _, rfl⟩
  · rintro ⟨p, rfl, rfl⟩
    cases p with
    | barrier bar => exact Addressed.barrier bar.isLt
    | flag ue => exact Addressed.ues ue.isLt
    | chunk core => exact Addressed.chunk core.isLt
    | slot hsparc receiver sender =>
        have hp : (T.arch.ssmpMemInitPlatf receiver n).ssmpRecvBuf sender =
            some (T.arch.slotPtr n sender receiver) := by
          rw [slotPtr_sparc hsparc, hsparc]
          exact fillBuf_eq sender.isLt rfl
        have haddr := Addressed.recvBuf receiver.isLt hp
        have hname : fileName T (T.arch.slotPtr n sender receiver).file = .mem := by
          simp [fileName, hsparc]
        rw [hname] at haddr
        simpa only [off, regionStart, region, index, size, Nat.zero_add] using haddr

/-- Region and position determine the object. -/
theorem eq_of_index {p q : Part T n} (hregion : p.region = q.region) (hindex : p.index = q.index) :
    p = q := by
  cases p with
  | slot hsparc j i =>
      cases q <;> cases hregion
      case slot _ j' i' =>
        simp only [index, slotPtr_sparc hsparc] at hindex
        rcases matrix_index_inj i.isLt i'.isLt hindex with ⟨hi, hj⟩
        rw [Fin.ext hi, Fin.ext hj]
  | barrier bar =>
      cases q <;> cases hregion
      case barrier bar' => exact congrArg barrier (Fin.ext hindex)
  | flag ue =>
      cases q <;> cases hregion
      case flag ue' => exact congrArg flag (Fin.ext hindex)
  | chunk core =>
      cases q <;> cases hregion
      case chunk core' => exact congrArg chunk (Fin.ext hindex)

/-- Objects of one region have one size. -/
theorem size_eq_of_region {p q : Part T n} (h : p.region = q.region) : p.size = q.size := by
  cases p <;> cases q <;> first | rfl | cases h

/-- An object lies in its region. -/
theorem bytes_subset_region (hfit : totalSize T n < 2 ^ 32) (p : Part T n) :
    p.bytes ⊆ Set.Ico (regionStart T n p.region) (regionStart T n (p.region + 1)) := by
  rcases sizes_toNat hfit with ⟨hm, hb, hui, hc⟩
  -- the number of objects, and the room for them
  have hroom : ∃ k, p.index < k ∧
      regionStart T n p.region + k * p.size ≤ regionStart T n (p.region + 1) := by
    cases p with
    | slot hsparc receiver sender =>
        refine ⟨n * n, ?_, ?_⟩
        · rw [index, slotPtr_sparc hsparc]
          calc
            receiver * n + sender < receiver * n + n := Nat.add_lt_add_left sender.isLt _
            _ = (receiver + 1) * n := (Nat.succ_mul _ n).symm
            _ ≤ n * n := Nat.mul_le_mul_right n receiver.isLt
        · simp [region, regionStart, size, hm, msgBytes, hsparc]
    | barrier bar =>
        exact ⟨16, bar.isLt, by simp [region, regionStart, size, hb]⟩
    | flag ue =>
        have hle : n * sizeofInt ≤ lineUp (n * sizeofInt) := (isLeast_lineUp _).1.2
        exact ⟨n, ue.isLt, by simpa [region, regionStart, size, hui] using hle⟩
    | chunk core =>
        exact ⟨n, core.isLt, by simp [region, regionStart, size, hc]⟩
  rcases hroom with ⟨k, hk, hend⟩
  exact (cell_subset hk).trans (Set.Ico_subset_Ico_right hend)

theorem bytes_subset_file (hfit : totalSize T n < 2 ^ 32) (p : Part T n) :
    p.bytes ⊆ block 0 (sizes T n).size.toNat := by
  have hregion : p.region < 4 := by
    cases p <;> simp [region]
  have hfile := region_subset (monotone_regionStart T n) hregion
  have hzero : regionStart T n 0 = 0 := rfl
  rw [hzero, regionStart_four hfit] at hfile
  simpa only [block, Nat.zero_add] using (bytes_subset_region hfit p).trans hfile

/-- Different objects share no byte. -/
theorem pairwise_disjoint_bytes (hfit : totalSize T n < 2 ^ 32) :
    Pairwise (Disjoint on (bytes : Part T n → Set Nat)) := by
  intro p q hne
  by_cases hregion : p.region = q.region
  · have hindex : p.index ≠ q.index := fun h => hne (eq_of_index hregion h)
    have hcells := pairwise_disjoint_cell (regionStart T n p.region) p.size hindex
    rw [Function.onFun, bytes, bytes, ← hregion, ← size_eq_of_region hregion]
    exact hcells
  · exact disjoint_of_regions (monotone_regionStart T n) hregion (bytes_subset_region hfit p)
      (bytes_subset_region hfit q)

/-- The regions begin at a line, and so do all objects but the flags. -/
theorem line_dvd_off (hfit : totalSize T n < 2 ^ 32) (p : Part T n) (h : ∀ ue, p ≠ flag ue) :
    ssmpCacheLineSize ∣ p.off := by
  rcases sizes_toNat hfit with ⟨hm, hb, hui, hc⟩
  have hmsgs : 64 ∣ msgBytes T n := by
    unfold msgBytes
    split
    · exact Nat.dvd_zero 64
    · exact Nat.dvd_mul_left 64 _
  have hline : 64 ∣ lineUp (n * sizeofInt) := (isLeast_lineUp _).1.1
  cases p with
  | slot hsparc receiver sender =>
      simp only [off, region, regionStart, size, Nat.zero_add]
      exact Nat.dvd_mul_left 64 _
  | barrier bar =>
      simp only [off, region, regionStart, hm, size, sizeofBarrier, ssmpCacheLineSize]
      exact Nat.dvd_add hmsgs (Nat.dvd_mul_left 64 _)
  | flag ue => exact absurd rfl (h ue)
  | chunk core =>
      have hchunk : 64 ∣ T.sizeofChunk := by
        cases T <;> decide
      simp only [off, region, regionStart, hm, hb, hui, size, index, sizeofBarrier,
        ssmpCacheLineSize]
      exact Nat.dvd_add (Nat.dvd_add (Nat.dvd_add hmsgs (Nat.dvd_mul_left 64 16)) hline)
        (Nat.dvd_mul_left_of_dvd hchunk _)

end Part

/-! ## The layout -/

/-- When the sum of the sizes is an `unsigned int`, it is the length that the file is given; the
objects share no byte, lie inside the file and begin at a line, the flags apart; and the three loops
end at the least number of lines that has the room. -/
theorem segment_layout {T : Target} {n : Nat} (hfit : totalSize T n < 2 ^ 32) :
    (sizes T n).size.toNat = totalSize T n ∧
      Pairwise (Disjoint on (Part.bytes : Part T n → Set Nat)) ∧
      (∀ p : Part T n, p.bytes ⊆ block 0 (sizes T n).size.toNat) ∧
      (∀ p : Part T n, (∀ ue, p ≠ .flag ue) → ssmpCacheLineSize ∣ p.off) ∧
      ∀ x ∈ [16 * sizeofBarrier, n * sizeofInt, n * T.sizeofChunk],
        IncAligns (UInt32.ofNat x) (ssmpIncAlign (UInt32.ofNat x)) ∧
          IsLeast {m | ssmpCacheLineSize ∣ m ∧ x ≤ m} (ssmpIncAlign (UInt32.ofNat x)).toNat := by
  refine ⟨size_toNat hfit, Part.pairwise_disjoint_bytes hfit, Part.bytes_subset_file hfit,
    Part.line_dvd_off hfit, ?_⟩
  intro x hx
  have hlt : lineUp x < 2 ^ 32 := by
    simp only [List.mem_cons, List.not_mem_nil, or_false] at hx
    unfold totalSize at hfit
    rcases hx with rfl | rfl | rfl <;> omega
  refine ⟨incAligns_ssmpIncAlign _, ?_⟩
  rw [ssmpIncAlign_toNat hlt]
  exact isLeast_lineUp x

theorem segment_layout_three :
    totalSize .sparcV9 3 < 2 ^ 32 ∧
      Pairwise (Disjoint on (Part.bytes : Part .sparcV9 3 → Set Nat)) :=
  ⟨by decide, (segment_layout (T := .sparcV9) (n := 3) (by decide)).2.1⟩

end Startup
end Ssmp
