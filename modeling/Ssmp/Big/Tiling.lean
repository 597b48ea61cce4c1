import Ssmp.Big.Events
import Ssmp.Lib.Blocks

/-!
# Big.Tiling — the chunks of a buffer

Sender and receiver of a big message count its chunks in an `int` that is decremented after the test,
move a pointer through the buffer, and have a case of their own for the last chunk.  For lengths
below `2 ^ 31` both of them copy the same consecutive parts of the buffer, one for each time they
pass the flag of the chunk buffer.
-/

namespace Ssmp
namespace Big

open Lib Blocks

open scoped Function

/-! ## The two functions, with machine integers -/

/-- What the functions do; places in the user's buffer are counted from its start. -/
inductive ChunkOp where
  /-- Wait until the state of the chunk is set (`true`) or clear (`false`). -/
  | await (v : Bool)
  /-- `memcpy` of `len` bytes from or to `data + off`. -/
  | memcpy (off len : Nat)
  /-- `ssmp_chunk_buf[..]->state = v;` -/
  | store (v : Bool)
  deriving DecidableEq

/-- The operations for one chunk of a process that waits for the state `v`. -/
def handshake (v : Bool) (off len : Nat) : List ChunkOp :=
  [.await v, .memcpy off len, .store (!v)]

section Functions

variable (C : ℕ+) (v : Bool)

/-- `while(num_chunks--)`: the operations, and the pointer afterwards. -/
def whileChunks (numChunks : Int32) (data : Nat) : List ChunkOp × Nat :=
  if numChunks = 0 then ([], data)
  else
    let rest := whileChunks (numChunks - 1) (data + C)
    (handshake v data C ++ rest.1, rest.2)
termination_by numChunks.toBitVec.toNat
decreasing_by
  rename_i h
  have hne : numChunks.toBitVec ≠ 0 := fun hzero => h (Int32.toBitVec.inj hzero)
  have hone : (1 : Int32).toBitVec = 1 := rfl
  rw [Int32.toBitVec_sub, hone]
  bv_omega

def transfer (length : UInt64) : List ChunkOp :=
  let lastChunk := Int32.ofNat (length.toNat % C)
  let numChunks := Int32.ofNat (length.toNat / C)
  let loop := whileChunks C v numChunks 0
  -- `if (!last_chunk) return;`
  if lastChunk = 0 then loop.1
  else loop.1 ++ handshake v loop.2 lastChunk.toInt64.toUInt64.toNat

def ssmpSendBigOps (length : UInt64) : List ChunkOp :=
  transfer C false length

def ssmpRecvFromBigOps (length : UInt64) : List ChunkOp :=
  transfer C true length

end Functions

/-! ## Machine integers and numbers -/

section Exact

variable {C : ℕ+} {v : Bool}

theorem ofNat_eq_zero {k : Nat} (hk : k < 2 ^ 31) : Int32.ofNat k = 0 ↔ k = 0 := by
  constructor
  · intro h
    have hclamp := congrArg Int32.toNatClampNeg h
    rwa [Int32.toNatClampNeg_ofNat_of_lt hk] at hclamp
  · rintro rfl
    rfl

theorem ofNat_succ_sub_one (k : Nat) : Int32.ofNat (k + 1) - 1 = Int32.ofNat k := by
  rw [Int32.ofNat_add]
  exact Int32.add_sub_cancel _ _

theorem ofNat_toUInt64 {k : Nat} (hk : k < 2 ^ 31) :
    (Int32.ofNat k).toInt64.toUInt64.toNat = k := by
  have hle : (k : Int) ≤ Int32.maxValue.toInt := by
    have hmax : Int32.maxValue.toInt = 2 ^ 31 - 1 := by decide
    omega
  rw [Int32.toInt64_ofNat' hle, Int64.toUInt64_ofNat', UInt64.toNat_ofNat']
  exact Nat.mod_eq_of_lt (by omega)

/-- The loop with an `int` makes as many rounds as the count says. -/
theorem whileChunks_ofNat (k data : Nat) (hk : k < 2 ^ 31) :
    whileChunks C v (Int32.ofNat k) data =
      (chunkLoop C (handshake v) 0 k data, data + k * C) := by
  -- by induction on the rounds left
  induction k generalizing data with
  | zero =>
      rw [whileChunks, if_pos ((ofNat_eq_zero hk).2 rfl)]
      simp [chunkLoop]
  | succ k ih =>
      have hne : Int32.ofNat (k + 1) ≠ 0 := fun h => Nat.succ_ne_zero k ((ofNat_eq_zero hk).1 h)
      rw [whileChunks, if_neg hne, ofNat_succ_sub_one, ih _ (by omega), chunkLoop, Nat.succ_mul]
      refine Prod.ext rfl ?_
      simp only
      omega

/-- The last chunk comes behind the loop. -/
theorem chunkLoop_lastChunk {α : Type} (chunk : Nat → Nat → List α) (lastChunk k off : Nat) :
    chunkLoop C chunk lastChunk k off =
      chunkLoop C chunk 0 k off ++ if lastChunk = 0 then [] else chunk (off + k * C) lastChunk := by
  induction k generalizing off with
  | zero => simp [chunkLoop]
  | succ k ih =>
      have hshift : off + C + k * C = off + (k + 1) * C := by
        rw [Nat.succ_mul]
        omega
      rw [chunkLoop, chunkLoop, ih, hshift, List.append_assoc]

/-- Below `2 ^ 31` the functions are those of `Big.Model`, for one `memcpy` a chunk. -/
theorem transfer_eq_chunkLoop {length : UInt64} (h : length.toNat < 2 ^ 31) :
    transfer C v length =
      chunkLoop C (handshake v) (length.toNat % C) (length.toNat / C) 0 := by
  have hmod : length.toNat % C < 2 ^ 31 := Nat.lt_of_le_of_lt (Nat.mod_le _ _) h
  have hdiv : length.toNat / C < 2 ^ 31 := Nat.lt_of_le_of_lt (Nat.div_le_self _ _) h
  rw [chunkLoop_lastChunk]
  simp only [transfer, whileChunks_ofNat _ _ hdiv, ofNat_eq_zero hmod, ofNat_toUInt64 hmod]
  split
  · rw [List.append_nil]
  · rfl

end Exact

/-! ## The parts of the buffer -/

section Parts

variable {C : ℕ+} {length i : Nat}

/-- The part that chunk `i` carries: offset and length. -/
def chunkPart (C : ℕ+) (length i : Nat) : Nat × Nat :=
  (i * C, min ((i + 1) * C) length - i * C)

/-- The number of chunks is the quotient, rounded up. -/
theorem numChunks_eq_ceil : numChunks C length = (length + C - 1) / C := by
  have hC := C.pos
  have hdiv := Nat.div_add_mod length C
  have hlt := Nat.mod_lt length hC
  rw [numChunks]
  symm
  split
  case isTrue h =>
    refine Nat.div_eq_of_lt_le ?_ ?_
    · rw [Nat.add_zero, Nat.mul_comm]
      omega
    · rw [Nat.add_zero, Nat.succ_mul, Nat.mul_comm]
      omega
  case isFalse h =>
    refine Nat.div_eq_of_lt_le ?_ ?_
    · rw [Nat.succ_mul, Nat.mul_comm]
      omega
    · rw [Nat.succ_mul, Nat.succ_mul, Nat.mul_comm]
      omega

theorem lt_numChunks : i < numChunks C length ↔ i * C < length := by
  have hC := C.pos
  rw [numChunks_eq_ceil, Nat.lt_div_iff_mul_lt hC]
  omega

theorem length_le_numChunks_mul : length ≤ numChunks C length * C :=
  Nat.not_lt.1 fun h => Nat.lt_irrefl _ (lt_numChunks.2 h)

theorem block_chunkPart (hi : i < numChunks C length) :
    block (chunkPart C length i).1 (chunkPart C length i).2 =
      Set.Ico (min (i * C) length) (min ((i + 1) * C) length) := by
  have hlt := lt_numChunks.1 hi
  have hle : i * C ≤ (i + 1) * C := Nat.mul_le_mul_right C (Nat.le_succ i)
  rw [chunkPart, block, Nat.add_sub_cancel' (by omega), Nat.min_eq_left (Nat.le_of_lt hlt)]

theorem monotone_chunkEnd (C : ℕ+) (length : Nat) : Monotone fun i : Nat => min (i * C) length := by
  intro i j hij
  exact min_le_min_right length (Nat.mul_le_mul_right C hij)

/-- The parts are consecutive, from the start of the buffer to its end. -/
theorem biUnion_chunkPart (C : ℕ+) (length : Nat) :
    ⋃ i ∈ Set.Iio (numChunks C length), block (chunkPart C length i).1 (chunkPart C length i).2 =
      Set.Ico 0 length := by
  have hunion := biUnion_Ico_succ (monotone_chunkEnd C length) (numChunks C length)
  rw [Nat.zero_mul, Nat.zero_min, Nat.min_eq_right length_le_numChunks_mul] at hunion
  rw [← hunion]
  exact Set.iUnion₂_congr fun i hi => block_chunkPart hi

theorem pairwiseDisjoint_chunkPart (C : ℕ+) (length : Nat) :
    (Set.Iio (numChunks C length)).PairwiseDisjoint fun i =>
      block (chunkPart C length i).1 (chunkPart C length i).2 := by
  intro i hi j hj hij
  rw [Function.onFun, block_chunkPart hi, block_chunkPart hj]
  exact (monotone_chunkEnd C length).pairwise_disjoint_on_Ico_succ hij

/-- The loop of `Big.Model` takes the parts one after the other. -/
theorem chunkLoop_eq_range {α : Type} (chunk : Nat → Nat → List α) (length : Nat) :
    chunkLoop C chunk (length % C) (length / C) 0 =
      (List.range (numChunks C length)).flatMap fun i =>
        chunk (chunkPart C length i).1 (chunkPart C length i).2 := by
  have hdiv : length / C * C + length % C = length := by
    rw [Nat.mul_comm]
    exact Nat.div_add_mod length C
  -- the full chunks
  have hfull : ∀ k off, chunkLoop C chunk 0 k off =
      (List.range k).flatMap fun i => chunk (off + i * C) C := by
    intro k
    induction k with
    | zero =>
        intro off
        simp [chunkLoop]
    | succ k ih =>
        intro off
        have hshift : ∀ i, off + C + i * C = off + (i + 1) * C := by
          intro i
          rw [Nat.succ_mul]
          omega
        rw [chunkLoop, ih, List.range_succ_eq_map, List.flatMap_cons, List.flatMap_map]
        simp only [hshift, Nat.zero_mul, Nat.add_zero, Nat.succ_eq_add_one]
  have hparts : (List.range (length / C)).flatMap (fun i => chunk (0 + i * C) C) =
      (List.range (length / C)).flatMap fun i =>
        chunk (chunkPart C length i).1 (chunkPart C length i).2 := by
    refine List.flatMap_congr fun i hi => ?_
    have hend : (i + 1) * C ≤ length / C * C := Nat.mul_le_mul_right C (List.mem_range.1 hi)
    rw [chunkPart, Nat.min_eq_left (by omega), Nat.zero_add, Nat.succ_mul, Nat.add_sub_cancel_left]
  rw [chunkLoop_lastChunk, hfull, hparts, numChunks]
  split
  case isTrue h => rw [List.append_nil, Nat.add_zero]
  case isFalse h =>
    have hlt := Nat.mod_lt length C.pos
    have hmin : min ((length / C + 1) * C) length = length := by
      rw [Nat.succ_mul]
      omega
    have hlen : length - length / C * C = length % C := by omega
    rw [List.range_succ, List.flatMap_append, List.flatMap_singleton, chunkPart, hmin, hlen,
      Nat.zero_add]

end Parts

/-! ## Both sides -/

/-- How often the flag is waited for. -/
def flagWaits (ops : List ChunkOp) : Nat :=
  ops.countP fun op => match op with
    | .await _ => true
    | _ => false

/-- How often the flag is stored. -/
def flagStores (ops : List ChunkOp) : Nat :=
  ops.countP fun op => match op with
    | .store _ => true
    | _ => false

/-- The parts of the user's buffer that are copied. -/
def copies (ops : List ChunkOp) : List (Nat × Nat) :=
  ops.filterMap fun op => match op with
    | .memcpy off len => some (off, len)
    | _ => none

section Sides

variable {C : ℕ+} {v : Bool} {length : UInt64}

theorem transfer_eq_range (h : length.toNat < 2 ^ 31) :
    transfer C v length =
      (List.range (numChunks C length.toNat)).flatMap fun i =>
        handshake v (chunkPart C length.toNat i).1 (chunkPart C length.toNat i).2 := by
  rw [transfer_eq_chunkLoop h, chunkLoop_eq_range]

/-- What happens once in each handshake happens as often as there are chunks. -/
theorem countP_transfer (h : length.toNat < 2 ^ 31) {p : ChunkOp → Bool}
    (hp : ∀ off len, ((handshake v off len).filter p).length = 1) :
    (transfer C v length).countP p = numChunks C length.toNat := by
  rw [transfer_eq_chunkLoop h, List.countP_eq_length_filter,
    chunkLoop_hom rfl fun a b => List.filter_append a b]
  exact chunkLoop_length hp _ _ _

theorem flagWaits_transfer (h : length.toNat < 2 ^ 31) :
    flagWaits (transfer C v length) = numChunks C length.toNat :=
  countP_transfer h fun _ _ => rfl

theorem flagStores_transfer (h : length.toNat < 2 ^ 31) :
    flagStores (transfer C v length) = numChunks C length.toNat :=
  countP_transfer h fun _ _ => rfl

theorem copies_transfer (h : length.toNat < 2 ^ 31) :
    copies (transfer C v length) =
      (List.range (numChunks C length.toNat)).map (chunkPart C length.toNat) := by
  rw [transfer_eq_range h, copies, List.filterMap_flatMap, List.map_eq_flatMap]
  rfl

/-- The code of the two functions in `Big.Model` goes through the same parts. -/
theorem ssmpSendBigPlatf_eq_range {R : Type} (moves : Nat → List Piece) (dst : R)
    (data : List UInt8) :
    ssmpSendBigPlatf C moves dst data =
      ((List.range (numChunks C data.length)).flatMap fun i =>
        sendChunk moves ⟨dst, data, (chunkPart C data.length i).1, (chunkPart C data.length i).2⟩) ++
          [.ret] := by
  rw [ssmpSendBigPlatf, chunkLoop_eq_range]

theorem ssmpRecvFromBigPlatf_eq_range (moves : Nat → List Piece) (length : Nat) :
    ssmpRecvFromBigPlatf C moves length =
      ((List.range (numChunks C length)).flatMap fun i =>
        recvChunk moves (chunkPart C length i).1 (chunkPart C length i).2) ++ [.ret length] := by
  rw [ssmpRecvFromBigPlatf, chunkLoop_eq_range]

/-- Below `2 ^ 31` sender and receiver pass the flag equally often, once for each chunk, and copy the
same parts, which are not empty, share no byte and make up the buffer. -/
theorem chunk_tiling (C : ℕ+) (length : UInt64) (h : length.toNat < 2 ^ 31) :
    let n := (length.toNat + C - 1) / C
    flagWaits (ssmpSendBigOps C length) = n ∧ flagStores (ssmpSendBigOps C length) = n ∧
      flagWaits (ssmpRecvFromBigOps C length) = n ∧ flagStores (ssmpRecvFromBigOps C length) = n ∧
      copies (ssmpSendBigOps C length) = (List.range n).map (chunkPart C length.toNat) ∧
      copies (ssmpRecvFromBigOps C length) = (List.range n).map (chunkPart C length.toNat) ∧
      (∀ i < n, block (chunkPart C length.toNat i).1 (chunkPart C length.toNat i).2 =
        Set.Ico (i * C : Nat) (min ((i + 1) * C) length.toNat) ∧ (chunkPart C length.toNat i).2 ≠ 0) ∧
      ⋃ i ∈ Set.Iio n, block (chunkPart C length.toNat i).1 (chunkPart C length.toNat i).2 =
        Set.Ico 0 length.toNat ∧
      ((Set.Iio n).PairwiseDisjoint fun i =>
        block (chunkPart C length.toNat i).1 (chunkPart C length.toNat i).2) ∧
      ((C : Nat) ∣ length.toNat → n = length.toNat / C) := by
  intro n
  have hn : n = numChunks C length.toNat := numChunks_eq_ceil.symm
  rw [hn]
  refine ⟨flagWaits_transfer h, flagStores_transfer h, flagWaits_transfer h, flagStores_transfer h,
    copies_transfer h, copies_transfer h, ?_, biUnion_chunkPart C _,
    pairwiseDisjoint_chunkPart C _, ?_⟩
  · intro i hi
    have hlt := lt_numChunks.1 hi
    have hC := C.pos
    refine ⟨?_, ?_⟩
    · rw [block_chunkPart hi, Nat.min_eq_left (Nat.le_of_lt hlt)]
    · simp only [chunkPart, Nat.succ_mul]
      omega
  · intro hdvd
    rw [numChunks, if_pos (Nat.mod_eq_zero_of_dvd hdvd), Nat.add_zero]

theorem chunk_tiling_two :
    (16384 : UInt64).toNat < 2 ^ 31 ∧
      copies (ssmpSendBigOps ssmpChunkSize 16384) = copies (ssmpRecvFromBigOps ssmpChunkSize 16384) := by
  have h := chunk_tiling ssmpChunkSize 16384 (by decide)
  exact ⟨by decide, h.2.2.2.2.1.trans h.2.2.2.2.2.1.symm⟩

end Sides

end Big
end Ssmp
