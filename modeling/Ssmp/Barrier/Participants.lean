import Mathlib
import Ssmp.Barrier.Progress
import Ssmp.Tile.Barrier

/-!
# Barrier.Participants — how many processes a barrier waits for

Two ways to name the participants, with a limit each.  The bitmap has 64 bits, so a barrier as
`ssmp_init` leaves it has the processes below 64 (`default_barrier`).  The values of a color
function are added up, while a process takes part if its value is not 0, and the barrier on the
Tilera counts these: the numbers agree if and only if the values that are not 0 add up to their
number (`num_part_iff`).
-/

namespace Ssmp
namespace Barrier

open Lib

/-! ## The default barrier -/

section Default

variable {n b : Nat} {barriers : Nat → SsmpBarrier} {todo : Fin n → List Nat} {s : State n}

theorem bit_eq_false (participants : UInt64) {id : Nat} (hid : 64 ≤ id) :
    bit participants id = false :=
  BitVec.getLsbD_of_ge _ _ hid

theorem default_member (hb : b < ssmpNumBarriers) (hone : b ≠ 1) (id : Nat) :
    (ssmpInitBarriers barriers b).member id = decide (id < 64) := by
  rw [initBarriers_eq hb hone]
  by_cases hid : id < 64
  · simpa [SsmpBarrier.member, hid] using bit_ones hid
  · simpa [SsmpBarrier.member, hid] using bit_eq_false _ (Nat.not_lt.1 hid)

theorem count_lt_64 (n : Nat) : Nat.count (fun id => id < 64) n = min n 64 := by
  induction n with
  | zero => rfl
  | succ n ih =>
      rw [Nat.count_succ, ih]
      by_cases hn : n < 64
      · simp only [hn, if_true]
        omega
      · simp only [hn, if_false]
        omega

theorem default_card (hb : b < ssmpNumBarriers) (hone : b ≠ 1) :
    Fintype.card (Part (ssmpInitBarriers barriers b) n) = min n 64 := by
  rw [← count_member, ← count_lt_64]
  simp [default_member hb hone]

end Default

/-- A barrier as `ssmp_init` leaves it has the processes below 64 as its participants, as many as
there are.  None of them returns from its `k`-th wait before all of them have entered theirs, and
the other processes return at once. -/
theorem default_barrier {n b : Nat} {barriers : Nat → SsmpBarrier} {todo : Fin n → List Nat}
    {s : State n} (hn : n < 2 ^ 31) (hb : b < ssmpNumBarriers) (hone : b ≠ 1)
    (h : (system (ssmpInitBarriers barriers) todo).Reachable s) :
    (∀ p : Fin n, s.callPc p b =
        if p.val < 64 then .waitClear b (UInt32.ofNat (min n 64)) else .ret b) ∧
      (∀ p q : Fin n, p.val < 64 → q.val < 64 →
        (s.returned p).count b ≤ (s.arrived q).count b) ∧
      ∀ p : Fin n, 64 ≤ p.val → b ∉ s.arrived p := by
  have hcounted : (ssmpInitBarriers barriers b).Counted n := (initBarriers_ready hb).counted
  rcases inv_of_counted hn hb hcounted h with ⟨hw, hi⟩
  have hmember : ∀ p : Fin n, p.val < 64 → (ssmpInitBarriers barriers b).member p = true := by
    intro p hp
    simp [default_member hb hone, hp]
  refine ⟨?_, ?_, ?_⟩
  · intro p
    rw [callPc_eq hw hcounted.counts hb, default_card hb hone, default_member hb hone]
    by_cases hp : p.val < 64 <;> simp [hp]
  · intro p q hp hq
    exact hi.completed_le ⟨p, hmember p hp⟩ ⟨q, hmember q hq⟩
  · intro p hp
    exact not_arrived hn hb hcounted h (by simp [default_member hb hone, hp])

/-- Two processes: the number is 2. -/
theorem default_barrier_two :
    afterReturn.callPc 0 0 = .waitClear 0 2 ∧
      (afterReturn.returned 0).count 0 ≤ (afterReturn.arrived 1).count 0 := by
  have hreach : (system (ssmpInitBarriers fun _ => ⟨0, none, 7, 7⟩)
      (fun _ : Fin 2 => [0, 0])).Reachable afterReturn :=
    reachable_run (TransSys.Reachable.init (State.init_fresh _ _)) _
  have hdefault := default_barrier (b := 0) (by decide) (by decide) (by decide) hreach
  exact ⟨hdefault.1 0, hdefault.2.1 0 1 (by decide) (by decide)⟩

/-- Process 64 of 65, which has returned from a wait on barrier 0 that nobody else has begun. -/
def strangerReturned : State 65 :=
  (State.fresh (ssmpInitBarriers fun _ => ⟨0, none, 7, 7⟩) fun _ => [0]).run [64, 64]

theorem default_barrier_65 :
    (system (ssmpInitBarriers fun _ => ⟨0, none, 7, 7⟩) fun _ : Fin 65 => [0]).Reachable
        strangerReturned ∧
      (ssmpInitBarriers (fun _ => ⟨0, none, 7, 7⟩) 0).member 64 = false ∧
      strangerReturned.callPc 0 0 = .waitClear 0 64 ∧
      (strangerReturned.returned 64).count 0 = 1 ∧ (strangerReturned.arrived 0).count 0 = 0 :=
  ⟨reachable_run (TransSys.Reachable.init (State.init_fresh _ _)) _, by decide +kernel,
    by decide +kernel, by decide +kernel, by decide +kernel⟩

/-! ## The sum of the colors -/

/-- The sum of the values of a color function, as `num_part` adds them up. -/
def colorSum (col : Nat → Int32) (rest src : Nat) : UInt32 :=
  ((List.range' src rest).map fun id => (col id).toUInt32).sum

section Colors

variable {n b : Nat} {participants : UInt64} {col : Nat → Int32}
variable {barriers : Nat → SsmpBarrier} {todo : Fin n → List Nat} {s : State n}

theorem colorSum_succ (rest src : Nat) :
    colorSum col (rest + 1) src = (col src).toUInt32 + colorSum col rest (src + 1) := by
  simp [colorSum, List.range'_succ]

theorem colorSum_zero (rest src : Nat) (h : ∀ id, src ≤ id → id < src + rest → col id = 0) :
    colorSum col rest src = 0 := by
  induction rest generalizing src with
  | zero => rfl
  | succ rest ih =>
      have hhead : col src = 0 := h src (Nat.le_refl src) (by omega)
      have htail : colorSum col rest (src + 1) = 0 :=
        ih (src + 1) fun id hle hlt => h id (by omega) (by omega)
      rw [colorSum_succ, hhead, htail]
      rfl

/-- Adding the color to `num_part` adds the value as it is, up to a multiple of `2 ^ 32`. -/
theorem color_modEq (c : Int32) : (c.toUInt32.toNat : Int) ≡ c.toInt [ZMOD 2 ^ 32] := by
  have hint : c.toInt = (c.toUInt32.toNat : Int).bmod (2 ^ 32) :=
    BitVec.toInt_eq_toNat_bmod c.toBitVec
  have hmod : (c.toUInt32.toNat : Int).bmod (2 ^ 32) % (2 ^ 32 : Nat) =
      c.toUInt32.toNat % (2 ^ 32 : Nat) := Int.bmod_emod
  rw [Int.ModEq, hint]
  exact hmod.symm

theorem colorSum_modEq (col : Nat → Int32) (rest src : Nat) :
    ((colorSum col rest src).toNat : Int) ≡
      ∑ k ∈ Finset.range rest, (col (src + k)).toInt [ZMOD 2 ^ 32] := by
  induction rest generalizing src with
  | zero => simp [colorSum]
  | succ rest ih =>
      have htail : ∑ k ∈ Finset.range rest, (col (src + (k + 1))).toInt =
          ∑ k ∈ Finset.range rest, (col (src + 1 + k)).toInt := by
        refine Finset.sum_congr rfl ?_
        intro k _
        rw [Nat.add_right_comm, Nat.add_assoc]
      have hadd : ((colorSum col (rest + 1) src).toNat : Int) ≡
          (col src).toUInt32.toNat + (colorSum col rest (src + 1)).toNat [ZMOD 2 ^ 32] := by
        rw [colorSum_succ, UInt32.toNat_add]
        push_cast
        exact Int.mod_modEq _ _
      rw [Finset.sum_range_succ', htail, add_comm (Finset.sum _ _)]
      exact hadd.trans ((color_modEq _).add (ih (src + 1)))

/-- The sum is that of the integers, up to a multiple of `2 ^ 32`. -/
theorem colorSum_eq_iff (hn : n < 2 ^ 31) {k : Nat} (hk : k ≤ n) :
    colorSum col n 0 = UInt32.ofNat k ↔ ∑ p : Fin n, (col p).toInt ≡ k [ZMOD 2 ^ 32] := by
  have hsum : ((colorSum col n 0).toNat : Int) ≡ ∑ p : Fin n, (col p).toInt [ZMOD 2 ^ 32] := by
    have h := colorSum_modEq col n 0
    rw [Finset.sum_range] at h
    simpa only [Nat.zero_add] using h
  have hk' : (UInt32.ofNat k).toNat = k := by
    simp only [UInt32.toNat_ofNat']
    exact Nat.mod_eq_of_lt (by omega)
  constructor
  · intro heq
    rw [heq, hk'] at hsum
    exact hsum.symm
  · intro hmod
    -- both are below `2 ^ 32`
    have hcongr := hsum.trans hmod
    have hlt := (colorSum col n 0).toNat_lt
    have hval : (colorSum col n 0).toNat = k := by
      have hnat : (colorSum col n 0).toNat ≡ k [MOD 2 ^ 32] :=
        Int.natCast_modEq_iff.1 (by simpa using hcongr)
      exact Nat.ModEq.eq_of_lt_of_lt hnat hlt (by omega)
    rw [← UInt32.toNat_inj, hval, hk']

/-- The loop for any color function: it returns at process `id` if the color of `id` is 0, and
otherwise adds up the colors. -/
theorem countParticipants_color (id rest src : Nat) (bpar : UInt64) (numPart : UInt32) :
    countParticipants id (some col) rest src bpar numPart =
      if src ≤ id ∧ id < src + rest ∧ col id = 0 then none
      else some (numPart + colorSum col rest src) := by
  -- by induction on the iterations left
  induction rest generalizing src numPart with
  | zero =>
      have hnot : ¬ (src ≤ id ∧ id < src + 0 ∧ col id = 0) := by omega
      rw [if_neg hnot]
      simp [countParticipants, colorSum]
  | succ rest ih =>
      have hsum : numPart + colorSum col (rest + 1) src =
          numPart + (col src).toUInt32 + colorSum col rest (src + 1) := by
        rw [colorSum_succ, UInt32.add_assoc]
      rw [countParticipants, ih, hsum]
      by_cases hhere : src = id ∧ col src = 0
      · have hpast : src ≤ id ∧ id < src + (rest + 1) ∧ col id = 0 :=
          ⟨by omega, by omega, hhere.1 ▸ hhere.2⟩
        rw [if_pos hhere, if_pos hpast]
      · have hiff : (src + 1 ≤ id ∧ id < src + 1 + rest ∧ col id = 0) ↔
            (src ≤ id ∧ id < src + (rest + 1) ∧ col id = 0) := by
          constructor
          · rintro ⟨hle, hlt, hzero⟩
            exact ⟨by omega, by omega, hzero⟩
          · rintro ⟨hle, hlt, hzero⟩
            have hne : src ≠ id := fun heq => hhere ⟨heq, heq ▸ hzero⟩
            exact ⟨by omega, by omega, hzero⟩
        rw [if_neg hhere]
        simp only [hiff]

/-- What a process finds out at the start of a call, for any color function. -/
theorem countParticipants_color_call (p : Fin n) (bpar : UInt64) :
    countParticipants p (some col) n 0 bpar 0 =
      if col p = 0 then none else some (colorSum col n 0) := by
  rw [countParticipants_color]
  simp

/-- The processes that do not take the early return. -/
def entering (n : Nat) (col : Nat → Int32) (bpar : UInt64) : Finset (Fin n) :=
  Finset.univ.filter fun p => countParticipants p (some col) n 0 bpar 0 ≠ none

theorem entering_eq (bpar : UInt64) : entering n col bpar = Tile.members n col := by
  ext p
  by_cases hzero : col p = 0 <;>
    simp [entering, Tile.members, countParticipants_color_call, hzero]

theorem color_member (hb : b < ssmpNumBarriers) (id : Nat) :
    (ssmpBarrierInitPlatf b participants (some col) barriers b).member id = (col id != 0) := by
  rw [init_self hb]
  rfl

theorem color_card (hb : b < ssmpNumBarriers) :
    Fintype.card (Part (ssmpBarrierInitPlatf b participants (some col) barriers b) n) =
      (Tile.members n col).card := by
  rw [Fintype.card_subtype, Tile.members]
  simp [color_member hb]

/-- The numbers agree: the barrier is one at which every process finds the right number. -/
theorem color_counted (hb : b < ssmpNumBarriers)
    (hsum : colorSum col n 0 = UInt32.ofNat (Tile.members n col).card) :
    (ssmpBarrierInitPlatf b participants (some col) barriers b).Counted n := by
  refine ⟨?_, by rw [init_self hb], by rw [init_self hb]⟩
  intro p
  rw [color_card hb, color_member hb, ← hsum, init_self hb]
  simp only [countParticipants_color_call]
  by_cases hzero : col p = 0 <;> simp [hzero]

/-- Every process that enters a wait has found the number of those that do, and it is the number
that the Tilera counts. -/
def NumPartAgrees (n : Nat) (col : Nat → Int32) (bpar : UInt64) : Prop :=
  ∀ p : Fin n, col p ≠ 0 → ∃ numPart : UInt32,
    countParticipants p (some col) n 0 bpar 0 = some numPart ∧
      numPart.toNat = (entering n col bpar).card ∧
      Tile.countParticipants (some col) n 0 0 = some numPart

theorem numPartAgrees_iff (hn : n < 2 ^ 31) (bpar : UInt64) :
    NumPartAgrees n col bpar ↔ colorSum col n 0 = UInt32.ofNat (Tile.members n col).card := by
  constructor
  · intro hagrees
    by_cases hsome : ∃ p : Fin n, col p ≠ 0
    · rcases hsome with ⟨p, hp⟩
      rcases hagrees p hp with ⟨numPart, hcall, _, htile⟩
      rw [countParticipants_color_call, if_neg hp] at hcall
      rw [Tile.countParticipants_call] at htile
      rw [Option.some.inj hcall, Option.some.inj htile]
    · -- without a participant both numbers are 0
      push Not at hsome
      have hmembers : Tile.members n col = ∅ := by
        ext p
        simp [Tile.members, hsome p]
      have hsum : colorSum col n 0 = 0 := by
        refine colorSum_zero n 0 ?_
        intro id _ hid
        exact hsome ⟨id, by simpa using hid⟩
      simp [hsum, hmembers]
  · intro hsum p hp
    refine ⟨colorSum col n 0, ?_, ?_, ?_⟩
    · rw [countParticipants_color_call, if_neg hp]
    · rw [hsum, entering_eq]
      exact Tile.members_card_toNat hn
    · rw [Tile.countParticipants_call, hsum]

end Colors

/-- For any color function: the number that every participant computes is that of the processes
that do not return early and that which the Tilera counts, the barrier waits for exactly the
processes whose color is not 0, and nobody gets stuck when all call it equally often, if and only if
the colors that are not 0 add up to their number, up to a multiple of `2 ^ 32`. -/
theorem num_part_iff {n b : Nat} (hn : n < 2 ^ 31) (hb : b < ssmpNumBarriers)
    (participants : UInt64) (col : Nat → Int32) (barriers : Nat → SsmpBarrier) :
    (NumPartAgrees n col (ssmpBarrierInitPlatf b participants (some col) barriers b).participants ∧
        (∀ (todo : Fin n → List Nat) (s : State n),
          (system (ssmpBarrierInitPlatf b participants (some col) barriers) todo).Reachable s →
            Gathers (fun p => col p != 0) b s) ∧
        ∀ (k : Nat) (s : State n),
          (system (ssmpBarrierInitPlatf b participants (some col) barriers)
            fun _ => List.replicate k b).Reachable s →
            (∃ p, ¬ s.Finished p) → ∃ p, s.step p ≠ s) ↔
      ∑ p : Fin n, (col p).toInt ≡
        (Finset.univ.filter fun p : Fin n => col p ≠ 0).card [ZMOD 2 ^ 32] := by
  have hcard : (Tile.members n col).card ≤ n := by
    simpa using Finset.card_le_univ (Tile.members n col)
  have hiff := @colorSum_eq_iff n col hn _ hcard
  constructor
  · rintro ⟨hagrees, _⟩
    exact hiff.1 ((numPartAgrees_iff hn _).1 hagrees)
  · intro hmod
    have hsum : colorSum col n 0 = UInt32.ofNat (Tile.members n col).card := hiff.2 hmod
    have hcounted : (ssmpBarrierInitPlatf b participants (some col) barriers b).Counted n :=
      color_counted hb hsum
    refine ⟨(numPartAgrees_iff hn _).2 hsum, ?_, ?_⟩
    · intro todo s hreach
      have hgathers := gathers_of_counted hn hb hcounted hreach
      simpa only [color_member hb] using hgathers
    · intro k s hreach hunfinished
      refine exists_step hn ?_ hreach hunfinished
      intro b' hb' _
      rw [List.eq_of_mem_replicate hb']
      exact hcounted

/-- Processes 1 and 2 of three at a barrier with `ssmp_color_app`. -/
def colorAppInside : State 3 :=
  (State.fresh (ssmpBarrierInitPlatf 1 0 (some ssmpColorApp) fun _ => ⟨0, none, 7, 7⟩)
    fun _ => [1]).run [0, 0, 1, 1, 1, 2, 2]

theorem num_part_color_app : Gathers (fun p => ssmpColorApp p != 0) 1 colorAppInside := by
  have hiff := num_part_iff (n := 3) (b := 1) (by decide) (by decide) 0 ssmpColorApp
    fun _ => ⟨0, none, 7, 7⟩
  exact (hiff.2 (by decide)).2.1 (fun _ => [1]) colorAppInside
    (reachable_run (TransSys.Reachable.init (State.init_fresh _ _)) _)

/-- Two processes of color 2 wait for four. -/
theorem num_part_twos :
    countParticipants 0 (some fun _ => 2) 2 0 0xFFFFFFFFFFFFFFFF 0 = some 4 ∧
      Tile.countParticipants (some fun _ => 2) 2 0 0 = some 2 ∧
      (entering 2 (fun _ => 2) 0xFFFFFFFFFFFFFFFF).card = 2 ∧
      ¬ NumPartAgrees 2 (fun _ => 2) 0xFFFFFFFFFFFFFFFF := by
  refine ⟨by decide, by decide, by decide, ?_⟩
  rw [numPartAgrees_iff (by decide)]
  decide

end Barrier
end Ssmp
