import Mathlib.Data.Nat.Count
import Mathlib.Data.Fintype.Card
import Mathlib.Data.Fintype.Fin
import Ssmp.Lib.TransSys

/-!
# Barrier.Model — `ssmp_barrier_init` and `ssmp_barrier_wait`

The barriers are shared records with a counter, `ticket`, and a flag, `cleared`.  The code is the
same on x86 and SPARC (`src/arch/x86/ssmp_arch.c`, `src/arch/sparc/ssmp_arch.c`).

Every process makes a sequence of calls of `ssmp_barrier_wait`.  One step is one access to `ticket`
or `cleared`; the loop that counts the participants reads fields that nobody changes, so it is part
of the step that begins a call.
-/

namespace Ssmp
namespace Barrier

open Lib

/-! ## The records -/

/-- `SSMP_NUM_BARRIERS` -/
def ssmpNumBarriers : Nat := 16

/-- `ssmp_barrier_t`. -/
structure SsmpBarrier where
  /-- The participants as bits. -/
  participants : UInt64
  /-- The participants as a function, which has priority; `none` is `NULL`. -/
  color : Option (Nat → Int32)
  ticket : UInt32
  cleared : UInt32

/-- The argument `participants` is not used: the record gets the bitmap of all ones. -/
def ssmpBarrierInitPlatf (barrierNum : Nat) (_participants : UInt64)
    (color : Option (Nat → Int32)) (barriers : Nat → SsmpBarrier) : Nat → SsmpBarrier :=
  if barrierNum ≥ ssmpNumBarriers then barriers
  else
    Function.update barriers barrierNum
      -- the argument is dropped here, on both architectures
      { participants := 0xFFFFFFFFFFFFFFFF, color := color, ticket := 0, cleared := 0 }

/-- `ssmp_color_app` -/
def ssmpColorApp (id : Nat) : Int32 :=
  if id % 3 ≠ 0 then 1 else 0

/-- The barriers as `ssmp_init_platf` leaves them. -/
def ssmpInitBarriers (barriers : Nat → SsmpBarrier) : Nat → SsmpBarrier :=
  ssmpBarrierInitPlatf 1 0xFFFFFFFFFFFFFFFF (some ssmpColorApp)
    ((List.range ssmpNumBarriers).foldl
      (fun barriers bar => ssmpBarrierInitPlatf bar 0xFFFFFFFFFFFFFFFF none barriers) barriers)

/-! ## The participants -/

/-- The loop over `from` in `ssmp_barrier_wait_platf`, with `rest` iterations left: the number of
participants, or `none` where process `id` returns because it is not one of them. -/
def countParticipants (id : Nat) (color : Option (Nat → Int32)) :
    Nat → Nat → UInt64 → UInt32 → Option UInt32
  | 0, _, _, numPart => some numPart
  | rest + 1, src, bpar, numPart =>
      match color with
      | some col =>
          if src = id ∧ col src = 0 then none
          else countParticipants id color rest (src + 1) bpar (numPart + (col src).toUInt32)
      | none =>
          -- bit 0 of the shifted bitmap is the bit of process `src`
          let isPart := (bpar &&& 1).toUInt32
          if id = src ∧ isPart = 0 then none
          else countParticipants id color rest (src + 1) (bpar >>> 1) (numPart + isPart)

/-- Bit `id` of a bitmap. -/
def bit (participants : UInt64) (id : Nat) : Bool :=
  participants.toBitVec.getLsbD id

namespace SsmpBarrier

/-- Process `id` is a participant of the barrier. -/
def member (b : SsmpBarrier) (id : Nat) : Bool :=
  match b.color with
  | some col => col id != 0
  | none => bit b.participants id

/-- The color function has no values but 0 and 1. -/
def BinaryColor (b : SsmpBarrier) (n : Nat) : Prop :=
  ∀ col, b.color = some col → ∀ id < n, col id = 0 ∨ col id = 1

/-- A barrier as `ssmp_barrier_init` leaves it, for `n` processes. -/
structure Ready (b : SsmpBarrier) (n : Nat) : Prop where
  binary : b.BinaryColor n
  ticket : b.ticket = 0
  cleared : b.cleared = 0

end SsmpBarrier

section Count

variable {b : SsmpBarrier} {n id rest src : Nat} {bpar : UInt64} {numPart : UInt32}

theorem and_one (x : UInt64) : (x &&& 1).toUInt32 = if bit x 0 then 1 else 0 := by
  apply UInt32.toBitVec_inj.1
  apply BitVec.eq_of_getLsbD_eq
  intro i hi
  cases hbit : bit x 0 with
  | true =>
      by_cases h0 : i = 0
      · subst h0
        simpa [bit] using hbit
      · simp [h0]
  | false =>
      by_cases h0 : i = 0
      · subst h0
        simpa [bit, BitVec.getLsbD_eq_getElem] using hbit
      · simp [h0]

/-- `bpar` is the bitmap shifted to the bit of process `src`. -/
def Shifted (b : SsmpBarrier) (src : Nat) (bpar : UInt64) : Prop :=
  b.color = none → bpar.toBitVec = b.participants.toBitVec >>> src

theorem Shifted.succ (h : Shifted b src bpar) : Shifted b (src + 1) (bpar >>> 1) := by
  intro hnone
  simp [h hnone, BitVec.shiftRight_add]

theorem Shifted.part (h : Shifted b src bpar) (hnone : b.color = none) :
    (bpar &&& 1).toUInt32 = if b.member src then 1 else 0 := by
  have hbit : bit bpar 0 = b.member src := by
    simp [SsmpBarrier.member, hnone, bit, h hnone]
  rw [and_one, hbit]

theorem color_part {col : Nat → Int32} (hcol : b.color = some col)
    (hbin : col src = 0 ∨ col src = 1) :
    (col src).toUInt32 = (if b.member src then 1 else 0) ∧
      (col src = 0 ↔ b.member src = false) := by
  have hmem : b.member src = (col src != 0) := by simp [SsmpBarrier.member, hcol]
  rw [hmem]
  rcases hbin with h | h <;> rw [h] <;> decide

/-- One iteration: the loop counts process `src` if it is a participant. -/
theorem countParticipants_succ (hbin : b.BinaryColor n) (hsrc : src < n)
    (hbpar : Shifted b src bpar) :
    ∃ bpar', Shifted b (src + 1) bpar' ∧
      countParticipants id b.color (rest + 1) src bpar numPart =
        if src = id ∧ b.member src = false then none
        else countParticipants id b.color rest (src + 1) bpar'
          (numPart + if b.member src then 1 else 0) := by
  cases hcol : b.color with
  | some col =>
      rcases color_part hcol (hbin col hcol src hsrc) with ⟨hpart, hzero⟩
      refine ⟨bpar, fun hnone => by simp [hcol] at hnone, ?_⟩
      rw [countParticipants, hpart]
      simp only [hzero]
  | none =>
      have hpart := hbpar.part hcol
      refine ⟨bpar >>> 1, hbpar.succ, ?_⟩
      rw [countParticipants, hpart]
      cases hmem : b.member src <;> simp [eq_comm]

/-- Split off the first process. -/
theorem count_succ (numPart : UInt32) :
    numPart + (if b.member src then 1 else 0) +
        UInt32.ofNat (Nat.count (fun k => b.member (src + 1 + k) = true) rest) =
      numPart + UInt32.ofNat (Nat.count (fun k => b.member (src + k) = true) (rest + 1)) := by
  have hshift : (fun k => b.member (src + (k + 1)) = true) =
      fun k => b.member (src + 1 + k) = true := by
    funext k
    rw [Nat.add_right_comm, Nat.add_assoc]
  have hone : (if b.member src then (1 : UInt32) else 0) =
      UInt32.ofNat (if b.member src = true then 1 else 0) := by
    cases b.member src <;> rfl
  rw [Nat.count_succ', UInt32.ofNat_add, hone, UInt32.add_assoc,
    UInt32.add_comm (UInt32.ofNat (if b.member src = true then 1 else 0))]
  simp only [hshift, Nat.add_zero]

/-- The loop returns `none` if it comes past process `id` and this is no participant; otherwise it
counts the participants. -/
theorem countParticipants_eq (hbin : b.BinaryColor n) (hn : src + rest ≤ n)
    (hbpar : Shifted b src bpar) :
    countParticipants id b.color rest src bpar numPart =
      if src ≤ id ∧ id < src + rest ∧ b.member id = false then none
      else some (numPart + UInt32.ofNat (Nat.count (fun k => b.member (src + k) = true) rest)) := by
  -- by induction on the iterations left
  induction rest generalizing src bpar numPart with
  | zero =>
      have hnot : ¬ (src ≤ id ∧ id < src + 0 ∧ b.member id = false) := by omega
      rw [if_neg hnot]
      simp [countParticipants]
  | succ rest ih =>
      rcases countParticipants_succ hbin (by omega) hbpar with ⟨bpar', hbpar', hstep⟩
      rw [hstep, ih (by omega) hbpar', count_succ]
      -- either process `id` is met here, or the rest of the loop decides
      by_cases hhere : src = id ∧ b.member src = false
      · have hpast : src ≤ id ∧ id < src + (rest + 1) ∧ b.member id = false :=
          ⟨by omega, by omega, hhere.1 ▸ hhere.2⟩
        rw [if_pos hhere, if_pos hpast]
      · have hiff : (src + 1 ≤ id ∧ id < src + 1 + rest ∧ b.member id = false) ↔
            (src ≤ id ∧ id < src + (rest + 1) ∧ b.member id = false) := by
          constructor
          · rintro ⟨hle, hlt, hmem⟩
            exact ⟨by omega, by omega, hmem⟩
          · rintro ⟨hle, hlt, hmem⟩
            have hne : src ≠ id := fun heq => hhere ⟨heq, heq ▸ hmem⟩
            exact ⟨by omega, by omega, hmem⟩
        rw [if_neg hhere]
        simp only [hiff]

end Count

/-- The participants among `n` processes. -/
abbrev Part (b : SsmpBarrier) (n : Nat) : Type :=
  { p : Fin n // b.member p = true }

theorem count_fin (q : Nat → Prop) [DecidablePred q] (n : Nat) :
    Nat.count q n = (Finset.univ.filter fun p : Fin n => q p).card := by
  rw [Nat.count_eq_card_filter_range, ← Nat.Iio_eq_range, ← Fin.map_valEmbedding_univ,
    Finset.filter_map, Finset.card_map]
  rfl

theorem count_member (b : SsmpBarrier) (n : Nat) :
    Nat.count (fun k => b.member k = true) n = Fintype.card (Part b n) := by
  rw [count_fin, Fintype.card_subtype]

/-- Every process finds out at the start of a call whether it is a participant, and if so how many
there are. -/
def SsmpBarrier.Counts (b : SsmpBarrier) (n : Nat) : Prop :=
  ∀ p : Fin n, countParticipants p b.color n 0 b.participants 0 =
    if b.member p then some (UInt32.ofNat (Fintype.card (Part b n))) else none

theorem counts_of_binary {b : SsmpBarrier} {n : Nat} (hbin : b.BinaryColor n) : b.Counts n := by
  intro p
  have hshifted : Shifted b 0 b.participants := fun _ => by simp
  rw [countParticipants_eq hbin (by omega) hshifted]
  simp only [Nat.zero_add, count_member]
  cases hmem : b.member p <;> simp

/-- An empty barrier at which every process finds the right number of participants. -/
structure SsmpBarrier.Counted (b : SsmpBarrier) (n : Nat) : Prop where
  counts : b.Counts n
  ticket : b.ticket = 0
  cleared : b.cleared = 0

theorem SsmpBarrier.Ready.counted {b : SsmpBarrier} {n : Nat} (h : b.Ready n) : b.Counted n :=
  ⟨counts_of_binary h.binary, h.ticket, h.cleared⟩

/-! ## The system -/

/-- Where a process is in `ssmp_barrier_wait_platf(b)`. -/
inductive Pc where
  | idle
  /-- `while (b->cleared == 1)` -/
  | waitClear (b : Nat) (numPart : UInt32)
  /-- `my_ticket = __sync_add_and_fetch(&b->ticket, 1);` and the comparison with `num_part` -/
  | addTicket (b : Nat) (numPart : UInt32)
  /-- `b->cleared = 1;` -/
  | setCleared (b : Nat)
  /-- `while (b->cleared == 0)` -/
  | waitSet (b : Nat)
  /-- `my_ticket = __sync_sub_and_fetch(&b->ticket, 1);` and the comparison with 0 -/
  | subTicket (b : Nat)
  /-- `b->cleared = 0;` -/
  | resetCleared (b : Nat)
  | ret (b : Nat)
  deriving DecidableEq

/-- The barrier of the call a process is in. -/
def Pc.current : Pc → Option Nat
  | idle => none
  | waitClear b _ | addTicket b _ | setCleared b | waitSet b | subTicket b | resetCleared b | ret b =>
      some b

/-- The barriers, the calls each process has left and where it is in its call.  The last two fields
record the barriers whose `ticket` each process has incremented and those of the calls it has
returned from. -/
structure State (n : Nat) where
  barrier : Nat → SsmpBarrier
  todo : Fin n → List Nat
  pc : Fin n → Pc
  arrived : Fin n → List Nat
  returned : Fin n → List Nat

namespace State

variable {n : Nat}

def setPc (s : State n) (p : Fin n) (pc : Pc) : State n :=
  { s with pc := Function.update s.pc p pc }

def setBarrier (s : State n) (b : Nat) (rec : SsmpBarrier) : State n :=
  { s with barrier := Function.update s.barrier b rec }

/-- Where a call of `ssmp_barrier_wait_platf(b)` by process `p` begins. -/
def callPc (s : State n) (p : Fin n) (b : Nat) : Pc :=
  -- an argument out of range makes the call return at once
  if b ≥ ssmpNumBarriers then .ret b
  else
    match countParticipants p (s.barrier b).color n 0 (s.barrier b).participants 0 with
    | none => .ret b
    | some numPart => .waitClear b numPart

/-- One step of process `p`.  A failed wait leaves the state as it is. -/
def step (s : State n) (p : Fin n) : State n :=
  match s.pc p with
  | .idle =>
      match s.todo p with
      | [] => s
      | b :: todo => { s.setPc p (s.callPc p b) with todo := Function.update s.todo p todo }
  -- a barrier that is still being left from the round before
  | .waitClear b numPart =>
      if (s.barrier b).cleared = 1 then s else s.setPc p (.addTicket b numPart)
  | .addTicket b numPart =>
      let myTicket := (s.barrier b).ticket + 1
      { (s.setBarrier b { s.barrier b with ticket := myTicket }).setPc p
          -- who comes last does not wait, but sets the flag
          (if myTicket = numPart then .setCleared b else .waitSet b) with
        arrived := Function.update s.arrived p (s.arrived p ++ [b]) }
  | .setCleared b =>
      (s.setBarrier b { s.barrier b with cleared := 1 }).setPc p (.waitSet b)
  | .waitSet b =>
      if (s.barrier b).cleared = 0 then s else s.setPc p (.subTicket b)
  | .subTicket b =>
      let myTicket := (s.barrier b).ticket - 1
      (s.setBarrier b { s.barrier b with ticket := myTicket }).setPc p
        -- who leaves last resets the flag for the next round
        (if myTicket = 0 then .resetCleared b else .ret b)
  | .resetCleared b =>
      (s.setBarrier b { s.barrier b with cleared := 0 }).setPc p (.ret b)
  | .ret b =>
      { s.setPc p .idle with returned := Function.update s.returned p (s.returned p ++ [b]) }

/-- The steps of a schedule, one after the other. -/
def run (s : State n) (schedule : List (Fin n)) : State n :=
  schedule.foldl State.step s

/-- Process `p` is to make the calls `todo p` on the barriers `barriers`. -/
structure Init (barriers : Nat → SsmpBarrier) (todo : Fin n → List Nat) (s : State n) : Prop where
  barrier : s.barrier = barriers
  todo : s.todo = todo
  pc : ∀ p, s.pc p = .idle
  arrived : ∀ p, s.arrived p = []
  returned : ∀ p, s.returned p = []

def fresh (barriers : Nat → SsmpBarrier) (todo : Fin n → List Nat) : State n where
  barrier := barriers
  todo := todo
  pc _ := .idle
  arrived _ := []
  returned _ := []

theorem init_fresh (barriers : Nat → SsmpBarrier) (todo : Fin n → List Nat) :
    (fresh barriers todo).Init barriers todo :=
  ⟨rfl, rfl, fun _ => rfl, fun _ => rfl, fun _ => rfl⟩

end State

/-- The processes under any interleaving. -/
def system {n : Nat} (barriers : Nat → SsmpBarrier) (todo : Fin n → List Nat) :
    TransSys (State n) (Fin n) where
  init := State.Init barriers todo
  step s p t := t = s.step p

theorem reachable_run {n : Nat} {barriers : Nat → SsmpBarrier} {todo : Fin n → List Nat}
    {s : State n} (h : (system barriers todo).Reachable s) (schedule : List (Fin n)) :
    (system barriers todo).Reachable (s.run schedule) := by
  induction schedule generalizing s with
  | nil => exact h
  | cons p schedule ih => exact ih (TransSys.Reachable.step h rfl)

end Barrier
end Ssmp
