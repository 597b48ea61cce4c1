import Ssmp.Barrier.Phases

/-!
# Barrier.Rounds — who waits for whom

The rounds of a barrier keep its participants together, whatever the others do and whatever other
barriers they use (`rounds_safe`).  Who the participants are is another matter:
`ssmp_barrier_init` does not store its bitmap, so a barrier without a color function waits for every
process below 64 (`init_waits_iff`).
-/

namespace Ssmp
namespace Barrier

open Lib
open PhaseBarrier (Stage Inv)

/-! ## Barriers after initialisation -/

section Init

variable {participants : UInt64} {color : Option (Nat → Int32)} {barriers : Nat → SsmpBarrier}
variable {b n : Nat}

theorem init_self (hb : b < ssmpNumBarriers) :
    ssmpBarrierInitPlatf b participants color barriers b =
      { participants := 0xFFFFFFFFFFFFFFFF, color := color, ticket := 0, cleared := 0 } := by
  rw [ssmpBarrierInitPlatf, if_neg (by omega), Function.update_self]

theorem init_ready (hb : b < ssmpNumBarriers)
    (hcolor : ∀ col, color = some col → ∀ id < n, col id = 0 ∨ col id = 1) :
    (ssmpBarrierInitPlatf b participants color barriers b).Ready n := by
  rw [init_self hb]
  exact ⟨hcolor, rfl, rfl⟩

theorem init_other {b' : Nat} (h : b ≠ b') :
    ssmpBarrierInitPlatf b' participants color barriers b = barriers b := by
  rw [ssmpBarrierInitPlatf]
  split
  · rfl
  · exact Function.update_of_ne h _ _

/-- Barriers stay ready when one of them is given a color function. -/
theorem ready_init (bar : Nat) (participants : UInt64) {col : Nat → Int32}
    (hcol : ∀ id, col id = 0 ∨ col id = 1)
    (h : ∀ b < ssmpNumBarriers, (barriers b).Ready n) :
    ∀ b < ssmpNumBarriers, (ssmpBarrierInitPlatf bar participants (some col) barriers b).Ready n := by
  intro b hb
  by_cases hbar : b = bar
  · subst hbar
    refine init_ready hb ?_
    rintro col' hcol' id _
    rw [← Option.some.inj hcol']
    exact hcol id
  · rw [init_other hbar]
    exact h b hb

theorem ready_color (bar : Nat) (participants : UInt64) (color : Nat → Bool)
    (h : ∀ b < ssmpNumBarriers, (barriers b).Ready n) :
    ∀ b < ssmpNumBarriers, (ssmpBarrierInitPlatf bar participants
      (some fun id => if color id then 1 else 0) barriers b).Ready n := by
  refine ready_init bar participants ?_ h
  intro id
  cases color id
  · exact Or.inl rfl
  · exact Or.inr rfl

/-- The bitmap of all ones has every process below 64. -/
theorem bit_ones {id : Nat} (hid : id < 64) : bit 0xFFFFFFFFFFFFFFFF id = true := by
  have hall : ∀ i : Fin 64, bit 0xFFFFFFFFFFFFFFFF i = true := by decide
  exact hall ⟨id, hid⟩

/-- Whatever its bitmap was, a barrier without a color function has all processes below 64. -/
theorem init_member (hb : b < ssmpNumBarriers) {id : Nat} (hid : id < 64) :
    (ssmpBarrierInitPlatf b participants none barriers b).member id = true := by
  rw [init_self hb]
  exact bit_ones hid

theorem colorApp_binary (id : Nat) : ssmpColorApp id = 0 ∨ ssmpColorApp id = 1 := by
  unfold ssmpColorApp
  split
  · exact Or.inr rfl
  · exact Or.inl rfl

/-- The loop of `ssmp_init_platf` initialises every barrier up to `k`. -/
theorem initLoop_eq (k : Nat) (hk : k ≤ ssmpNumBarriers) (hb : b < k) :
    (List.range k).foldl
      (fun barriers bar => ssmpBarrierInitPlatf bar 0xFFFFFFFFFFFFFFFF none barriers)
      barriers b =
      { participants := 0xFFFFFFFFFFFFFFFF, color := none, ticket := 0, cleared := 0 } := by
  -- by induction on the iterations: the last one writes barrier `k`
  induction k with
  | zero => exact absurd hb (Nat.not_lt_zero b)
  | succ k ih =>
      rw [List.range_succ, List.foldl_append, List.foldl_cons, List.foldl_nil]
      by_cases hbk : b = k
      · subst hbk
        exact init_self (by omega)
      · rw [init_other hbk]
        exact ih (by omega) (by omega)

/-- A barrier as `ssmp_init` leaves it; barrier 1 is initialised once more. -/
theorem initBarriers_eq (hb : b < ssmpNumBarriers) (hone : b ≠ 1) :
    ssmpInitBarriers barriers b =
      { participants := 0xFFFFFFFFFFFFFFFF, color := none, ticket := 0, cleared := 0 } := by
  rw [ssmpInitBarriers, init_other hone]
  exact initLoop_eq ssmpNumBarriers (Nat.le_refl _) hb

/-- `ssmp_init` leaves every barrier ready, for any number of processes. -/
theorem initBarriers_ready (hb : b < ssmpNumBarriers) : (ssmpInitBarriers barriers b).Ready n := by
  by_cases hone : b = 1
  · subst hone
    refine init_ready hb ?_
    rintro col hcol id _
    rw [← Option.some.inj hcol]
    exact colorApp_binary id
  · rw [initBarriers_eq hb hone]
    exact ⟨by simp [SsmpBarrier.BinaryColor], rfl, rfl⟩

end Init

/-! ## Rounds -/

section Rounds

variable {n : Nat} {barriers : Nat → SsmpBarrier} {todo : Fin n → List Nat} {b : Nat}
variable {s : State n} {p q : Fin n}

/-- No participant has returned from more calls than any other has entered by its increment, nor
from two calls more than any other has. -/
theorem rounds_safe (hn : n < 2 ^ 31) (hb : b < ssmpNumBarriers) (hready : (barriers b).Ready n)
    (h : (system barriers todo).Reachable s) (hp : (barriers b).member p = true)
    (hq : (barriers b).member q = true) :
    (s.returned p).count b ≤ (s.arrived q).count b ∧
      (s.returned p).count b ≤ (s.returned q).count b + 1 := by
  have hi := (inv_of_reachable hn hb hready h).2
  have hin : (s.returned p).count b ≤ (s.arrived q).count b := hi.completed_le ⟨p, hp⟩ ⟨q, hq⟩
  have hone : (s.arrived q).count b ≤ (s.returned q).count b + 1 := hi.entered_le ⟨q, hq⟩
  exact ⟨hin, hin.trans hone⟩

end Rounds

/-- Two processes at barrier 0, one of which has returned. -/
def afterReturn : State 2 :=
  (State.fresh (ssmpInitBarriers fun _ => ⟨0, none, 7, 7⟩) fun _ => [0, 0]).run
    [0, 0, 0, 1, 1, 1, 1, 0, 0, 0]

theorem rounds_safe_afterReturn :
    (afterReturn.returned 0).count 0 = 1 ∧ (afterReturn.arrived 1).count 0 = 1 ∧
      (afterReturn.returned 0).count 0 ≤ (afterReturn.arrived 1).count 0 := by
  have hreach : (system (ssmpInitBarriers fun _ => ⟨0, none, 7, 7⟩)
      (fun _ : Fin 2 => [0, 0])).Reachable afterReturn :=
    reachable_run (TransSys.Reachable.init (State.init_fresh _ _)) _
  refine ⟨by decide, by decide, ?_⟩
  exact (rounds_safe (by decide) (by decide) (initBarriers_ready (by decide)) hreach (by decide)
    (by decide)).1

/-! ## The bitmap -/

/-- Process `p` has got past the second wait of its call on `b`. -/
def State.Passed {n : Nat} (s : State n) (p : Fin n) (b : Nat) : Prop :=
  s.pc p = .subTicket b ∨ s.pc p = .resetCleared b ∨ s.pc p = .ret b

/-- Barrier `b` waits for exactly the processes of the bitmap. -/
structure WaitsFor {n : Nat} (participants : UInt64) (b : Nat) (s : State n) : Prop where
  /-- A call takes part or returns at once, as the bit says. -/
  call : ∀ (p : Fin n) (todo : List Nat), s.pc p = .idle → s.todo p = b :: todo →
    if bit participants p then ∃ numPart, (s.step p).pc p = .waitClear b numPart
    else (s.step p).pc p = .ret b ∧ (s.step p).barrier = s.barrier
  /-- The others never touch the barrier. -/
  untouched : ∀ p : Fin n, bit participants p = false → b ∉ s.arrived p
  /-- A process that waits can go on, now or after a step of the last one, if and only if all
  processes of the bitmap have arrived. -/
  released : ∀ p : Fin n, s.pc p = .waitSet b →
    (((s.barrier b).cleared = 1 ∨ ∃ q, s.pc q = .setCleared b) ↔
      ∀ q : Fin n, bit participants q = true → (s.arrived p).count b ≤ (s.arrived q).count b)
  /-- A participant that has gone on has waited for all processes of the bitmap. -/
  passed : ∀ p : Fin n, bit participants p = true → s.Passed p b →
    ∀ q : Fin n, bit participants q = true → (s.arrived p).count b ≤ (s.arrived q).count b

section Bitmap

variable {n : Nat} {barriers : Nat → SsmpBarrier} {todo : Fin n → List Nat} {b : Nat}
variable {s : State n} {p q : Fin n} {participants : UInt64}

theorem stageAt_held {pc : Pc} : stageAt b pc = .held ↔ pc = .waitSet b := by
  cases pc <;> simp [stageAt] <;> split <;> simp_all

theorem stageAt_last {pc : Pc} : stageAt b pc = .last ↔ pc = .setCleared b := by
  cases pc <;> simp [stageAt] <;> split <;> simp_all

theorem released_of_passed (h : s.Passed p b) : (stageAt b (s.pc p)).released = true := by
  rcases h with h | h | h <;> simp [h, stageAt, Stage.released]

/-- A call on `b` begins with the first wait or, by a process that is no participant, ends at
once. -/
theorem step_call (hw : WellFormed barriers b s) (hcounts : (barriers b).Counts n)
    (hb : b < ssmpNumBarriers) {rest : List Nat} (hpc : s.pc p = .idle)
    (htodo : s.todo p = b :: rest) :
    if (barriers b).member p then ∃ numPart, (s.step p).pc p = .waitClear b numPart
    else (s.step p).pc p = .ret b ∧ (s.step p).barrier = s.barrier := by
  simp only [State.step, hpc, htodo, State.setPc, Function.update_self]
  rw [callPc_eq hw hcounts hb]
  cases (barriers b).member p <;> simp

/-- Only participants get as far as the counter. -/
theorem not_arrived (hn : n < 2 ^ 31) (hb : b < ssmpNumBarriers)
    (hcounted : (barriers b).Counted n) (h : (system barriers todo).Reachable s)
    (hp : (barriers b).member p = false) : b ∉ s.arrived p := by
  induction h with
  | @init s h0 =>
      have hinit : s.Init barriers todo := h0
      simp [hinit.arrived]
  | @step s t q hreach hst ih =>
      have hstep : t = s.step q := hst
      subst hstep
      by_cases hq : p = q
      · subst hq
        have hpc := (inv_of_counted hn hb hcounted hreach).1.pc p
        -- the only step that counts as an arrival is the increment
        cases hat : s.pc p with
        | addTicket b' numPart =>
            rw [hat] at hpc
            have hne : b ≠ b' := by
              intro heq
              rw [(hpc heq.symm).1] at hp
              cases hp
            simp [State.step, hat, ih, hne]
        | _ =>
            rw [step_arrived (by simp [hat])]
            exact ih
      · rw [(step_same s q).arrived p hq]
        exact ih

/-- Barrier `b` waits for exactly the processes `part`. -/
structure Gathers {n : Nat} (part : Fin n → Bool) (b : Nat) (s : State n) : Prop where
  /-- A call takes part or returns at once. -/
  call : ∀ (p : Fin n) (todo : List Nat), s.pc p = .idle → s.todo p = b :: todo →
    if part p then ∃ numPart, (s.step p).pc p = .waitClear b numPart
    else (s.step p).pc p = .ret b ∧ (s.step p).barrier = s.barrier
  /-- The others never touch the barrier. -/
  untouched : ∀ p : Fin n, part p = false → b ∉ s.arrived p
  /-- A process that waits can go on, now or after a step of the last one, if and only if all of
  `part` have arrived. -/
  released : ∀ p : Fin n, s.pc p = .waitSet b →
    (((s.barrier b).cleared = 1 ∨ ∃ q, s.pc q = .setCleared b) ↔
      ∀ q : Fin n, part q = true → (s.arrived p).count b ≤ (s.arrived q).count b)
  /-- Who has gone on has waited for all of `part`. -/
  passed : ∀ p : Fin n, part p = true → s.Passed p b →
    ∀ q : Fin n, part q = true → (s.arrived p).count b ≤ (s.arrived q).count b

/-- A barrier waits for its participants, whoever else calls it. -/
theorem gathers_of_counted (hn : n < 2 ^ 31) (hb : b < ssmpNumBarriers)
    (hcounted : (barriers b).Counted n) (h : (system barriers todo).Reachable s) :
    Gathers (fun p => (barriers b).member p) b s := by
  rcases inv_of_counted hn hb hcounted h with ⟨hw, hi⟩
  refine ⟨?_, ?_, ?_, ?_⟩
  · intro p todo hpc htodo
    exact step_call hw hcounted.counts hb hpc htodo
  · intro p hp
    exact not_arrived hn hb hcounted h hp
  · intro p hpc
    -- a process that waits inside is a participant
    have hmem : (barriers b).member p = true := by
      have hok := hw.pc p
      rw [hpc] at hok
      exact hok rfl
    have hheld : (view barriers b s).stage ⟨p, hmem⟩ = .held := stageAt_held.2 hpc
    have hopened := hi.opened_iff hheld
    have hlast : (∃ q, s.pc q = .setCleared b) ↔ ∃ q, (view barriers b s).stage q = .last := by
      constructor
      · rintro ⟨q, hq⟩
        have hok := hw.pc q
        rw [hq] at hok
        exact ⟨⟨q, hok rfl⟩, stageAt_last.2 hq⟩
      · rintro ⟨q, hq⟩
        exact ⟨q.1, stageAt_last.1 hq⟩
    have hflag : (s.barrier b).cleared = 1 ↔ (view barriers b s).flag = true := by simp [view]
    rw [hlast, hflag, hopened]
    exact ⟨fun hall q hq => hall ⟨q, hq⟩, fun hall q => hall q.1 q.2⟩
  · intro p hp hpassed q hq
    exact hi.entered_le_of_released (p := ⟨p, hp⟩) (released_of_passed hpassed) ⟨q, hq⟩

/-- If every process is a participant and has its bit set, the barrier does what the bitmap says. -/
theorem waitsFor_of_all (hn : n < 2 ^ 31) (hb : b < ssmpNumBarriers)
    (hready : (barriers b).Ready n) (hmem : ∀ p : Fin n, (barriers b).member p = true)
    (hbits : ∀ p : Fin n, bit participants p = true)
    (h : (system barriers todo).Reachable s) : WaitsFor participants b s := by
  have hgathers := gathers_of_counted hn hb hready.counted h
  have hpart : (fun p : Fin n => (barriers b).member p) = fun p : Fin n => bit participants p := by
    funext p
    rw [hmem, hbits]
  rw [hpart] at hgathers
  exact ⟨hgathers.call, hgathers.untouched, hgathers.released, hgathers.passed⟩

/-- A process below 64 takes part whatever its bit is. -/
theorem takesPart_all (hn : n ≤ 64) (hb : b < ssmpNumBarriers) (p : Fin n) :
    ∃ numPart, ((State.fresh (ssmpBarrierInitPlatf b participants none barriers)
      fun _ : Fin n => [b]).step p).pc p = .waitClear b numPart := by
  have hready : (ssmpBarrierInitPlatf b participants none barriers b).Ready n :=
    init_ready hb (by simp)
  have hw := WellFormed.init (State.init_fresh _ fun _ : Fin n => [b]) hready.cleared
  have hcall := step_call (p := p) hw hready.counted.counts hb rfl rfl
  rw [if_pos (init_member hb (by omega))] at hcall
  exact hcall

theorem not_waitsFor (hn : n ≤ 64) (hb : b < ssmpNumBarriers) (hp : bit participants p = false) :
    ¬ WaitsFor participants b (State.fresh (ssmpBarrierInitPlatf b participants none barriers)
      fun _ : Fin n => [b]) := by
  intro hwaits
  have htakes : ∃ numPart, ((State.fresh (ssmpBarrierInitPlatf b participants none barriers)
      fun _ : Fin n => [b]).step p).pc p = .waitClear b numPart := takesPart_all hn hb p
  have hcall := hwaits.call p [] rfl rfl
  rw [hp] at hcall
  -- the call should return at once, but it waits
  rcases htakes with ⟨num, hnum⟩
  have hret : ((State.fresh (ssmpBarrierInitPlatf b participants none barriers)
      fun _ : Fin n => [b]).step p).pc p = .ret b := hcall.1
  rw [hnum] at hret
  cases hret

end Bitmap

/-- A barrier initialised with a bitmap and no color function waits for exactly the processes of the
bitmap, in every run of at most 64 processes, if and only if the bitmap has all of them. -/
theorem init_waits_iff {n b : Nat} (hn : n ≤ 64) (hb : b < ssmpNumBarriers) (participants : UInt64)
    (barriers : Nat → SsmpBarrier) :
    (∀ (todo : Fin n → List Nat) (s : State n),
        (system (ssmpBarrierInitPlatf b participants none barriers) todo).Reachable s →
          WaitsFor participants b s) ↔
      ∀ id < n, bit participants id = true := by
  constructor
  · -- a clear bit is refuted by the first call of its process
    intro hall id hid
    by_contra hclear
    have hp : bit participants (⟨id, hid⟩ : Fin n) = false := by simpa using hclear
    exact not_waitsFor hn hb hp (hall _ _ (TransSys.Reachable.init (State.init_fresh _ _)))
  · intro hbits todo s hreach
    exact waitsFor_of_all (by omega) hb (init_ready hb (by simp))
      (fun p => init_member hb (by omega)) (fun p => hbits p p.isLt) hreach

/-- Two processes and the bitmap of both. -/
theorem init_waits_two :
    WaitsFor 3 0 ((State.fresh (ssmpBarrierInitPlatf 0 3 none fun _ => ⟨0, none, 7, 7⟩)
      fun _ : Fin 2 => [0]).run [0, 0, 0]) := by
  have hall := (init_waits_iff (n := 2) (b := 0) (by decide) (by decide) 3
    fun _ => ⟨0, none, 7, 7⟩).2 (by decide)
  exact hall _ _ (reachable_run (TransSys.Reachable.init (State.init_fresh _ _)) _)

/-- One of two processes is not in the bitmap, and takes part nevertheless. -/
theorem stranger_waits :
    ¬ ∀ (todo : Fin 2 → List Nat) (s : State 2),
      (system (ssmpBarrierInitPlatf 0 1 none fun _ => ⟨0, none, 7, 7⟩) todo).Reachable s →
        WaitsFor 1 0 s := by
  intro hall
  have hwaits := hall (fun _ => [0]) _ (TransSys.Reachable.init (State.init_fresh _ _))
  exact not_waitsFor (p := 1) (by decide) (by decide) (by decide) hwaits

end Barrier
end Ssmp
