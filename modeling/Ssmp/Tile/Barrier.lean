import Ssmp.Barrier.Rounds
import Ssmp.Lib.GroupBarrier

/-!
# Tile.Barrier — the barriers on the Tilera

On the Tilera `ssmp_barrier_wait` is the wait of the hardware library
(`src/arch/tile/ssmp_arch.c`).  `ssmp_barrier_init` counts the participants and tells that library
their number, not who they are: the barrier agrees with the other platforms as long as nobody else
calls it (`tile_gathers_iff`).
-/

namespace Ssmp
namespace Tile

open Lib
open Barrier (ssmpNumBarriers)

/-! ## The records -/

/-- `tmc_sync_barrier_t`: the size of a group and the processes of the group that is gathering.  The
library tmc is not among the sources, and this is what is assumed of it. -/
structure TmcSyncBarrier (n : Nat) where
  count : UInt32
  waiting : List (Fin n)

def tmcSyncBarrierInit (n : Nat) (count : UInt32) : TmcSyncBarrier n where
  count := count
  waiting := []

/-- The barriers as `ssmp_init_platf` leaves them. -/
def ssmpInitBarriers (n : Nat) : Nat → TmcSyncBarrier n :=
  fun _ => tmcSyncBarrierInit n (UInt32.ofNat n)

/-- The loop of `ssmp_barrier_init_platf`, with `rest` iterations left; `none` is the call of a
`NULL` color function. -/
def countParticipants (color : Option (Nat → Int32)) : Nat → Nat → UInt32 → Option UInt32
  | 0, _, numPart => some numPart
  | rest + 1, n, numPart =>
      match color with
      | none => none
      | some col =>
          countParticipants color rest (n + 1) (if col n ≠ 0 then numPart + 1 else numPart)

/-- `none` where the call fails.  The bitmap is not read. -/
def ssmpBarrierInitPlatf {n : Nat} (barrierNum : Nat) (_participants : UInt64)
    (color : Option (Nat → Int32)) (barriers : Nat → TmcSyncBarrier n) :
    Option (Nat → TmcSyncBarrier n) :=
  if barrierNum ≥ ssmpNumBarriers then some barriers
  else
    match countParticipants color n 0 0 with
    | none => none
    | some numPart =>
        some (Function.update barriers barrierNum (tmcSyncBarrierInit n numPart))

/-! ## The system -/

inductive Pc where
  | idle
  /-- In `tmc_sync_barrier_wait`, counted and not yet let go. -/
  | waiting (b : Nat)
  | ret (b : Nat)
  deriving DecidableEq

/-- As on the other platforms: the calls each process has left, and the barriers it has arrived at
and returned from. -/
structure State (n : Nat) where
  barrier : Nat → TmcSyncBarrier n
  todo : Fin n → List Nat
  pc : Fin n → Pc
  arrived : Fin n → List Nat
  returned : Fin n → List Nat

namespace State

variable {n : Nat}

/-- `p` arrives at barrier `b`; a full group is let go.  This is what is assumed of
`tmc_sync_barrier_wait`. -/
def arrive (s : State n) (p : Fin n) (b : Nat) : State n :=
  let group := (s.barrier b).waiting ++ [p]
  if group.length = (s.barrier b).count.toNat then
    { s with
      barrier := Function.update s.barrier b { s.barrier b with waiting := [] }
      pc := fun q => if q ∈ group then .ret b else s.pc q
      arrived := Function.update s.arrived p (s.arrived p ++ [b]) }
  else
    { s with
      barrier := Function.update s.barrier b { s.barrier b with waiting := group }
      pc := Function.update s.pc p (.waiting b)
      arrived := Function.update s.arrived p (s.arrived p ++ [b]) }

/-- A call of `ssmp_barrier_wait_platf(b)` by `p`. -/
def call (s : State n) (p : Fin n) (b : Nat) : State n :=
  if b ≥ ssmpNumBarriers then { s with pc := Function.update s.pc p (.ret b) }
  else s.arrive p b

/-- One step of process `p`; a process that waits has none. -/
def step (s : State n) (p : Fin n) : State n :=
  match s.pc p with
  | .idle =>
      match s.todo p with
      | [] => s
      | b :: todo => { s.call p b with todo := Function.update s.todo p todo }
  | .waiting _ => s
  | .ret b =>
      { s with
        pc := Function.update s.pc p .idle
        returned := Function.update s.returned p (s.returned p ++ [b]) }

def run (s : State n) (schedule : List (Fin n)) : State n :=
  schedule.foldl State.step s

/-- Process `p` is to make the calls `todo p` on the barriers `barriers`. -/
structure Init (barriers : Nat → TmcSyncBarrier n) (todo : Fin n → List Nat) (s : State n) :
    Prop where
  barrier : s.barrier = barriers
  todo : s.todo = todo
  pc : ∀ p, s.pc p = .idle
  arrived : ∀ p, s.arrived p = []
  returned : ∀ p, s.returned p = []

def fresh (barriers : Nat → TmcSyncBarrier n) (todo : Fin n → List Nat) : State n where
  barrier := barriers
  todo := todo
  pc _ := .idle
  arrived _ := []
  returned _ := []

theorem init_fresh (barriers : Nat → TmcSyncBarrier n) (todo : Fin n → List Nat) :
    (fresh barriers todo).Init barriers todo :=
  ⟨rfl, rfl, fun _ => rfl, fun _ => rfl, fun _ => rfl⟩

end State

/-- The processes under any interleaving. -/
def system {n : Nat} (barriers : Nat → TmcSyncBarrier n) (todo : Fin n → List Nat) :
    TransSys (State n) (Fin n) where
  init := State.Init barriers todo
  step s p t := t = s.step p

theorem reachable_run {n : Nat} {barriers : Nat → TmcSyncBarrier n} {todo : Fin n → List Nat}
    {s : State n} (h : (system barriers todo).Reachable s) (schedule : List (Fin n)) :
    (system barriers todo).Reachable (s.run schedule) := by
  induction schedule generalizing s with
  | nil => exact h
  | cons p schedule ih => exact ih (TransSys.Reachable.step h rfl)

/-! ## Who waits -/

/-- A process is in a wait exactly if the barrier has counted it and not let it go. -/
def Waits {n : Nat} (s : State n) : Prop :=
  ∀ b p, s.pc p = .waiting b ↔ p ∈ (s.barrier b).waiting

section Step

variable {n : Nat} {s : State n} {p q : Fin n} {b b' : Nat}

@[simp] theorem arrive_todo : (s.arrive p b).todo = s.todo := by
  unfold State.arrive
  dsimp only
  split <;> rfl

@[simp] theorem arrive_arrived :
    (s.arrive p b).arrived = Function.update s.arrived p (s.arrived p ++ [b]) := by
  unfold State.arrive
  dsimp only
  split <;> rfl

theorem arrive_waiting :
    ((s.arrive p b).barrier b).waiting =
      if ((s.barrier b).waiting ++ [p]).length = (s.barrier b).count.toNat then []
      else (s.barrier b).waiting ++ [p] := by
  unfold State.arrive
  dsimp only
  split <;> simp

theorem arrive_count : ((s.arrive p b).barrier b').count = (s.barrier b').count := by
  unfold State.arrive
  dsimp only
  by_cases hb : b' = b
  · subst hb
    split <;> simp
  · split <;> simp [hb]

theorem arrive_barrier_ne (h : b' ≠ b) : (s.arrive p b).barrier b' = s.barrier b' := by
  unfold State.arrive
  dsimp only
  split <;> simp [h]

theorem Waits.arrive (hw : Waits s) (hp : s.pc p = .idle) : Waits (s.arrive p b) := by
  have hidle : ∀ b', p ∉ (s.barrier b').waiting := by
    intro b' hmem
    have hat := (hw b' p).2 hmem
    simp [hp] at hat
  intro b' q
  by_cases hfull : ((s.barrier b).waiting ++ [p]).length = (s.barrier b).count.toNat
  · -- everybody in the group goes on
    simp only [State.arrive, hfull, if_true]
    by_cases hq : q ∈ (s.barrier b).waiting ++ [p]
    · have hout : b' = b ∨ q ∉ (s.barrier b').waiting := by
        rcases List.mem_append.1 hq with hold | hone
        · by_cases hb : b' = b
          · exact Or.inl hb
          · -- a process waits at one barrier only
            refine Or.inr ?_
            intro hmem
            have hat := (hw b' q).2 hmem
            rw [(hw b q).2 hold] at hat
            exact hb (Pc.waiting.inj hat).symm
        · rw [List.mem_singleton.1 hone]
          exact Or.inr (hidle b')
      by_cases hb : b' = b
      · subst hb
        simp [hq]
      · simp [hq, hb, hout.resolve_left hb]
    · by_cases hb : b' = b
      · subst hb
        simpa [hq, hw b' q] using fun hmem => hq (List.mem_append_left _ hmem)
      · simpa [hq, hb] using hw b' q
  · simp only [State.arrive, hfull, if_false]
    by_cases hq : q = p
    · subst hq
      by_cases hb : b' = b
      · subst hb
        simp
      · simpa [hb, Ne.symm hb] using hidle b'
    · by_cases hb : b' = b
      · subst hb
        simpa [hq] using hw b' q
      · simpa [hq, hb] using hw b' q

theorem Waits.setPc {x : Pc} (hw : Waits s) (hp : ∀ b, s.pc p ≠ .waiting b)
    (hpc : ∀ b, x ≠ .waiting b) {t : State n} (ht : t.pc = Function.update s.pc p x)
    (hbarrier : t.barrier = s.barrier) : Waits t := by
  intro b q
  rw [ht, hbarrier]
  by_cases hq : q = p
  · subst hq
    simp [hpc, ← hw b q, hp]
  · simpa [hq] using hw b q

theorem Waits.call (hw : Waits s) (hp : s.pc p = .idle) : Waits (s.call p b) := by
  unfold State.call
  split
  · exact hw.setPc (by simp [hp]) (by simp) rfl rfl
  · exact hw.arrive hp

theorem Waits.step (hw : Waits s) (p : Fin n) : Waits (s.step p) := by
  cases hpc : s.pc p with
  | idle =>
      cases htodo : s.todo p with
      | nil => simpa [State.step, hpc, htodo] using hw
      | cons b todo =>
          simp only [State.step, hpc, htodo]
          exact hw.call hpc
  | waiting b => simpa [State.step, hpc] using hw
  | ret b =>
      simp only [State.step, hpc]
      exact hw.setPc (x := .idle) (by simp [hpc]) (by simp) rfl rfl

/-! ## The rounds of one barrier -/

/-- The participants according to the color function, `NULL` being everybody. -/
def participant {n : Nat} (color : Option (Nat → Int32)) (p : Fin n) : Bool :=
  match color with
  | none => true
  | some col => col p != 0

/-- The state as barrier `b` sees it. -/
def view {n : Nat} (b : Nat) (s : State n) : GroupBarrier.State (Fin n) where
  waiting := (s.barrier b).waiting
  arrivals p := (s.arrived p).count b

/-- Only the participants `S` call barrier `b`, and it counts them. -/
structure Rounds {n : Nat} (S : Finset (Fin n)) (b : Nat) (s : State n) : Prop where
  count : (s.barrier b).count.toNat = S.card
  caller : ∀ p, b ∈ s.todo p → p ∈ S
  stranger : ∀ p, p ∉ S → b ∉ s.arrived p
  waits : Waits s
  group : GroupBarrier.Inv S (view b s)

variable {S : Finset (Fin n)}

theorem view_arrive (hcount : (s.barrier b).count.toNat = S.card) :
    view b (s.arrive p b) = (view b s).arrive S.card p := by
  refine GroupBarrier.State.ext ?_ ?_
  · have hwaiting := arrive_waiting (s := s) (p := p) (b := b)
    rw [hcount] at hwaiting
    exact hwaiting
  · funext q
    by_cases hq : q = p
    · subst hq
      simp [view, GroupBarrier.State.arrive, List.count_append]
    · simp [view, GroupBarrier.State.arrive, hq]

/-- An arrival at another barrier. -/
theorem view_arrive_ne (h : b' ≠ b) : view b (s.arrive p b') = view b s := by
  refine GroupBarrier.State.ext ?_ ?_
  · simp [view, arrive_barrier_ne (Ne.symm h)]
  · funext q
    by_cases hq : q = p
    · subst hq
      simp [view, List.count_append, h]
    · simp [view, hq]

theorem Rounds.arrive (h : Rounds S b s) (hpc : s.pc p = .idle) (hp : b' = b → p ∈ S) :
    Rounds S b (s.arrive p b') := by
  refine ⟨by rw [arrive_count, h.count], by simpa using h.caller, ?_, h.waits.arrive hpc, ?_⟩
  · intro q hq
    by_cases hqp : q = p
    · subst hqp
      have hb : b' ≠ b := fun heq => hq (hp heq)
      simp [h.stranger q hq, Ne.symm hb]
    · simpa [hqp] using h.stranger q hq
  · by_cases hb : b' = b
    · subst hb
      -- `p` is idle, so it is not in the group yet
      have hnew : p ∉ (view b' s).waiting := by
        intro hmem
        have hat := (h.waits b' p).2 hmem
        simp [hpc] at hat
      rw [view_arrive h.count]
      exact h.group.arrive (hp rfl) hnew
    · rw [view_arrive_ne hb]
      exact h.group

theorem Rounds.call (h : Rounds S b s) (hpc : s.pc p = .idle) (hp : b' = b → p ∈ S) :
    Rounds S b (s.call p b') := by
  unfold State.call
  split
  · exact ⟨h.count, h.caller, h.stranger, h.waits.setPc (x := .ret b') (by simp [hpc]) (by simp)
      rfl rfl, h.group⟩
  · exact h.arrive hpc hp

theorem Rounds.step (h : Rounds S b s) (p : Fin n) : Rounds S b (s.step p) := by
  cases hpc : s.pc p with
  | idle =>
      cases htodo : s.todo p with
      | nil => simpa [State.step, hpc, htodo] using h
      | cons b' todo =>
          have hp : b' = b → p ∈ S := by
            rintro rfl
            exact h.caller p (by simp [htodo])
          have hcall := h.call hpc hp
          simp only [State.step, hpc, htodo]
          refine ⟨hcall.count, ?_, hcall.stranger, hcall.waits, hcall.group⟩
          intro q hq
          exact h.caller q (mem_of_mem_update htodo hq)
  | waiting b' => simpa [State.step, hpc] using h
  | ret b' =>
      have hwaits := h.waits.step p
      simp only [State.step, hpc] at hwaits ⊢
      exact ⟨h.count, h.caller, h.stranger, hwaits, h.group⟩

/-- Barrier `b` waits for exactly the processes `part`. -/
structure Gathers {n : Nat} (part : Fin n → Bool) (b : Nat) (s : State n) : Prop where
  /-- The others return at once. -/
  call : ∀ (p : Fin n) (todo : List Nat), s.pc p = .idle → s.todo p = b :: todo → part p = false →
    (s.step p).pc p = .ret b ∧ (s.step p).barrier = s.barrier
  /-- The others never touch the barrier. -/
  untouched : ∀ p : Fin n, part p = false → b ∉ s.arrived p
  /-- A process waits as long as one of `part` has not arrived. -/
  held : ∀ p : Fin n, s.pc p = .waiting b →
    ¬ ∀ q : Fin n, part q = true → (s.arrived p).count b ≤ (s.arrived q).count b
  /-- Who has gone on has waited for all of `part`. -/
  passed : ∀ p : Fin n, part p = true → s.pc p = .ret b →
    ∀ q : Fin n, part q = true → (s.arrived p).count b ≤ (s.arrived q).count b

theorem Rounds.gathers {part : Fin n → Bool} (h : Rounds S b s)
    (hS : ∀ p, p ∈ S ↔ part p = true) : Gathers part b s := by
  have hstranger : ∀ p, part p = false → p ∉ S := by
    intro p hp hmem
    simp [(hS p).1 hmem] at hp
  refine ⟨?_, ?_, ?_, ?_⟩
  · -- a process that is no participant has no such call
    intro p todo _ htodo hp
    exact absurd (h.caller p (by simp [htodo])) (hstranger p hp)
  · intro p hp
    exact h.stranger p (hstranger p hp)
  · intro p hpc hall
    rcases h.group.exists_missing ((h.waits b p).1 hpc) with ⟨q, hq, hlt⟩
    exact absurd (hall q ((hS q).1 hq)) (Nat.not_le.2 hlt)
  · intro p hp hpc q hq
    have hout : p ∉ (view b s).waiting := by
      intro hmem
      have hat := (h.waits b p).2 hmem
      simp [hpc] at hat
    exact h.group.all_arrived ((hS p).2 hp) hout q ((hS q).2 hq)

end Step

/-! ## Initialisation -/

section Init

variable {n : Nat} {b : Nat} {participants : UInt64} {col : Nat → Int32}

theorem countParticipants_eq (rest src : Nat) (numPart : UInt32) :
    countParticipants (some col) rest src numPart =
      some (numPart + UInt32.ofNat (Nat.count (fun k => col (src + k) ≠ 0) rest)) := by
  -- by induction on the iterations left
  induction rest generalizing src numPart with
  | zero => simp [countParticipants]
  | succ rest ih =>
      have hshift : (fun k => col (src + (k + 1)) ≠ 0) = fun k => col (src + 1 + k) ≠ 0 := by
        funext k
        rw [Nat.add_right_comm, Nat.add_assoc]
      rw [countParticipants, ih, Nat.count_succ']
      simp only [hshift, Nat.add_zero]
      by_cases hsrc : col src = 0
      · simp [hsrc]
      · simp only [ne_eq, hsrc, not_false_eq_true, if_true, UInt32.ofNat_add]
        rw [UInt32.add_assoc, UInt32.add_comm 1]
        rfl

/-- The participants that `ssmp_barrier_init_platf` counts. -/
def members (n : Nat) (col : Nat → Int32) : Finset (Fin n) :=
  Finset.univ.filter fun p => col p ≠ 0

theorem countParticipants_call :
    countParticipants (some col) n 0 0 = some (UInt32.ofNat (members n col).card) := by
  rw [countParticipants_eq, members, ← Barrier.count_fin fun k => col k ≠ 0]
  simp

theorem init_some (hb : b < ssmpNumBarriers) (barriers : Nat → TmcSyncBarrier n) :
    ssmpBarrierInitPlatf b participants (some col) barriers =
      some (Function.update barriers b
        (tmcSyncBarrierInit n (UInt32.ofNat (members n col).card))) := by
  simp [ssmpBarrierInitPlatf, Nat.not_le.2 hb, countParticipants_call]

/-- The color function is called, so it must not be `NULL`. -/
theorem init_none (hn : 0 < n) (hb : b < ssmpNumBarriers) (barriers : Nat → TmcSyncBarrier n) :
    ssmpBarrierInitPlatf b participants none barriers = none := by
  cases n with
  | zero => exact absurd hn (Nat.lt_irrefl 0)
  | succ n => simp [ssmpBarrierInitPlatf, Nat.not_le.2 hb, countParticipants]

theorem members_card_toNat (hn : n < 2 ^ 31) :
    (UInt32.ofNat (members n col).card).toNat = (members n col).card := by
  have hle : (members n col).card ≤ n := by
    simpa using Finset.card_le_univ (members n col)
  simp only [UInt32.toNat_ofNat']
  exact Nat.mod_eq_of_lt (by omega)

end Init

/-! ## The participants of both implementations -/

section Agreement

variable {n : Nat} {b : Nat} {participants : UInt64} {col : Nat → Int32} {p : Fin n}
variable {todo : Fin n → List Nat} {counts : Nat → UInt32}

/-- The barriers of the Tilera after `ssmp_barrier_init` with a color function, the others having
any number of participants. -/
def initialised (n : Nat) (b : Nat) (col : Nat → Int32) (counts : Nat → UInt32) :
    Nat → TmcSyncBarrier n :=
  Function.update (fun b' => tmcSyncBarrierInit n (counts b')) b
    (tmcSyncBarrierInit n (UInt32.ofNat (members n col).card))

theorem initialised_waiting (b' : Nat) : (initialised n b col counts b').waiting = [] := by
  by_cases hb : b' = b
  · subst hb
    simp [initialised, tmcSyncBarrierInit]
  · simp [initialised, tmcSyncBarrierInit, hb]

theorem rounds_of_reachable (hn : n < 2 ^ 31) (hcallers : ∀ p, b ∈ todo p → p ∈ members n col)
    {s : State n} (h : (system (initialised n b col counts) todo).Reachable s) :
    Rounds (members n col) b s := by
  induction h with
  | @init s h0 =>
      have hinit : s.Init (initialised n b col counts) todo := h0
      refine ⟨?_, ?_, ?_, ?_, GroupBarrier.Inv.fresh ?_ ?_⟩
      · rw [hinit.barrier, initialised, Function.update_self]
        exact members_card_toNat hn
      · simpa [hinit.todo] using hcallers
      · simp [hinit.arrived]
      · intro b' p
        simp [hinit.pc, hinit.barrier, initialised_waiting]
      · simp [view, hinit.barrier, initialised_waiting]
      · simp [view, hinit.arrived]
  | @step s t p _ hst ih =>
      have hstep : t = s.step p := hst
      subst hstep
      exact ih.step p

/-- A call on `b` counts, whoever makes it. -/
theorem call_arrives (hb : b < ssmpNumBarriers) (barriers : Nat → TmcSyncBarrier n) :
    b ∈ ((State.fresh barriers (Function.update (fun _ => []) p [b])).step p).arrived p := by
  simp [State.step, State.fresh, State.call, Nat.not_le.2 hb]

/-- A process that is no participant is counted if it calls the barrier. -/
theorem not_gathers (hb : b < ssmpNumBarriers) (hp : participant (some col) p = false)
    (barriers : Nat → TmcSyncBarrier n) :
    ¬ Gathers (participant (some col)) b
      ((State.fresh barriers (Function.update (fun _ => []) p [b])).step p) := by
  intro hgathers
  exact hgathers.untouched p hp (call_arrives hb barriers)

theorem mem_members : p ∈ members n col ↔ participant (some col) p = true := by
  simp [members, participant]

theorem init_member_color {barriers : Nat → Barrier.SsmpBarrier} (hb : b < ssmpNumBarriers) :
    (fun p : Fin n => (Barrier.ssmpBarrierInitPlatf b participants (some col) barriers b).member p) =
      participant (some col) := by
  rw [Barrier.init_self hb]
  rfl

end Agreement

/-- With a color function of values 0 and 1, or `NULL` for everybody: a barrier that the processes
`callers` use waits for exactly the participants, in every run on x86 and in every run on the
Tilera, if and only if there is a color function and `callers` are participants. -/
theorem tile_gathers_iff {n b : Nat} (h0 : 0 < n) (hn : n < 2 ^ 31) (hb : b < ssmpNumBarriers)
    (participants : UInt64) (color : Option (Nat → Int32))
    (hbinary : ∀ col, color = some col → ∀ id < n, col id = 0 ∨ col id = 1)
    (records : Nat → Barrier.SsmpBarrier) (counts : Nat → UInt32) (callers : Fin n → Prop) :
    ((∀ (todo : Fin n → List Nat) (s : Barrier.State n), (∀ p, b ∈ todo p → callers p) →
        (Barrier.system (Barrier.ssmpBarrierInitPlatf b participants color records)
          todo).Reachable s → Barrier.Gathers (participant color) b s) ∧
      ∃ barriers : Nat → TmcSyncBarrier n,
        ssmpBarrierInitPlatf b participants color (fun b' => tmcSyncBarrierInit n (counts b')) =
            some barriers ∧
          ∀ (todo : Fin n → List Nat) (s : State n), (∀ p, b ∈ todo p → callers p) →
            (system barriers todo).Reachable s → Gathers (participant color) b s) ↔
      ∃ col, color = some col ∧ ∀ p, callers p → col p ≠ 0 := by
  constructor
  · rintro ⟨_, barriers, hinit, hall⟩
    cases color with
    | none =>
        rw [init_none h0 hb] at hinit
        cases hinit
    | some col =>
        refine ⟨col, rfl, ?_⟩
        intro p hp hzero
        -- the first call of `p` refutes the claim for the Tilera
        have hstranger : participant (some col) p = false := by simp [participant, hzero]
        refine not_gathers hb hstranger barriers ?_
        refine hall (Function.update (fun _ => []) p [b]) _ ?_
          (TransSys.Reachable.step (l := p) (TransSys.Reachable.init (State.init_fresh _ _)) rfl)
        intro q hq
        by_cases hqp : q = p
        · exact hqp ▸ hp
        · simp [hqp] at hq
  · rintro ⟨col, rfl, hcallers⟩
    refine ⟨?_, initialised n b col counts, init_some hb _, ?_⟩
    · intro todo s _ hreach
      have hready : (Barrier.ssmpBarrierInitPlatf b participants (some col) records b).Ready n :=
        Barrier.init_ready hb hbinary
      have hgathers := Barrier.gathers_of_counted hn hb hready.counted hreach
      rwa [init_member_color hb] at hgathers
    · intro todo s htodo hreach
      have hmember : ∀ p, b ∈ todo p → p ∈ members n col := by
        intro p hp
        simpa [members] using hcallers p (htodo p hp)
      exact (rounds_of_reachable hn hmember hreach).gathers fun p => mem_members

/-- Three processes with `ssmp_color_app`, of which 1 and 2 call the barrier. -/
def membersOnly : State 3 :=
  (State.fresh (initialised 3 1 Barrier.ssmpColorApp fun _ => 3)
    fun p => if p = 0 then [] else [1]).run [1, 2, 1]

theorem tile_gathers_color_app :
    Gathers (participant (some Barrier.ssmpColorApp)) 1 membersOnly := by
  have hboth := (tile_gathers_iff (n := 3) (b := 1) (by decide) (by decide) (by decide) 0
    (some Barrier.ssmpColorApp) (by decide) (fun _ => ⟨0, none, 7, 7⟩) (fun _ => 3)
    fun p => p ≠ 0).2 ⟨Barrier.ssmpColorApp, rfl, by decide⟩
  rcases hboth.2 with ⟨barriers, hinit, hall⟩
  -- these barriers are those of the run
  have hbarriers : barriers = initialised 3 1 Barrier.ssmpColorApp fun _ => 3 :=
    Option.some.inj (hinit.symm.trans (init_some (by decide) _))
  subst hbarriers
  exact hall _ membersOnly (by decide)
    (reachable_run (TransSys.Reachable.init (State.init_fresh _ _)) _)

/-- The same barrier, called by 0 and 1: process 0 is no participant, and is counted instead of
process 2. -/
def strangerFirst : State 3 :=
  (State.fresh (initialised 3 1 Barrier.ssmpColorApp fun _ => 3) fun _ => [1]).run [0, 1]

theorem tile_counts_stranger :
    ssmpBarrierInitPlatf 1 0 (some Barrier.ssmpColorApp) (ssmpInitBarriers 3) =
        some (initialised 3 1 Barrier.ssmpColorApp fun _ => 3) ∧
      (system (initialised 3 1 Barrier.ssmpColorApp fun _ => 3) fun _ => [1]).Reachable
        strangerFirst ∧
      participant (some Barrier.ssmpColorApp) (0 : Fin 3) = false ∧ 1 ∈ strangerFirst.arrived 0 ∧
      strangerFirst.pc 1 = .ret 1 ∧ strangerFirst.arrived 2 = [] ∧
      ¬ Gathers (participant (some Barrier.ssmpColorApp)) 1 strangerFirst := by
  refine ⟨init_some (by decide) _, reachable_run (TransSys.Reachable.init (State.init_fresh _ _)) _,
    by decide, by decide, by decide, by decide, ?_⟩
  intro hgathers
  exact hgathers.untouched 0 (by decide) (by decide)

end Tile
end Ssmp
