import Ssmp.Barrier.Model
import Ssmp.Lib.StoreLog
import Ssmp.Startup.Layout

/-!
# Barrier.Isolation — the words that the barrier functions touch

`Barrier.Model` keeps the barriers as records of their own.  Here they lie where `ssmp_init_platf` of
the two architectures has put them, in a segment with the messages before them (on SPARC) and the
flags and chunks behind them, and a barrier number is any `int`.  The three functions reject numbers
from `SSMP_NUM_BARRIERS` on and no others.
-/

namespace Ssmp
namespace Barrier

open Lib Startup

/-! ## Words -/

/-- The segment and what is mapped around it, in words of 4 bytes, by their distance from its
start. -/
abbrev Words : Type := Int → UInt32

section Layout

variable (T : Target) (n : Nat)

/-- A 64-bit value in memory: x86 begins with the lower half. -/
def halves (v : UInt64) : List UInt32 :=
  match T.arch with
  | .x86 => [v.toUInt32, (v >>> 32).toUInt32]
  | .sparc => [(v >>> 32).toUInt32, v.toUInt32]

def readHalves (w : Int) (mem : Words) : UInt64 :=
  match T.arch with
  | .x86 => (mem (w + 1)).toUInt64 <<< 32 ||| (mem w).toUInt64
  | .sparc => (mem w).toUInt64 <<< 32 ||| (mem (w + 1)).toUInt64

/-- A pointer in memory; `NULL` is 0. -/
def ptrWords (ptr : UInt64) : List UInt32 :=
  match T with
  | .sparcV8 => [ptr.toUInt32]
  | .x86 | .sparcV9 => halves T ptr

def readPtr (w : Int) (mem : Words) : UInt64 :=
  match T with
  | .sparcV8 => (mem w).toUInt64
  | .x86 | .sparcV9 => readHalves T w mem

/-- `&ssmp_barrier[b]` -/
def recordWord (b : Int32) : Int :=
  ((sizes T n).sizem.toNat / 4 : Nat) + b.toInt * 16

/-- `&ssmp_barrier[b].color` -/
def colorWord (b : Int32) : Int :=
  recordWord T n b + 2

/-- `&ssmp_barrier[b].ticket` -/
def ticketWord (b : Int32) : Int :=
  colorWord T n b + (ptrWords T 0).length

/-- `&ssmp_barrier[b].cleared` -/
def clearedWord (b : Int32) : Int :=
  ticketWord T n b + 1

/-- `ssmp_get_barrier`, where `none` is `NULL`. -/
def ssmpGetBarrier (b : Int32) : Option Int :=
  if b < 16 then some (recordWord T n b) else none

end Layout

/-! ## Calls -/

inductive BarrierCall where
  | init (num : Int32) (participants : UInt64) (color : UInt64)
  | wait (num : Int32)
  | get (num : Int32)

def BarrierCall.num : BarrierCall → Int32
  | init num _ _ | wait num | get num => num

/-- On whose behalf a store is made. -/
inductive Storer where
  | init (num : Int32)
  | wait (num : Int32)
  deriving DecidableEq

def Storer.num : Storer → Int32
  | init num | wait num => num

/-- Where a process is in its call. -/
inductive CallPc where
  | idle
  /-- `ssmp_barrier[barrier_num].participants = 0xFFFFFFFFFFFFFFFF;` -/
  | initParticipants (b : Int32) (color : UInt64)
  /-- `ssmp_barrier[barrier_num].color = color;` -/
  | initColor (b : Int32) (color : UInt64)
  /-- `ssmp_barrier[barrier_num].ticket = 0;` -/
  | initTicket (b : Int32)
  /-- `ssmp_barrier[barrier_num].cleared = 0;` -/
  | initCleared (b : Int32)
  /-- `col = b->color;` -/
  | waitColor (b : Int32)
  /-- `bpar = (uint64_t) b->participants;` and the loop over `from` -/
  | waitParticipants (b : Int32) (col : UInt64)
  /-- `while (b->cleared == 1)` -/
  | waitClear (b : Int32) (numPart : UInt32)
  /-- `my_ticket = __sync_add_and_fetch(&b->ticket, 1);` and the comparison with `num_part` -/
  | addTicket (b : Int32) (numPart : UInt32)
  /-- `b->cleared = 1;` -/
  | setCleared (b : Int32)
  /-- `while (b->cleared == 0)` -/
  | waitSet (b : Int32)
  /-- `my_ticket = __sync_sub_and_fetch(&b->ticket, 1);` and the comparison with 0 -/
  | subTicket (b : Int32)
  /-- `b->cleared = 0;` -/
  | resetCleared (b : Int32)
  deriving DecidableEq

/-- The barrier number of the call. -/
def CallPc.num : CallPc → Option Int32
  | idle => none
  | initParticipants b _ | initColor b _ | initTicket b | initCleared b | waitColor b
  | waitParticipants b _ | waitClear b _ | addTicket b _ | setCleared b | waitSet b | subTicket b
  | resetCleared b => some b

/-- The segment, and where each process is in its call.  The memory records on whose behalf it was
stored to, and the last field what the calls of `ssmp_get_barrier` have returned. -/
structure SegState (n : Nat) where
  words : StoreLog Storer Int UInt32
  pc : Fin n → CallPc
  got : List (Int32 × Option Int)

namespace SegState

section Steps

variable {n : Nat} (T : Target) (funAt : UInt64 → Nat → Int32)

def goto (s : SegState n) (p : Fin n) (pc : CallPc) : SegState n :=
  { s with pc := Function.update s.pc p pc }

/-- Store `vs` from word `w` on. -/
def write (s : SegState n) (p : Fin n) (who : Storer) (w : Int) (vs : List UInt32) (pc : CallPc) :
    SegState n :=
  { s.goto p pc with
    words := s.words.stores who (vs.zipIdx.map fun v => (w + v.2, v.1)) }

/-- Process `p` begins a call. -/
def call (s : SegState n) (p : Fin n) : BarrierCall → SegState n
  | .init b _participants color =>
      if b ≥ 16 then s else s.goto p (.initParticipants b color)
  | .wait b => if b ≥ 16 then s else s.goto p (.waitColor b)
  | .get b => { s with got := s.got ++ [(b, ssmpGetBarrier T n b)] }

/-- The color function of a pointer. -/
def colorOf (col : UInt64) : Option (Nat → Int32) :=
  if col = 0 then none else some (funAt col)

/-- The next step of process `p` in its call.  A failed wait leaves the state as it is. -/
def step (s : SegState n) (p : Fin n) : SegState n :=
  let mem := s.words.mem
  match s.pc p with
  | .idle => s
  | .initParticipants b color =>
      s.write p (.init b) (recordWord T n b) (halves T 0xFFFFFFFFFFFFFFFF) (.initColor b color)
  | .initColor b color =>
      s.write p (.init b) (colorWord T n b) (ptrWords T color) (.initTicket b)
  | .initTicket b => s.write p (.init b) (ticketWord T n b) [0] (.initCleared b)
  | .initCleared b => s.write p (.init b) (clearedWord T n b) [0] .idle
  | .waitColor b => s.goto p (.waitParticipants b (readPtr T (colorWord T n b) mem))
  | .waitParticipants b col =>
      match countParticipants p (colorOf funAt col) n 0 (readHalves T (recordWord T n b) mem) 0 with
      | none => s.goto p .idle
      | some numPart => s.goto p (.waitClear b numPart)
  | .waitClear b numPart =>
      if mem (clearedWord T n b) = 1 then s else s.goto p (.addTicket b numPart)
  | .addTicket b numPart =>
      let myTicket := mem (ticketWord T n b) + 1
      s.write p (.wait b) (ticketWord T n b) [myTicket]
        (if myTicket = numPart then .setCleared b else .waitSet b)
  | .setCleared b => s.write p (.wait b) (clearedWord T n b) [1] (.waitSet b)
  | .waitSet b => if mem (clearedWord T n b) = 0 then s else s.goto p (.subTicket b)
  | .subTicket b =>
      let myTicket := mem (ticketWord T n b) - 1
      s.write p (.wait b) (ticketWord T n b) [myTicket]
        (if myTicket = 0 then .resetCleared b else .idle)
  | .resetCleared b => s.write p (.wait b) (clearedWord T n b) [0] .idle

/-- No process is in a call, and nothing has been stored yet. -/
structure Init (s : SegState n) : Prop where
  words : ∃ mem, s.words = StoreLog.fresh mem
  pc : ∀ p, s.pc p = .idle
  got : s.got = []

end Steps

end SegState

inductive SegLabel (n : Nat) where
  | call (p : Fin n) (c : BarrierCall)
  | run (p : Fin n)

/-- A process that is in no call may begin any. -/
inductive SegStep (T : Target) (funAt : UInt64 → Nat → Int32) {n : Nat} :
    SegState n → SegLabel n → SegState n → Prop where
  | call {s : SegState n} {p : Fin n} (c : BarrierCall) (hidle : s.pc p = .idle) :
      SegStep T funAt s (.call p c) (s.call T p c)
  | run {s : SegState n} (p : Fin n) : SegStep T funAt s (.run p) (s.step T funAt p)

/-- The processes under any interleaving; `funAt` tells what the color functions return. -/
def segSystem (T : Target) (funAt : UInt64 → Nat → Int32) (n : Nat) :
    TransSys (SegState n) (SegLabel n) where
  init := SegState.Init
  step := SegStep T funAt

/-! ## What a call may change -/

/-- The numbers of the barriers that there are. -/
def InRange (b : Int32) : Prop :=
  0 ≤ b.toInt ∧ b.toInt < 16

/-- `ssmp_barrier_init` may change its record, and `ssmp_barrier_wait` two words of it; with a number
that is not one of a barrier they may change nothing. -/
def allowed (T : Target) (n : Nat) : Storer → Set Int
  | .init b => {w | InRange b ∧ recordWord T n b ≤ w ∧ w < recordWord T n b + 16}
  | .wait b => {w | InRange b ∧ (w = ticketWord T n b ∨ w = clearedWord T n b)}

/-- The barriers are isolated: all stores are within what the call may change, nothing else has
changed, and `ssmp_get_barrier` has returned the record or, for other numbers, `NULL`.  Where the
sizes of the segment fit, a store for a barrier is in no other object. -/
structure Isolated (T : Target) {n : Nat} (s : SegState n) : Prop where
  stores : s.words.Within (allowed T n)
  unchanged : s.words.Framed
  got : ∀ b r, (b, r) ∈ s.got →
    (InRange b → r = some (recordWord T n b)) ∧ (¬ InRange b → r = none)
  parts : totalSize T n < 2 ^ 32 → ∀ who w, (who, w) ∈ s.words.log → ∀ x : Nat,
    ((x / 4 : Nat) : Int) = w → ∀ q : Startup.Part T n, x ∈ q.bytes →
      ∃ bar : Fin 16, q = .barrier bar ∧ (bar.val : Int) = who.num.toInt

section Records

variable {T : Target} {n : Nat} {b : Int32} {who : Storer} {w : Int}

theorem ge_sixteen_iff : b ≥ 16 ↔ 16 ≤ b.toInt := by
  rw [ge_iff_le, Int32.le_iff_toInt_le]
  exact Iff.rfl

@[simp] theorem length_halves (v : UInt64) : (halves T v).length = 2 := by
  unfold halves
  split <;> rfl

theorem length_ptrWords (ptr : UInt64) : (ptrWords T ptr).length = (ptrWords T 0).length := by
  cases T <;> rfl

theorem length_ptrWords_le : (ptrWords T 0).length ≤ 2 := by
  cases T <;> decide

/-- Whatever a call may change is in the record of its barrier. -/
theorem mem_record_of_allowed (h : w ∈ allowed T n who) :
    InRange who.num ∧ recordWord T n who.num ≤ w ∧ w < recordWord T n who.num + 16 := by
  cases who with
  | init b => exact h
  | wait b =>
      rcases h with ⟨hrange, hw⟩
      have hptr := @length_ptrWords_le T
      refine ⟨hrange, ?_⟩
      simp only [Storer.num]
      rcases hw with rfl | rfl
      · unfold ticketWord colorWord
        omega
      · unfold clearedWord ticketWord colorWord
        omega

/-- The record of a barrier is the object of the layout. -/
theorem mem_bytes_of_record (hfit : totalSize T n < 2 ^ 32) (hrange : InRange b) {x : Nat}
    (hle : recordWord T n b ≤ ((x / 4 : Nat) : Int))
    (hlt : ((x / 4 : Nat) : Int) < recordWord T n b + 16) :
    ∃ bar : Fin 16, (bar.val : Int) = b.toInt ∧
      x ∈ (Startup.Part.barrier bar : Startup.Part T n).bytes := by
  rcases hrange with ⟨hpos, hsmall⟩
  have hsizem : 4 ∣ (sizes T n).sizem.toNat := by
    rw [(sizes_toNat hfit).1]
    unfold msgBytes
    split
    · exact Nat.dvd_zero 4
    · exact Nat.dvd_mul_left_of_dvd (by decide) _
  have hbytes : (Startup.Part.barrier ⟨b.toInt.toNat, by omega⟩ : Startup.Part T n).bytes =
      Set.Ico ((sizes T n).sizem.toNat + b.toInt.toNat * 64)
        ((sizes T n).sizem.toNat + b.toInt.toNat * 64 + 64) := rfl
  refine ⟨⟨b.toInt.toNat, by omega⟩, Int.toNat_of_nonneg hpos, ?_⟩
  rw [hbytes, Set.mem_Ico]
  unfold recordWord at hle hlt
  omega

/-- A word that a call may change is in no other object than its barrier. -/
theorem part_of_allowed (hfit : totalSize T n < 2 ^ 32) (h : w ∈ allowed T n who) {x : Nat}
    (hx : ((x / 4 : Nat) : Int) = w) {q : Startup.Part T n} (hq : x ∈ q.bytes) :
    ∃ bar : Fin 16, q = .barrier bar ∧ (bar.val : Int) = who.num.toInt := by
  rcases mem_record_of_allowed h with ⟨hrange, hle, hlt⟩
  rcases mem_bytes_of_record hfit hrange (hx ▸ hle) (hx ▸ hlt) with ⟨bar, hbar, hmem⟩
  refine ⟨bar, ?_, hbar⟩
  by_contra hne
  exact Set.disjoint_left.1 (Startup.Part.pairwise_disjoint_bytes hfit hne) hq hmem

end Records

/-! ## One step -/

section Steps

variable {T : Target} {funAt : UInt64 → Nat → Int32} {n : Nat} {s t : SegState n} {p : Fin n}

/-- What a step of process `p` can do when its call has the number of a barrier. -/
inductive SegEffect (T : Target) (s : SegState n) (p : Fin n) : SegState n → Prop where
  | stays : SegEffect T s p s
  | goes (pc : CallPc) (hpc : ∀ b, pc.num = some b → InRange b) : SegEffect T s p (s.goto p pc)
  | stores (who : Storer) (w : Int) (vs : List UInt32) (pc : CallPc)
      (hpc : ∀ b, pc.num = some b → InRange b)
      (hallowed : ∀ k : Nat, k < vs.length → w + k ∈ allowed T n who) :
      SegEffect T s p (s.write p who w vs pc)

theorem some_num {b : Int32} (hrange : InRange b) : ∀ b', some b = some b' → InRange b' := by
  rintro b' ⟨⟩
  exact hrange

theorem none_num : ∀ b', (none : Option Int32) = some b' → InRange b' := by
  rintro b' ⟨⟩

/-- A store of one word. -/
theorem segEffect_store {who : Storer} {w : Int} {v : UInt32} {pc : CallPc}
    (hpc : ∀ b, pc.num = some b → InRange b) (hw : w ∈ allowed T n who) :
    SegEffect T s p (s.write p who w [v] pc) := by
  refine SegEffect.stores who w [v] pc hpc ?_
  intro k hk
  have hzero : k = 0 := by simpa using hk
  subst hzero
  simpa using hw

theorem step_effect (hpc : ∀ b, (s.pc p).num = some b → InRange b) :
    SegEffect T s p (s.step T funAt p) := by
  have hptr := @length_ptrWords_le T
  cases hcase : s.pc p with
  | idle =>
      have heq : s.step T funAt p = s := by simp [SegState.step, hcase]
      rw [heq]
      exact SegEffect.stays
  | initParticipants b color =>
      rw [hcase] at hpc
      have hb : InRange b := hpc b rfl
      simp only [SegState.step, hcase]
      refine SegEffect.stores _ _ _ _ hpc fun k hk => ⟨hb, ?_⟩
      rw [length_halves] at hk
      omega
  | initColor b color =>
      rw [hcase] at hpc
      have hb : InRange b := hpc b rfl
      simp only [SegState.step, hcase]
      refine SegEffect.stores _ _ _ _ hpc fun k hk => ⟨hb, ?_⟩
      rw [length_ptrWords] at hk
      unfold colorWord
      omega
  | initTicket b =>
      rw [hcase] at hpc
      have hb : InRange b := hpc b rfl
      simp only [SegState.step, hcase]
      refine segEffect_store hpc ⟨hb, ?_⟩
      unfold ticketWord colorWord
      omega
  | initCleared b =>
      rw [hcase] at hpc
      have hb : InRange b := hpc b rfl
      simp only [SegState.step, hcase]
      refine segEffect_store none_num ⟨hb, ?_⟩
      unfold clearedWord ticketWord colorWord
      omega
  | waitColor b =>
      rw [hcase] at hpc
      simp only [SegState.step, hcase]
      exact SegEffect.goes _ hpc
  | waitParticipants b col =>
      rw [hcase] at hpc
      simp only [SegState.step, hcase]
      split
      · exact SegEffect.goes _ none_num
      · exact SegEffect.goes _ hpc
  | waitClear b numPart =>
      rw [hcase] at hpc
      simp only [SegState.step, hcase]
      split
      · exact SegEffect.stays
      · exact SegEffect.goes _ hpc
  | addTicket b numPart =>
      rw [hcase] at hpc
      have hb : InRange b := hpc b rfl
      simp only [SegState.step, hcase]
      refine segEffect_store ?_ ⟨hb, Or.inl rfl⟩
      split <;> exact hpc
  | setCleared b =>
      rw [hcase] at hpc
      have hb : InRange b := hpc b rfl
      simp only [SegState.step, hcase]
      exact segEffect_store hpc ⟨hb, Or.inr rfl⟩
  | waitSet b =>
      rw [hcase] at hpc
      simp only [SegState.step, hcase]
      split
      · exact SegEffect.stays
      · exact SegEffect.goes _ hpc
  | subTicket b =>
      rw [hcase] at hpc
      have hb : InRange b := hpc b rfl
      simp only [SegState.step, hcase]
      refine segEffect_store ?_ ⟨hb, Or.inl rfl⟩
      split
      · exact hpc
      · exact none_num
  | resetCleared b =>
      rw [hcase] at hpc
      have hb : InRange b := hpc b rfl
      simp only [SegState.step, hcase]
      exact segEffect_store none_num ⟨hb, Or.inr rfl⟩

end Steps

/-! ## Runs -/

/-- No call has a negative number. -/
def SegLabel.Nonneg {n : Nat} : SegLabel n → Prop
  | .call _ c => 0 ≤ c.num
  | .run _ => True

/-- What keeps the barriers isolated: the calls in progress have the number of a barrier. -/
structure KeepsIsolated (T : Target) {n : Nat} (s : SegState n) : Prop where
  pcs : ∀ p b, (s.pc p).num = some b → InRange b
  within : s.words.Within (allowed T n)
  framed : s.words.Framed
  got : ∀ b r, (b, r) ∈ s.got →
    (InRange b → r = some (recordWord T n b)) ∧ (¬ InRange b → r = none)

section Runs

variable {T : Target} {funAt : UInt64 → Nat → Int32} {n : Nat} {s t : SegState n} {p : Fin n}

/-- For numbers that are not negative the guard is right. -/
theorem inRange_of_guard {b : Int32} (hnonneg : 0 ≤ b) (hguard : ¬ b ≥ 16) : InRange b := by
  rw [ge_sixteen_iff] at hguard
  exact ⟨Int32.le_iff_toInt_le.1 hnonneg, by omega⟩

theorem ssmpGetBarrier_spec {b : Int32} (hnonneg : 0 ≤ b) :
    (InRange b → ssmpGetBarrier T n b = some (recordWord T n b)) ∧
      (¬ InRange b → ssmpGetBarrier T n b = none) := by
  unfold ssmpGetBarrier
  have hlt : b < 16 ↔ InRange b := by
    constructor
    · intro h
      refine inRange_of_guard hnonneg ?_
      rw [ge_sixteen_iff]
      have := Int32.lt_iff_toInt_lt.1 h
      exact not_le.2 this
    · intro h
      exact Int32.lt_iff_toInt_lt.2 h.2
  constructor
  · intro h
    rw [if_pos (hlt.2 h)]
  · intro h
    rw [if_neg fun hb => h (hlt.1 hb)]

theorem keepsIsolated_of_init (h : s.Init) : KeepsIsolated T s where
  pcs := by
    intro p b hb
    rw [h.pc p] at hb
    cases hb
  within := by
    rcases h.words with ⟨mem, hmem⟩
    rw [hmem]
    exact StoreLog.within_fresh mem
  framed := by
    rcases h.words with ⟨mem, hmem⟩
    rw [hmem]
    exact StoreLog.framed_fresh mem
  got := by
    intro b r hb
    rw [h.got] at hb
    cases hb

/-- Only the call of `p` moves. -/
theorem KeepsIsolated.goto (h : KeepsIsolated T s) {pc : CallPc}
    (hpc : ∀ b, pc.num = some b → InRange b) : KeepsIsolated T (s.goto p pc) := by
  refine ⟨?_, h.within, h.framed, h.got⟩
  intro q b hq
  by_cases hqp : q = p
  · subst hqp
    simp only [SegState.goto, Function.update_self] at hq
    exact hpc b hq
  · simp only [SegState.goto, Function.update_of_ne hqp] at hq
    exact h.pcs q b hq

theorem KeepsIsolated.write (h : KeepsIsolated T s) {who : Storer} {w : Int} {vs : List UInt32}
    {pc : CallPc} (hpc : ∀ b, pc.num = some b → InRange b)
    (hallowed : ∀ k : Nat, k < vs.length → w + k ∈ allowed T n who) :
    KeepsIsolated T (s.write p who w vs pc) := by
  refine ⟨(h.goto hpc).pcs, h.within.stores ?_, h.framed.stores, h.got⟩
  intro c hc
  rcases List.mem_map.1 hc with ⟨⟨v, k⟩, hv, rfl⟩
  exact hallowed k (List.mem_zipIdx' hv).1

theorem KeepsIsolated.run (h : KeepsIsolated T s) (p : Fin n) :
    KeepsIsolated T (s.step T funAt p) := by
  have heffect : SegEffect T s p (s.step T funAt p) := step_effect (h.pcs p)
  generalize s.step T funAt p = t at heffect
  cases heffect with
  | stays => exact h
  | goes pc hpc => exact h.goto hpc
  | stores who w vs pc hpc hallowed => exact h.write hpc hallowed

theorem KeepsIsolated.call (h : KeepsIsolated T s) (p : Fin n) {c : BarrierCall}
    (hnonneg : 0 ≤ c.num) : KeepsIsolated T (s.call T p c) := by
  cases c with
  | init b participants color =>
      simp only [SegState.call]
      split
      case isTrue hge => exact h
      case isFalse hlt => exact h.goto (some_num (inRange_of_guard hnonneg hlt))
  | wait b =>
      simp only [SegState.call]
      split
      case isTrue hge => exact h
      case isFalse hlt => exact h.goto (some_num (inRange_of_guard hnonneg hlt))
  | get b =>
      refine ⟨h.pcs, h.within, h.framed, ?_⟩
      intro b' r hr
      rcases List.mem_append.1 hr with hold | hnew
      · exact h.got b' r hold
      · cases List.mem_singleton.1 hnew
        exact ssmpGetBarrier_spec hnonneg

theorem KeepsIsolated.step {l : SegLabel n} (h : KeepsIsolated T s)
    (hst : ((segSystem T funAt n).restrict fun _ l => l.Nonneg).step s l t) :
    KeepsIsolated T t := by
  rcases hst with ⟨hstep, hnonneg⟩
  cases hstep with
  | call c hidle => exact h.call _ hnonneg
  | run p => exact h.run p

theorem KeepsIsolated.isolated (h : KeepsIsolated T s) : Isolated T s where
  stores := h.within
  unchanged := h.framed
  got := h.got
  parts := by
    intro hfit who w hlog x hx q hq
    exact part_of_allowed hfit (h.within who w hlog) hx hq

/-- A word that is in no record never changes. -/
theorem Isolated.eq_initial (h : Isolated T s) {w : Int}
    (hw : ∀ b, InRange b → ¬ (recordWord T n b ≤ w ∧ w < recordWord T n b + 16)) :
    s.words.mem w = s.words.initial w := by
  by_contra hne
  rcases StoreLog.exists_of_ne h.unchanged h.stores hne with ⟨who, _, hallowed⟩
  rcases mem_record_of_allowed hallowed with ⟨hrange, hrecord⟩
  exact hw who.num hrange hrecord

end Runs

/-- In every run without negative barrier numbers the barriers are isolated. -/
theorem isolated_of_nonneg {T : Target} {funAt : UInt64 → Nat → Int32} {n : Nat} {s : SegState n}
    (h : ((segSystem T funAt n).restrict fun _ l => l.Nonneg).Reachable s) : Isolated T s :=
  (h.invariant (fun _ => keepsIsolated_of_init) fun _ _ _ => KeepsIsolated.step).isolated

/-! ## A run of two processes -/

/-- Two processes in no call, in a segment of zeros. -/
def zeros : SegState 2 where
  words := StoreLog.fresh 0
  pc := fun _ => .idle
  got := []

theorem init_zeros : zeros.Init where
  words := ⟨0, rfl⟩
  pc := fun _ => rfl
  got := rfl

/-- Process 0 has called `ssmp_barrier_init(b, 0, NULL)` and has set `participants`. -/
def afterInit (b : Int32) : SegState 2 :=
  (zeros.call .sparcV9 0 (.init b 0 0)).step .sparcV9 (fun _ _ => 1) 0

theorem reachable_afterInit {b : Int32} {P : SegState 2 → SegLabel 2 → Prop}
    (hcall : P zeros (.call 0 (.init b 0 0)))
    (hrun : P (zeros.call .sparcV9 0 (.init b 0 0)) (.run 0)) :
    ((segSystem .sparcV9 (fun _ _ => 1) 2).restrict P).Reachable (afterInit b) := by
  have hstart : ((segSystem .sparcV9 (fun _ _ => 1) 2).restrict P).Reachable zeros :=
    TransSys.Reachable.init init_zeros
  exact (hstart.step ⟨SegStep.call _ rfl, hcall⟩).step ⟨SegStep.run 0, hrun⟩

theorem isolated_of_nonneg_three :
    (afterInit 3).words.log ≠ [] ∧ Isolated .sparcV9 (afterInit 3) := by
  have hnonneg : (0 : Int32) ≤ 3 := by decide
  exact ⟨by decide, isolated_of_nonneg (reachable_afterInit hnonneg trivial)⟩

/-- The record of barrier -2 is the message that 1 gets from 0, and the call overwrites it. -/
theorem not_isolated_negative :
    (segSystem .sparcV9 (fun _ _ => 1) 2).Reachable (afterInit (-2)) ∧
      ¬ Isolated .sparcV9 (afterInit (-2)) ∧
      128 ∈ (Startup.Part.slot rfl 1 0 : Startup.Part .sparcV9 2).bytes ∧
      (afterInit (-2)).words.initial (128 / 4 : Nat) = 0 ∧
      (afterInit (-2)).words.mem (128 / 4 : Nat) = 0xFFFFFFFF ∧
      ssmpGetBarrier .sparcV9 2 (-1) ≠ none := by
  have hreach : ((segSystem .sparcV9 (fun _ _ => 1) 2).restrict fun _ _ => True).Reachable
      (afterInit (-2)) := reachable_afterInit trivial trivial
  refine ⟨hreach.of_restrict, ?_, ?_, rfl, by decide, by decide⟩
  · intro h
    have hlog : (Storer.init (-2), (32 : Int)) ∈ (afterInit (-2)).words.log := by decide
    have hrange : InRange (-2) := (h.stores _ _ hlog).1
    exact absurd hrange.1 (by decide)
  · constructor <;> decide

end Barrier
end Ssmp
