import Mathlib.Data.Set.Basic
import Mathlib.Data.List.Basic
import Mathlib.Logic.Relation

/-!
# OneSlot — a one-slot channel guarded by a flag

Two parties share one slot: a family of words and a flag.  The sender fills the words while the
flag says `empty` and then raises it to `full`; the receiver copies the words out while the flag
says `full` and then lowers it to `empty`.  Either party may take the slot by an atomic
compare-and-swap to `locked` instead of a plain test, independently in every operation, and may
move the words in any order.

This module proves that the slot refines a one-place FIFO buffer (`OnePlace`), whatever the two
parties choose and however their steps interleave.  It is stated over arbitrary types of word
indices `W`, word values `V` and flags `F`.
-/

namespace Ssmp
namespace Lib

/-! ## The specification: a one-place FIFO buffer -/

/-- A buffer of one place, with the messages put into it and taken from it so far. -/
structure OnePlace (M : Type*) where
  place : Option M
  ins : List M
  outs : List M

namespace OnePlace

variable {M : Type*}

inductive Step : OnePlace M → OnePlace M → Prop where
  | put (ins outs : List M) (m : M) : Step ⟨none, ins, outs⟩ ⟨some m, ins ++ [m], outs⟩
  | get (ins outs : List M) (m : M) : Step ⟨some m, ins, outs⟩ ⟨none, ins, outs ++ [m]⟩

/-- What has been put in is what has been taken out, followed by what is still in the buffer. -/
def Fifo (b : OnePlace M) : Prop :=
  b.ins = b.outs ++ b.place.toList

end OnePlace

namespace OneSlot

/-! ## Flags, phases and states -/

/-- The three flag values of a slot, pairwise different. -/
structure FlagCode (F : Type*) where
  empty : F
  full : F
  locked : F
  empty_ne_full : empty ≠ full
  empty_ne_locked : empty ≠ locked
  full_ne_locked : full ≠ locked

/-- Sender side: not using the slot, or in possession of the empty slot with the words of `done`
already filled in.  `lk` records that the slot was taken by compare-and-swap. -/
inductive SendPhase (W : Type*) where
  | idle
  | filling (lk : Bool) (done : Set W)

/-- Receiver side: not using the slot, or in possession of the full slot with the words of `done`
already copied out. -/
inductive RecvPhase (W : Type*) where
  | idle
  | reading (lk : Bool) (done : Set W)

structure State (W V F : Type*) where
  src : W → V
  dst : W → V
  word : W → V
  flag : F
  snd : SendPhase W
  rcv : RecvPhase W
  sent : List (W → V)
  recvd : List (W → V)

variable {W V F : Type*}

/-- The flag the sender leaves in the slot while it fills it. -/
def FlagCode.sending (c : FlagCode F) (lk : Bool) : F :=
  if lk then c.locked else c.empty

/-- The flag the receiver leaves in the slot while it reads it. -/
def FlagCode.receiving (c : FlagCode F) (lk : Bool) : F :=
  if lk then c.locked else c.full

/-! ## Steps -/

/-- `new` is `old` with the words of `A` overwritten from `src`. -/
def Overlay (A : Set W) (src old new : W → V) : Prop :=
  (∀ w ∈ A, new w = src w) ∧ ∀ w ∉ A, new w = old w

section Step

variable (c : FlagCode F)

inductive Step : State W V F → State W V F → Prop where
  | load {s : State W V F} (m : W → V) (h : s.snd = .idle ∨ s.snd = .filling false ∅) :
      Step s { s with src := m }
  | scratch {s : State W V F} (b : W → V) (h : s.rcv = .idle) :
      Step s { s with dst := b }
  | observe {s : State W V F} (h : s.snd = .idle) (hf : s.flag = c.empty) :
      Step s { s with snd := .filling false ∅ }
  | forget {s : State W V F} (h : s.snd = .filling false ∅) :
      Step s { s with snd := .idle }
  | lockEmpty {s : State W V F} (h : s.snd = .idle ∨ s.snd = .filling false ∅)
      (hf : s.flag = c.empty) :
      Step s { s with flag := c.locked, snd := .filling true ∅ }
  | put {s : State W V F} (A : Set W) (word' : W → V) {lk : Bool} {done : Set W}
      (h : s.snd = .filling lk done) (hw : Overlay A s.src s.word word') :
      Step s { s with word := word', snd := .filling lk (done ∪ A) }
  | publish {s : State W V F} {lk : Bool} {done : Set W} (h : s.snd = .filling lk done)
      (hall : ∀ w, w ∈ done) :
      Step s { s with flag := c.full, snd := .idle, sent := s.sent ++ [s.src] }
  | observeFull {s : State W V F} (h : s.rcv = .idle) (hf : s.flag = c.full) :
      Step s { s with rcv := .reading false ∅ }
  | lockFull {s : State W V F} (h : s.rcv = .idle) (hf : s.flag = c.full) :
      Step s { s with flag := c.locked, rcv := .reading true ∅ }
  | take {s : State W V F} (A : Set W) (dst' : W → V) {lk : Bool} {done : Set W}
      (h : s.rcv = .reading lk done) (hw : Overlay A s.word s.dst dst') :
      Step s { s with dst := dst', rcv := .reading lk (done ∪ A) }
  | release {s : State W V F} {lk : Bool} {done : Set W} (h : s.rcv = .reading lk done)
      (hall : ∀ w, w ∈ done) :
      Step s { s with flag := c.empty, rcv := .idle, recvd := s.recvd ++ [s.dst] }

/-- Finite runs of the slot. -/
def Steps : State W V F → State W V F → Prop :=
  Relation.ReflTransGen (Step c)

/-! ## The invariant -/

/-- At most one party is in possession of the slot, its flag says which, the words moved so far
agree with their origin, and the histories differ by the message in the slot. -/
def Inv (s : State W V F) : Prop :=
  match s.snd, s.rcv with
  | .idle, .idle =>
      (s.flag = c.empty ∧ s.sent = s.recvd) ∨ (s.flag = c.full ∧ s.sent = s.recvd ++ [s.word])
  | .filling lk done, .idle =>
      s.flag = c.sending lk ∧ s.sent = s.recvd ∧ ∀ w ∈ done, s.word w = s.src w
  | .idle, .reading lk done =>
      s.flag = c.receiving lk ∧ s.sent = s.recvd ++ [s.word] ∧ ∀ w ∈ done, s.dst w = s.word w
  | .filling _ _, .reading _ _ => False

end Step

variable {c : FlagCode F} {s t : State W V F}

/-! ## The invariant, phase by phase -/

theorem inv_idle (hs : s.snd = .idle) (hr : s.rcv = .idle) :
    Inv c s ↔ (s.flag = c.empty ∧ s.sent = s.recvd) ∨
      (s.flag = c.full ∧ s.sent = s.recvd ++ [s.word]) := by
  simp [Inv, hs, hr]

theorem inv_filling {lk : Bool} {done : Set W} (hs : s.snd = .filling lk done) :
    Inv c s ↔ s.rcv = .idle ∧ s.flag = c.sending lk ∧ s.sent = s.recvd ∧
      ∀ w ∈ done, s.word w = s.src w := by
  cases hr : s.rcv with
  | idle => simp [Inv, hs, hr]
  | reading lk' done' => simp [Inv, hs, hr]

theorem inv_reading {lk : Bool} {done : Set W} (hr : s.rcv = .reading lk done) :
    Inv c s ↔ s.snd = .idle ∧ s.flag = c.receiving lk ∧ s.sent = s.recvd ++ [s.word] ∧
      ∀ w ∈ done, s.dst w = s.word w := by
  cases hs : s.snd with
  | idle => simp [Inv, hs, hr]
  | filling lk' done' => simp [Inv, hs, hr]

theorem Inv.of_idle (hs : s.snd = .idle) (hr : s.rcv = .idle)
    (h : (s.flag = c.empty ∧ s.sent = s.recvd) ∨ (s.flag = c.full ∧ s.sent = s.recvd ++ [s.word])) :
    Inv c s :=
  (inv_idle hs hr).2 h

theorem Inv.of_filling {lk : Bool} {done : Set W} (hs : s.snd = .filling lk done)
    (hr : s.rcv = .idle) (hf : s.flag = c.sending lk) (he : s.sent = s.recvd)
    (hdone : ∀ w ∈ done, s.word w = s.src w) : Inv c s :=
  (inv_filling hs).2 ⟨hr, hf, he, hdone⟩

theorem Inv.of_reading {lk : Bool} {done : Set W} (hr : s.rcv = .reading lk done)
    (hs : s.snd = .idle) (hf : s.flag = c.receiving lk) (he : s.sent = s.recvd ++ [s.word])
    (hdone : ∀ w ∈ done, s.dst w = s.word w) : Inv c s :=
  (inv_reading hr).2 ⟨hs, hf, he, hdone⟩

/-- An empty slot: the receiver is not using it and everything sent has been received. -/
theorem Inv.of_empty (h : Inv c s) (hf : s.flag = c.empty) : s.rcv = .idle ∧ s.sent = s.recvd := by
  cases hr : s.rcv with
  | idle =>
      cases hs : s.snd with
      | idle =>
          rcases (inv_idle hs hr).1 h with ⟨_, he⟩ | ⟨hfull, _⟩
          · exact ⟨rfl, he⟩
          · exact absurd (hf.symm.trans hfull) c.empty_ne_full
      | filling lk done => exact ⟨rfl, ((inv_filling hs).1 h).2.2.1⟩
  | reading lk done =>
      -- a receiver in possession leaves the flag full or locked
      have hflag := ((inv_reading hr).1 h).2.1
      cases lk with
      | false => exact absurd (hf.symm.trans hflag) c.empty_ne_full
      | true => exact absurd (hf.symm.trans hflag) c.empty_ne_locked

/-- A full slot: the sender is not using it and its words are the one message on its way. -/
theorem Inv.of_full (h : Inv c s) (hf : s.flag = c.full) :
    s.snd = .idle ∧ s.sent = s.recvd ++ [s.word] := by
  cases hs : s.snd with
  | idle =>
      cases hr : s.rcv with
      | idle =>
          rcases (inv_idle hs hr).1 h with ⟨hempty, _⟩ | ⟨_, he⟩
          · exact absurd (hempty.symm.trans hf) c.empty_ne_full
          · exact ⟨rfl, he⟩
      | reading lk done => exact ⟨rfl, ((inv_reading hr).1 h).2.2.1⟩
  | filling lk done =>
      -- a sender in possession leaves the flag empty or locked
      have hflag := ((inv_filling hs).1 h).2.1
      cases lk with
      | false => exact absurd (hflag.symm.trans hf) c.empty_ne_full
      | true => exact absurd (hf.symm.trans hflag) c.full_ne_locked

/-- A locked slot is in the possession of exactly one party, which took it by compare-and-swap. -/
theorem Inv.of_locked (h : Inv c s) (hf : s.flag = c.locked) :
    (s.rcv = .idle ∧ ∃ done, s.snd = .filling true done) ∨
      (s.snd = .idle ∧ ∃ done, s.rcv = .reading true done) := by
  cases hs : s.snd with
  | idle =>
      cases hr : s.rcv with
      | idle =>
          rcases (inv_idle hs hr).1 h with ⟨he, _⟩ | ⟨he, _⟩
          · exact absurd (he.symm.trans hf) c.empty_ne_locked
          · exact absurd (he.symm.trans hf) c.full_ne_locked
      | reading lk done =>
          have hflag := ((inv_reading hr).1 h).2.1
          cases lk with
          | false => exact absurd (hflag.symm.trans hf) c.full_ne_locked
          | true => exact Or.inr ⟨rfl, done, rfl⟩
  | filling lk done =>
      have hi := (inv_filling hs).1 h
      cases lk with
      | false => exact absurd (hi.2.1.symm.trans hf) c.empty_ne_locked
      | true => exact Or.inl ⟨hi.1, done, rfl⟩

/-- What a possession taken by compare-and-swap leaves in the flag. -/
theorem Inv.locked_of_filling (h : Inv c s) {done : Set W} (hs : s.snd = .filling true done) :
    s.flag = c.locked :=
  ((inv_filling hs).1 h).2.1

theorem Inv.locked_of_reading (h : Inv c s) {done : Set W} (hr : s.rcv = .reading true done) :
    s.flag = c.locked :=
  ((inv_reading hr).1 h).2.1

/-- The histories are equal, or differ by the message in the slot, which is full or locked. -/
theorem Inv.histories (h : Inv c s) :
    s.sent = s.recvd ∨
      (s.sent = s.recvd ++ [s.word] ∧ (s.flag = c.full ∨ s.flag = c.locked)) := by
  cases hr : s.rcv with
  | idle =>
      cases hs : s.snd with
      | idle =>
          rcases (inv_idle hs hr).1 h with ⟨_, he⟩ | ⟨hf, he⟩
          · exact Or.inl he
          · exact Or.inr ⟨he, Or.inl hf⟩
      | filling lk done => exact Or.inl ((inv_filling hs).1 h).2.2.1
  | reading lk done =>
      have hi := (inv_reading hr).1 h
      refine Or.inr ⟨hi.2.2.1, ?_⟩
      cases lk with
      | false => exact Or.inl hi.2.1
      | true => exact Or.inr hi.2.1

/-! ## Every step keeps the invariant -/

theorem overlay_agree {A done : Set W} {src old new : W → V} (hw : Overlay A src old new)
    (hold : ∀ w ∈ done, old w = src w) : ∀ w ∈ done ∪ A, new w = src w := by
  intro w hmem
  by_cases hA : w ∈ A
  · exact hw.1 w hA
  · rw [hw.2 w hA]
    exact hold w (hmem.resolve_right hA)

theorem Inv.step (h : Inv c s) (hst : Step c s t) : Inv c t := by
  -- the phase before the step picks the clause of the invariant, the phase after it the new one
  cases hst with
  | load m hs =>
      rcases hs with hs | hs
      · cases hr : s.rcv with
        | idle => exact Inv.of_idle hs rfl ((inv_idle hs hr).1 h)
        | reading lk done =>
            rcases (inv_reading hr).1 h with ⟨_, hf, he, hdone⟩
            exact Inv.of_reading rfl hs hf he hdone
      · rcases (inv_filling hs).1 h with ⟨hr, hf, he, _⟩
        exact Inv.of_filling hs hr hf he (by simp)
  | scratch b hr =>
      cases hs : s.snd with
      | idle => exact Inv.of_idle rfl hr ((inv_idle hs hr).1 h)
      | filling lk done =>
          rcases (inv_filling hs).1 h with ⟨_, hf, he, hdone⟩
          exact Inv.of_filling rfl hr hf he hdone
  | observe hs hf =>
      -- by the flag nobody else is in possession
      rcases h.of_empty hf with ⟨hr, he⟩
      exact Inv.of_filling rfl hr hf he (by simp)
  | forget hs =>
      rcases (inv_filling hs).1 h with ⟨hr, hf, he, _⟩
      exact Inv.of_idle rfl hr (Or.inl ⟨hf, he⟩)
  | lockEmpty hs hf =>
      rcases h.of_empty hf with ⟨hr, he⟩
      exact Inv.of_filling rfl hr rfl he (by simp)
  | put A word' hs hw =>
      rcases (inv_filling hs).1 h with ⟨hr, hf, he, hdone⟩
      exact Inv.of_filling rfl hr hf he (overlay_agree hw hdone)
  | publish hs hall =>
      rcases (inv_filling hs).1 h with ⟨hr, _, he, hdone⟩
      -- all words have been filled in, so the slot holds the whole message
      have hword : s.word = s.src := funext fun w => hdone w (hall w)
      refine Inv.of_idle rfl hr (Or.inr ⟨rfl, ?_⟩)
      simp [he, hword]
  | observeFull hr hf =>
      rcases h.of_full hf with ⟨hs, he⟩
      exact Inv.of_reading rfl hs hf he (by simp)
  | lockFull hr hf =>
      rcases h.of_full hf with ⟨hs, he⟩
      exact Inv.of_reading rfl hs rfl he (by simp)
  | take A dst' hr hw =>
      rcases (inv_reading hr).1 h with ⟨hs, hf, he, hdone⟩
      exact Inv.of_reading rfl hs hf he (overlay_agree hw hdone)
  | release hr hall =>
      rcases (inv_reading hr).1 h with ⟨hs, _, he, hdone⟩
      -- all words have been copied out, so the receiver has the whole message
      have hdst : s.dst = s.word := funext fun w => hdone w (hall w)
      refine Inv.of_idle hs rfl (Or.inl ⟨rfl, ?_⟩)
      simp [he, hdst]

theorem Inv.steps (h : Inv c s) (hst : Steps c s t) : Inv c t := by
  induction hst with
  | refl => exact h
  | tail _ hlast ih => exact ih.step hlast

/-! ## Derived runs -/

/-- A sender that finds the slot empty is in possession of it, whether or not it was before. -/
theorem Steps.acquire (h : s.snd = .idle ∨ s.snd = .filling false ∅) (hf : s.flag = c.empty) :
    Steps c s { s with snd := .filling false ∅ } := by
  rcases h with hs | hs
  · exact Relation.ReflTransGen.single (Step.observe hs hf)
  · rw [← hs]
    exact Relation.ReflTransGen.refl

theorem Steps.abandon (h : s.snd = .idle ∨ s.snd = .filling false ∅) :
    Steps c s { s with snd := .idle } := by
  rcases h with hs | hs
  · rw [← hs]
    exact Relation.ReflTransGen.refl
  · exact Relation.ReflTransGen.single (Step.forget hs)

/-- The sender moves its last words together with the flag. -/
theorem Steps.put_publish {A done : Set W} {word' : W → V} {lk : Bool}
    (h : s.snd = .filling lk done) (hw : Overlay A s.src s.word word') (hall : ∀ w, w ∈ done) :
    Steps c s { s with word := word', flag := c.full, snd := .idle, sent := s.sent ++ [s.src] } := by
  have hput : Step c s { s with word := word', snd := .filling lk (done ∪ A) } :=
    Step.put A word' h hw
  -- the words moved last do not matter: `done` was complete before
  refine Relation.ReflTransGen.tail (Relation.ReflTransGen.single hput) ?_
  exact Step.publish rfl fun w => Or.inl (hall w)

/-! ## Refinement of the one-place buffer -/

/-- The buffer a slot stands for: occupied exactly while a sent message has not been received. -/
def State.buffer (s : State W V F) : OnePlace (W → V) where
  place := if s.recvd.length < s.sent.length then some s.word else none
  ins := s.sent
  outs := s.recvd

theorem buffer_empty (h : s.sent = s.recvd) : s.buffer = ⟨none, s.recvd, s.recvd⟩ := by
  simp [State.buffer, h]

theorem buffer_full (h : s.sent = s.recvd ++ [s.word]) :
    s.buffer = ⟨some s.word, s.recvd ++ [s.word], s.recvd⟩ := by
  simp [State.buffer, h]

theorem Inv.fifo (h : Inv c s) : s.buffer.Fifo := by
  rcases h.histories with he | ⟨he, _⟩
  · simp [buffer_empty he, OnePlace.Fifo]
  · simp [buffer_full he, OnePlace.Fifo]

/-- A step of the slot is a step of the buffer, or leaves the buffer as it is. -/
theorem Inv.buffer_step (h : Inv c s) (hst : Step c s t) :
    s.buffer = t.buffer ∨ OnePlace.Step s.buffer t.buffer := by
  cases hst with
  | put A word' hs hw =>
      -- the words change, but nothing is on its way
      have he := ((inv_filling hs).1 h).2.2.1
      exact Or.inl (by simp [State.buffer, he])
  | publish hs hall =>
      rcases (inv_filling hs).1 h with ⟨_, _, he, hdone⟩
      have hword : s.word = s.src := funext fun w => hdone w (hall w)
      refine Or.inr ?_
      simpa [State.buffer, he, hword] using OnePlace.Step.put s.recvd s.recvd s.src
  | release hr hall =>
      rcases (inv_reading hr).1 h with ⟨_, _, he, hdone⟩
      have hdst : s.dst = s.word := funext fun w => hdone w (hall w)
      refine Or.inr ?_
      simpa [State.buffer, he, hdst] using OnePlace.Step.get (s.recvd ++ [s.word]) s.recvd s.word
  -- the other steps change neither the words nor the histories
  | _ => exact Or.inl rfl

/-- A run of the slot is a run of the buffer. -/
theorem Inv.buffer_steps (h : Inv c s) (hst : Steps c s t) :
    Relation.ReflTransGen OnePlace.Step s.buffer t.buffer := by
  induction hst with
  | refl => exact .refl
  | @tail u v hsu hlast ih =>
      rcases (h.steps hsu).buffer_step hlast with heq | hstep
      · rw [← heq]
        exact ih
      · exact ih.tail hstep

end OneSlot
end Lib
end Ssmp
