import Ssmp.Big.Events

/-!
# Big.Ledger — what every run of a big transfer keeps

The ledger of a state says where each party is in its code and that the spans and chunks of the
calls add up.  It holds in every reachable state whatever the flag does, and it decides which event
a step is; `invariant_of_events` is the invariant rule the later modules use.
-/

namespace Ssmp
namespace Big

open Lib

section Ledger

variable {R : Type} {C : ℕ+} {moves : Nat → List Piece} {s : State R}
variable {sends : List (R × List UInt8)} {asks : R → List Nat}

/-- All the spans of the calls `sends`. -/
def allSpans (C : ℕ+) (sends : List (R × List UInt8)) : List (Span R) :=
  sends.flatMap fun m => spans C m.1 m.2

/-- The number of chunks that receiver `r` asks for in all. -/
def allAsked (C : ℕ+) (asks : R → List Nat) (r : R) : Nat :=
  ((asks r).map (numChunks C)).sum

/-- Positions and counts: every span has been begun or is left, every chunk a receiver asks for has
been released, is being read or is left. -/
structure Ledger (C : ℕ+) (moves : Nat → List Piece) (sends : List (R × List UInt8))
    (asks : R → List Nat) (s : State R) : Prop where
  spans : s.begun ++ s.spansLeft C = allSpans C sends
  sender : SendIdle C moves s.sendCode ∨
    ∃ x ps, SendCopying C moves x ps s.sendCode ∧ s.begun.getLast? = some x
  receivers : ∀ r,
    (RecvIdle moves (s.recvCode r) ∧ s.asksLeft C r + s.took r = allAsked C asks r) ∨
      ∃ off ps, RecvReading moves off ps (s.recvCode r) ∧
        s.asksLeft C r + s.took r + 1 = allAsked C asks r
  sendTodo : s.sendTodo <:+ sends
  recvTodo : ∀ r, s.recvTodo r <:+ asks r

theorem Ledger.sendEvent (h : Ledger C moves sends asks s) :
    SendEvent C moves s (s.sendStep C moves) := by
  rcases h.sender with hidle | ⟨x, ps, hcopying, _⟩
  · exact sendEvent_idle hidle
  · exact sendEvent_copying hcopying

theorem Ledger.init (h : s.Init C sends asks) : Ledger C moves sends asks s := by
  refine ⟨?_, Or.inl ?_, ?_, ?_, ?_⟩
  · simp [State.spansLeft, allSpans, h.begun, h.sendCode, h.sendTodo]
  · rw [h.sendCode]
    exact SendIdle.nil
  · intro r
    left
    rw [h.recvCode r]
    exact ⟨RecvIdle.nil, by simp [State.asksLeft, allAsked, h.recvCode, h.recvTodo, h.took]⟩
  · exact h.sendTodo ▸ List.suffix_refl _
  · exact fun r => h.recvTodo ▸ List.suffix_refl _

theorem Ledger.sendStep (h : Ledger C moves sends asks s) :
    Ledger C moves sends asks (s.sendStep C moves) := by
  have hsame : SameReceivers s (s.sendStep C moves) := sendStep_same s
  have hrecv : ∀ r, (s.sendStep C moves).asksLeft C r = s.asksLeft C r := hsame.asksLeft
  refine ⟨?_, ?_, ?_, (sendStep_todo s).trans h.sendTodo, ?_⟩
  · -- a span moves from those left to those begun, or none does
    rw [← h.spans]
    cases h.sendEvent with
    | quiet hs ht hchunk hbegun hstored hleft => rw [hbegun, hleft]
    | begins x hs ht hflag hchunk hbegun hstored hleft =>
        rw [hbegun, hleft, List.append_assoc, List.singleton_append]
    | copies x p ps hs ht hchunk hbegun hstored hleft => rw [hbegun, hleft]
    | stores x hs ht hflag hbegun hstored hleft => rw [hbegun, hleft]
  · cases h.sendEvent with
    | quiet hs ht hchunk hbegun hstored hleft => exact Or.inl ht
    | begins x hs ht hflag hchunk hbegun hstored hleft =>
        exact Or.inr ⟨x, _, ht, by simp [hbegun]⟩
    | copies x p ps hs ht hchunk hbegun hstored hleft =>
        refine Or.inr ⟨x, ps, ht, ?_⟩
        -- the sender goes on with the span that was begun last
        rcases h.sender with hidle | ⟨y, qs, hy, hlast⟩
        · exact absurd hs hidle.not_copying
        · rw [hbegun, hlast, (hy.head hs).1]
    | stores x hs ht hflag hbegun hstored hleft => exact Or.inl ht
  · intro r
    rw [hsame.code, hsame.took, hrecv]
    exact h.receivers r
  · intro r
    rw [hsame.todo]
    exact h.recvTodo r

variable [DecidableEq R]

theorem Ledger.recvEvent (h : Ledger C moves sends asks s) (r : R) :
    RecvEvent C moves r s (s.recvStep C moves r) := by
  rcases h.receivers r with ⟨hidle, _⟩ | ⟨off, ps, hreading, _⟩
  · exact recvEvent_idle hidle
  · exact recvEvent_reading hreading

theorem Ledger.recvStep (h : Ledger C moves sends asks s) (r : R) :
    Ledger C moves sends asks (s.recvStep C moves r) := by
  have hsame : SameButReceiver r s (s.recvStep C moves r) := recvStep_same r s
  refine ⟨?_, ?_, ?_, ?_, ?_⟩
  · rw [hsame.begun, hsame.spansLeft]
    exact h.spans
  · rw [hsame.sendCode, hsame.begun]
    exact h.sender
  · intro r'
    by_cases hr : r' = r
    · subst hr
      -- the counts add up before the step, so one case of `h.receivers` is left for each event
      cases h.recvEvent r' with
      | quiet hs ht hchunk htakes htook hleft =>
          rcases h.receivers r' with ⟨_, hsum⟩ | ⟨off, ps, hreading, _⟩
          · exact Or.inl ⟨ht, by omega⟩
          · exact absurd hreading hs.not_reading
      | takes off ps hs ht hflag hchunk htakes htook hleft =>
          rcases h.receivers r' with ⟨_, hsum⟩ | ⟨off, ps, hreading, _⟩
          · exact Or.inr ⟨_, _, ht, by omega⟩
          · exact absurd hreading hs.not_reading
      | copies off p ps hs ht hchunk htakes htook hleft =>
          rcases h.receivers r' with ⟨hidle, _⟩ | ⟨_, _, _, hsum⟩
          · exact absurd hs hidle.not_reading
          · exact Or.inr ⟨_, _, ht, by omega⟩
      | stores off hs ht hflag htakes htook hleft =>
          rcases h.receivers r' with ⟨hidle, _⟩ | ⟨_, _, _, hsum⟩
          · exact absurd hs hidle.not_reading
          · exact Or.inl ⟨ht, by omega⟩
    · rw [hsame.recvCode r' hr, hsame.took r' hr, hsame.asksLeft hr]
      exact h.receivers r'
  · rw [hsame.sendTodo]
    exact h.sendTodo
  · intro r'
    by_cases hr : r' = r
    · subst hr
      exact (recvStep_todo r' s).trans (h.recvTodo r')
    · rw [hsame.recvTodo r' hr]
      exact h.recvTodo r'

theorem ledger_of_reachable (h : (system C moves sends asks).Reachable s) :
    Ledger C moves sends asks s := by
  apply TransSys.Reachable.invariant (I := Ledger C moves sends asks) _ _ h
  · exact fun s hs => Ledger.init hs
  · rintro s party t hs rfl
    cases party with
    | sender => exact hs.sendStep
    | receiver r => exact hs.recvStep r

/-- An invariant is shown event by event, with the ledger at hand. -/
theorem invariant_of_events {I : State R → Prop} (hinit : ∀ s, s.Init C sends asks → I s)
    (hsend : ∀ s t, Ledger C moves sends asks s → Ledger C moves sends asks t → I s →
      SameReceivers s t → SendEvent C moves s t → I t)
    (hrecv : ∀ s t r, Ledger C moves sends asks s → Ledger C moves sends asks t → I s →
      SameButReceiver r s t → RecvEvent C moves r s t → I t)
    (h : (system C moves sends asks).Reachable s) : I s := by
  -- by induction on the run; the ledger tells which event each step is
  induction h with
  | init h0 => exact hinit _ h0
  | @step s t party hreach hst ih =>
      have hs := ledger_of_reachable hreach
      have hstep : t = s.step C moves party := hst
      subst hstep
      cases party with
      | sender => exact hsend _ _ hs hs.sendStep ih (sendStep_same s) hs.sendEvent
      | receiver r => exact hrecv _ _ r hs (hs.recvStep r) ih (recvStep_same r s) (hs.recvEvent r)

end Ledger

end Big
end Ssmp
