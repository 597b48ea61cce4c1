import Ssmp.Lib.Meetings

/-!
# LocalProof — programs on channels, proved one at a time

An assertion about a process says where it is, what it has put into its channels and what it has taken
from the others.  If every action of every program keeps it, it holds in every run
(`LocalProof.holds`).  For a message that is taken the assertion of its sender may be used: what has
been taken so far, and then the message, are the beginning of what the sender has put.
-/

namespace Ssmp
namespace Lib

open Network

universe u v w

variable {P : Type u} {M : Type v} {σ : Type w}

namespace Network

/-- What `p` has put into the channels to the others. -/
def State.puts (r : State P M σ) (p : P) : P → List M :=
  fun d => (r.chan (p, d)).ins

/-- What `p` has taken from the channels of the others. -/
def State.takes (r : State P M σ) (p : P) : P → List M :=
  fun q => (r.chan (q, p)).outs

section Frames

variable [DecidableEq P] {r u : State P M σ} {p q d : P} {m : M}

omit [DecidableEq P] in
theorem SameAt.puts (h : SameAt p r u) : u.puts p = r.puts p :=
  funext h.ins

omit [DecidableEq P] in
theorem SameAt.takes (h : SameAt p r u) : u.takes p = r.takes p :=
  funext h.outs

theorem puts_write : (r.onChan (p, d) (.write m)).puts p =
    Function.update (r.puts p) d (r.puts p d ++ [m]) := by
  funext e
  show ((r.onChan (p, d) (.write m)).chan (p, e)).ins = _
  rw [ins_write]
  by_cases he : e = d
  · subst he
    simp [State.puts]
  · simp [State.puts, he]

theorem takes_write : (r.onChan (p, d) (.write m)).takes p = r.takes p :=
  funext fun _ => outs_write

theorem puts_clear : (r.onChan (q, p) (.clear m)).puts p = r.puts p :=
  funext fun _ => ins_clear

theorem takes_clear : (r.onChan (q, p) (.clear m)).takes p =
    Function.update (r.takes p) q (r.takes p q ++ [m]) := by
  funext e
  show ((r.onChan (q, p) (.clear m)).chan (e, p)).outs = _
  rw [outs_clear]
  by_cases he : e = q
  · subst he
    simp [State.takes]
  · simp [State.takes, he]

end Frames

end Network

/-- An assertion about a process, by its location, what it has put and what it has taken. -/
abbrev Assertion (P : Type u) (M : Type v) (σ : Type w) : Type (max u v w) :=
  P → σ → (P → List M) → (P → List M) → Prop

/-- The assertion holds at first, and the actions of the programs keep it. -/
structure LocalProof [DecidableEq P] (N : Network P M σ) (I : Assertion P M σ) : Prop where
  start : ∀ p, I p (N.start p) (fun _ => []) fun _ => []
  put : ∀ {p l ins outs d m k}, I p l ins outs →
    N.next p l = .put d m k ∨ N.next p l = .overwrite d m k →
      I p k (Function.update ins d (ins d ++ [m])) outs
  take : ∀ {p l ins outs q l' ins' outs' f m}, I p l ins outs → I q l' ins' outs' →
    N.next p l = .take q f → outs q ++ [m] <+: ins' p →
      I p (f m) ins (Function.update outs q (outs q ++ [m]))
  scan : ∀ {p l ins outs q l' ins' outs' srcs f m}, I p l ins outs → I q l' ins' outs' →
    N.next p l = .scan srcs f → q ∈ srcs → outs q ++ [m] <+: ins' p →
      I p (f q m) ins (Function.update outs q (outs q ++ [m]))
  meet : ∀ {p l ins outs k}, I p l ins outs → N.next p l = .meet k → I p k ins outs

namespace LocalProof

variable [DecidableEq P] {N : Network P M σ} {H : Halls P σ} {I : Assertion P M σ}
variable {r u : Network.State P M σ} {s t : Meetings P M σ} {p : P}

/-- The assertion of process `p` in a state. -/
def At (I : Assertion P M σ) (r : Network.State P M σ) (p : P) : Prop :=
  I p (r.loc p) (r.puts p) (r.takes p)

omit [DecidableEq P] in
theorem at_same (h : At I r p) (hsame : SameAt p r u) : At I u p := by
  unfold At
  rw [hsame.loc, SameAt.puts hsame, SameAt.takes hsame]
  exact h

omit [DecidableEq P] in
/-- What is taken comes behind what has been taken, at the beginning of what has been put. -/
theorem prefix_of_fifo {q : P} {m : M} (hfifo : (r.chan (q, p)).Fifo)
    (hm : (r.chan (q, p)).place = some m) : r.takes p q ++ [m] <+: r.puts q p := by
  have heq : (r.chan (q, p)).ins = (r.chan (q, p)).outs ++ [m] := by
    simpa [OnePlace.Fifo, hm] using hfifo
  show (r.chan (q, p)).outs ++ [m] <+: (r.chan (q, p)).ins
  rw [heq]

/-- The action of process `p` keeps its assertion. -/
theorem move (hI : LocalProof N I) (hfifo : ∀ ij, (r.chan ij).Fifo) (h : ∀ p, At I r p)
    (hmove : N.Step r p u) (hmeet : ∀ k, N.next p (r.loc p) ≠ .meet k) : At I u p := by
  unfold At
  cases hmove with
  | @put d m k hnext _ =>
      have hkept := hI.put (h p) (Or.inl hnext)
      rw [← puts_write, ← takes_write (d := d) (m := m)] at hkept
      rw [goto_loc_self]
      exact hkept
  | @overwrite d m k hnext =>
      have hkept := hI.put (h p) (Or.inr hnext)
      rw [← puts_write, ← takes_write (d := d) (m := m)] at hkept
      rw [goto_loc_self]
      exact hkept
  | @take q m f hnext hm =>
      have hkept := hI.take (h p) (h q) hnext (prefix_of_fifo (hfifo _) hm)
      rw [← takes_clear, ← puts_clear (q := q) (m := m)] at hkept
      rw [goto_loc_self]
      exact hkept
  | pass _ _ _ => exact h p
  | wrap _ _ => exact h p
  | @hit q m srcs f hnext hq hm =>
      have hkept := hI.scan (h p) (h q) hnext (List.mem_of_getElem? hq)
        (prefix_of_fifo (hfifo _) hm)
      rw [← takes_clear, ← puts_clear (q := q) (m := m)] at hkept
      rw [goto_loc_self]
      exact hkept
  | arrive hnext _ => exact absurd hnext (hmeet _)
  | leave hnext _ _ => exact absurd hnext (hmeet _)

theorem goto_meet (hI : LocalProof N I) (h : At I r p) {k : σ} (hnext : N.next p (r.loc p) = .meet k) :
    At I (r.goto p k) p := by
  unfold At
  rw [goto_loc_self]
  exact hI.meet h hnext

/-- What is proved of every program holds in every run of all of them. -/
theorem holds (hI : LocalProof N I)
    (hsafe : ∀ s, (Meetings.system N H).Reachable s → N.Safe s.net)
    (h : (Meetings.system N H).Reachable s) (p : P) : At I s.net p := by
  have hall : ∀ p, At I s.net p := by
    induction h with
    | @init s h0 =>
        have hinit : Meetings.Init N s := h0
        intro p
        have hputs : s.net.puts p = fun _ => [] := by
          funext d
          show (s.net.chan (p, d)).ins = []
          rw [hinit.net.chan]
          rfl
        have htakes : s.net.takes p = fun _ => [] := by
          funext q
          show (s.net.chan (q, p)).outs = []
          rw [hinit.net.chan]
          rfl
        unfold At
        rw [hinit.net.loc, hputs, htakes]
        exact hI.start p
    | @step s t p hr hst ih =>
        have hstep : Meetings.Step N H s p t := hst
        intro q
        by_cases hq : q = p
        · subst hq
          cases hstep with
          | move hmove hmeet => exact hI.move (Meetings.fifo hsafe hr) ih hmove hmeet
          | skip hnext _ => exact hI.goto_meet (ih q) hnext
          | come _ _ _ => exact ih q
          | pass hnext _ _ => exact hI.goto_meet (ih q) hnext
        · exact at_same (ih q) (hstep.sameAt hq)
  exact hall p

end LocalProof

/-- What follows the first `k` of a sequence of messages, in the first `j`, is the message `k`. -/
theorem next_of_range {f : Nat → M} {k j : Nat} {m : M}
    (h : (List.range k).map f ++ [m] <+: (List.range j).map f) : k < j ∧ m = f k := by
  have hlen := h.length_le
  simp only [List.length_append, List.length_map, List.length_range, List.length_singleton] at hlen
  refine ⟨hlen, ?_⟩
  obtain ⟨rest, hrest⟩ := h
  have hat := congrArg (fun l => l[k]?) hrest
  simp only [List.append_assoc, List.singleton_append, List.getElem?_map, List.getElem?_range hlen,
    Option.map_some] at hat
  rw [List.getElem?_append_right (by simp)] at hat
  simpa using hat

/-- A network that never overwrites is safe. -/
theorem Network.safe_of_waits {N : Network P M σ} (h : ∀ p l d m k, N.next p l ≠ .overwrite d m k)
    (r : Network.State P M σ) : N.Safe r :=
  fun p d m k hnext => absurd hnext (h p (r.loc p) d m k)

end Lib
end Ssmp
