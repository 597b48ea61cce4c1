import Ssmp.Process

/-!
# Actions — properties of all actions of a program

The actions a call has left are those it was entered with, up to the position in a scanning loop
and the body of the test that succeeded.  So a property of the actions of every call, bodies of
loops included, is a property of whatever a process does next, in every reachable state
(`everyIn_of_reachable`).
-/

namespace Ssmp

open Lib

section Actions

variable {L : MsgLayout} {n : Nat} {prog : Program n} {s : Sys L n} {me : Fin n} {a : Act n}
variable {rest c c' : List (Act n)} {P Q : Act n → Prop}

/-- The actions that may follow a test of a scanning loop at index `k`. -/
def Act.body : Act n → Nat → List (Act n)
  | .scan _ _ body _, k => body k
  | .scanStart _ _ body, k => body k
  | _, _ => []

/-- `P` holds of the action and of all actions in its bodies. -/
inductive Act.Every (P : Act n → Prop) : Act n → Prop where
  | intro {a : Act n} (h : P a) (hbody : ∀ k, ∀ b ∈ a.body k, Act.Every P b) : Act.Every P a

def EveryIn (P : Act n → Prop) (c : List (Act n)) : Prop :=
  ∀ a ∈ c, a.Every P

def Program.Every (prog : Program n) (P : Act n → Prop) : Prop :=
  ∀ me free code, prog me free code → EveryIn P code

theorem Act.Every.head (h : a.Every P) : P a := by
  cases h with
  | intro hP _ => exact hP

theorem Act.Every.body (h : a.Every P) (k : Nat) : EveryIn P (a.body k) := by
  cases h with
  | intro _ hbody => exact hbody k

theorem Act.Every.imp (hPQ : ∀ a, P a → Q a) (h : a.Every P) : a.Every Q := by
  induction h with
  | intro hP _ ih => exact Act.Every.intro (hPQ _ hP) ih

/-- An action without bodies. -/
theorem Act.Every.single (h : P a) (hbody : ∀ k, a.body k = []) : a.Every P := by
  refine Act.Every.intro h ?_
  intro k b hb
  rw [hbody k] at hb
  exact absurd hb (List.not_mem_nil)

theorem EveryIn.nil : EveryIn P [] := by
  intro a ha
  exact absurd ha List.not_mem_nil

theorem EveryIn.cons (ha : a.Every P) (hc : EveryIn P c) : EveryIn P (a :: c) := by
  intro b hb
  rcases List.mem_cons.1 hb with rfl | hmem
  · exact ha
  · exact hc b hmem

theorem EveryIn.append (hc : EveryIn P c) (hc' : EveryIn P c') : EveryIn P (c ++ c') := by
  intro b hb
  rcases List.mem_append.1 hb with hmem | hmem
  · exact hc b hmem
  · exact hc' b hmem

theorem EveryIn.map {α : Type} {f : α → Act n} {l : List α} (h : ∀ x ∈ l, (f x).Every P) :
    EveryIn P (l.map f) := by
  intro b hb
  rcases List.mem_map.1 hb with ⟨x, hx, rfl⟩
  exact h x hx

theorem EveryIn.flatMap {α : Type} {f : α → List (Act n)} {l : List α}
    (h : ∀ x ∈ l, EveryIn P (f x)) : EveryIn P (l.flatMap f) := by
  intro b hb
  rcases List.mem_flatMap.1 hb with ⟨x, hx, hmem⟩
  exact h x hx b hmem

/-! ## What one action leaves of a call -/

@[simp] theorem setProc_proc (p : Proc n) : (s.setProc me p).proc me = p := by
  simp [Sys.setProc]

theorem setProc_proc_ne {i : Fin n} (hi : i ≠ me) (p : Proc n) :
    (s.setProc me p).proc i = s.proc i := by
  simp [Sys.setProc, hi]

/-- An action changes its own process only. -/
theorem execAct_proc_ne {i : Fin n} (hi : i ≠ me) :
    (s.execAct me a rest).proc i = s.proc i := by
  have hprobe : ∀ t hit (next : Proc n), (s.probe me t hit next).proc i = s.proc i := by
    intro t hit next
    cases t with
    | none => exact setProc_proc_ne hi next
    | some rl =>
        simp only [Sys.probe]
        split
        · split <;> exact setProc_proc_ne hi _
        · exact setProc_proc_ne hi next
  -- the actions differ only in whether they branch
  cases a with
  | store q v =>
      cases q with
      | sendBuf d => simp only [Sys.execAct]; split <;> exact setProc_proc_ne hi _
      | recvBuf r => simp only [Sys.execAct]; split <;> exact setProc_proc_ne hi _
  | scan num test body k =>
      simp only [Sys.execAct]
      split
      · exact hprobe _ _ _
      · exact setProc_proc_ne hi _
  | scanStart num test body =>
      simp only [Sys.execAct]
      split
      · exact hprobe _ _ _
      · exact setProc_proc_ne hi _
  | await q v => simp only [Sys.execAct]; split; exacts [setProc_proc_ne hi _, rfl]
  | cas q old new => simp only [Sys.execAct]; split; exacts [setProc_proc_ne hi _, rfl]
  | copyOut d pc => simp only [Sys.execAct]; split <;> exact setProc_proc_ne hi _
  | _ => exact setProc_proc_ne hi _

/-- An action changes no slot but those of its own process. -/
theorem execAct_slot_ne {ij : Fin n × Fin n} (hsend : ij.1 ≠ me) (hrecv : ij.2 ≠ me) :
    (s.execAct me a rest).slot ij = s.slot ij := by
  have hpair : ∀ q : SlotRef n, ij ≠ q.pair me := by
    rintro (d | r) rfl
    · exact hsend rfl
    · exact hrecv rfl
  have hprobe : ∀ t hit (next : Proc n), (s.probe me t hit next).slot ij = s.slot ij := by
    intro t hit next
    cases t with
    | none => rfl
    | some rl =>
        simp only [Sys.probe]
        split
        · split
          · exact Function.update_of_ne (hpair (.recvBuf rl.1)) _ _
          · rfl
        · rfl
  cases a with
  | store q v =>
      cases q with
      | sendBuf d =>
          simp only [Sys.execAct]
          split <;> exact Function.update_of_ne (hpair (.sendBuf d)) _ _
      | recvBuf r =>
          simp only [Sys.execAct]
          split <;> exact Function.update_of_ne (hpair (.recvBuf r)) _ _
  | scan num test body k =>
      simp only [Sys.execAct]
      split
      · exact hprobe _ _ _
      · rfl
  | scanStart num test body =>
      simp only [Sys.execAct]
      split
      · exact hprobe _ _ _
      · rfl
  | await q v => simp only [Sys.execAct]; split <;> rfl
  | cas q old new =>
      simp only [Sys.execAct]
      split
      · exact Function.update_of_ne (hpair q) _ _
      · rfl
  | copyOut d pc =>
      simp only [Sys.execAct]
      split <;> exact Function.update_of_ne (hpair (.sendBuf d)) _ _
  | _ => rfl

theorem exec_proc_ne {i : Fin n} {t : Sys L n} (hex : s.exec me = some t) (hi : i ≠ me) :
    t.proc i = s.proc i := by
  rcases Sys.exec_eq_some hex with ⟨a, rest, _, rfl⟩
  exact execAct_proc_ne hi

theorem exec_slot_ne {ij : Fin n × Fin n} {t : Sys L n} (hex : s.exec me = some t)
    (hsend : ij.1 ≠ me) (hrecv : ij.2 ≠ me) : t.slot ij = s.slot ij := by
  rcases Sys.exec_eq_some hex with ⟨a, rest, _, rfl⟩
  exact execAct_slot_ne hsend hrecv

/-- The actions left after an action: the rest of the call; or the same actions, when a wait fails
or a scan goes on; or a body and the rest. -/
theorem execAct_code (hcode : (s.proc me).code = a :: rest) :
    let c' := ((s.execAct me a rest).proc me).code
    c' = rest ∨ c' = a :: rest ∨ (∃ k, c' = a.body k ++ rest) ∨
      ∃ num test body k k', a = .scan num test body k ∧ c' = .scan num test body k' :: rest := by
  have hprobe : ∀ t hit (next : Proc n),
      ((s.probe me t hit next).proc me).code = hit ∨
        ((s.probe me t hit next).proc me).code = next.code := by
    intro t hit next
    cases t with
    | none => exact Or.inr (by simp [Sys.probe])
    | some rl =>
        simp only [Sys.probe]
        split
        · split <;> exact Or.inl (by simp)
        · exact Or.inr (by simp)
  intro c'
  -- case by case: which of the four forms an action leaves
  cases a with
  | await q v =>
      by_cases hf : s.flag me q = v
      · exact Or.inl (by simp [c', Sys.execAct, hf])
      · exact Or.inr (Or.inl (by simp [c', Sys.execAct, hf, hcode]))
  | cas q old new =>
      by_cases hf : s.flag me q = old
      · exact Or.inl (by simp [c', Sys.execAct, hf])
      · exact Or.inr (Or.inl (by simp [c', Sys.execAct, hf, hcode]))
  | scan num test body k =>
      by_cases hk : k < num
      · simp only [c', Sys.execAct, hk, if_true]
        rcases hprobe (test k) (body k ++ rest)
          { s.proc me with code := .scan num test body (k + 1) :: rest } with hhit | hnext
        · exact Or.inr (Or.inr (Or.inl ⟨k, hhit⟩))
        · exact Or.inr (Or.inr (Or.inr ⟨num, test, body, k, k + 1, rfl, hnext⟩))
      · refine Or.inr (Or.inr (Or.inr ⟨num, test, body, k, 0, rfl, ?_⟩))
        simp [c', Sys.execAct, hk]
  | scanStart num test body =>
      by_cases hk : (s.proc me).startRecvFrom < num
      · simp only [c', Sys.execAct, hk, if_true]
        rcases hprobe (test (s.proc me).startRecvFrom) (body (s.proc me).startRecvFrom ++ rest)
          { s.proc me with startRecvFrom := (s.proc me).startRecvFrom + 1 } with hhit | hnext
        · exact Or.inr (Or.inr (Or.inl ⟨_, hhit⟩))
        · exact Or.inr (Or.inl (hnext.trans hcode))
      · exact Or.inr (Or.inl (by simp [c', Sys.execAct, hk, hcode]))
  | copyOut d pc =>
      refine Or.inl ?_
      simp only [c', Sys.execAct]
      split <;> simp
  | store q v =>
      refine Or.inl ?_
      cases q with
      | sendBuf d => simp only [c', Sys.execAct]; split <;> simp [Sys.logSent]
      | recvBuf r => simp only [c', Sys.execAct]; split <;> simp [Sys.logRecvd]
  | _ => exact Or.inl (by simp [c', Sys.execAct])

/-! ## Every reachable state -/

/-- `P` does not depend on how far a scanning loop has come. -/
def ScanInvariant (P : Act n → Prop) : Prop :=
  ∀ num test body k k', P (.scan num test body k) → P (.scan num test body k')

theorem everyIn_execAct (hscan : ScanInvariant P) (hcode : (s.proc me).code = a :: rest)
    (h : EveryIn P (a :: rest)) : EveryIn P ((s.execAct me a rest).proc me).code := by
  have ha : a.Every P := h a (by simp)
  have hrest : EveryIn P rest := fun b hb => h b (by simp [hb])
  rcases execAct_code hcode with heq | heq | ⟨k, heq⟩ | ⟨num, test, body, k, k', rfl, heq⟩
  · -- the call goes on with the next action
    rw [heq]
    exact hrest
  · rw [heq]
    exact h
  · rw [heq]
    exact EveryIn.append (ha.body k) hrest
  · rw [heq]
    exact EveryIn.cons (Act.Every.intro (hscan _ _ _ k k' ha.head) ha.body) hrest

/-- In every reachable state, what holds of all actions of the program holds of those a process
has left. -/
theorem everyIn_of_reachable (hscan : ScanInvariant P) (hprog : prog.Every P)
    (h : (system L n prog).Reachable s) (i : Fin n) : EveryIn P (s.proc i).code := by
  have hall : ∀ i, EveryIn P (s.proc i).code := by
    refine TransSys.Reachable.invariant (I := fun s => ∀ i, EveryIn P (s.proc i).code) ?_ ?_ h
    · intro s hs i
      rw [hs.idle i]
      exact EveryIn.nil
    · intro s l t hs hst i
      cases hst with
      -- a call brings in new actions, and these are actions of the program
      | @call me code msg hidle hcall =>
          by_cases hi : i = me
          · subst hi
            simpa [Sys.enter] using hprog _ _ _ hcall
          · simpa [Sys.enter, setProc_proc_ne hi] using hs i
      | @run _ me hex =>
          rcases Sys.exec_eq_some hex with ⟨a, rest, hcode, rfl⟩
          by_cases hi : i = me
          · subst hi
            exact everyIn_execAct hscan hcode (hcode ▸ hs i)
          · rw [execAct_proc_ne hi]
            exact hs i
  exact hall i

end Actions

end Ssmp
