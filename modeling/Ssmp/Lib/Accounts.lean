import Mathlib.Algebra.BigOperators.Group.Finset.Basic
import Mathlib.Algebra.BigOperators.Group.Finset.Piecewise
import Mathlib.Algebra.Order.BigOperators.Group.List
import Mathlib.Data.Int.Order.Basic
import Mathlib.Algebra.Order.Ring.Int
import Mathlib.Data.List.Induction
import Mathlib.Logic.Function.Basic

/-!
# Accounts — a book of deposits and withdrawals

Requests are entered into a book one after the other.  The book keeps for every account what has been
deposited and what has been withdrawn; a withdrawal succeeds exactly when the balance suffices.  This
module is the specification of a bank: what a request is answered (`Book.answer`), what it changes
(`Book.enter`), and that no account is ever overdrawn (`Book.Solvent.replay`).
-/

namespace Ssmp
namespace Lib
namespace Accounts

universe u

inductive Request (A : Type u) where
  | deposit (a : A) (amount : Int)
  | withdraw (a : A) (amount : Int)
  | check (a : A)
  deriving DecidableEq

/-- The requests that are answered. -/
def Request.asks {A : Type u} : Request A → Bool
  | .deposit _ _ => false
  | .withdraw _ _ => true
  | .check _ => true

/-- No request moves less than nothing. -/
def Request.Nonneg {A : Type u} : Request A → Prop
  | .deposit _ amount => 0 ≤ amount
  | .withdraw _ amount => 0 ≤ amount
  | .check _ => True

instance {A : Type u} : DecidablePred (Request.Nonneg (A := A)) := fun r =>
  match r with
  | .deposit _ amount => inferInstanceAs (Decidable (0 ≤ amount))
  | .withdraw _ amount => inferInstanceAs (Decidable (0 ≤ amount))
  | .check _ => inferInstanceAs (Decidable True)

/-- What the log says of the client `c`. -/
def ofClient {C α : Type*} [DecidableEq C] (c : C) (log : List (C × α)) : List α :=
  (log.filter fun e => e.1 = c).map Prod.snd

theorem ofClient_append {C α : Type*} [DecidableEq C] {c : C} {log log' : List (C × α)} :
    ofClient c (log ++ log') = ofClient c log ++ ofClient c log' := by
  simp [ofClient]

theorem ofClient_singleton {C α : Type*} [DecidableEq C] {c c' : C} {x : α} :
    ofClient c [(c', x)] = if c' = c then [x] else [] := by
  by_cases hc : c' = c <;> simp [ofClient, hc]

/-- A sum over the log is what its clients contribute. -/
theorem sum_ofClient {C α : Type*} [DecidableEq C] [Fintype C] (f : α → Int) (log : List (C × α)) :
    (log.map fun e => f e.2).sum = ∑ c, ((ofClient c log).map f).sum := by
  induction log with
  | nil => simp [ofClient]
  | cons e log ih =>
      rcases e with ⟨c, x⟩
      have hcons : ∀ c', ((ofClient c' ((c, x) :: log)).map f).sum =
          (if c = c' then f x else 0) + ((ofClient c' log).map f).sum := by
        intro c'
        by_cases hc : c = c' <;> simp [ofClient, hc]
      simp [hcons, Finset.sum_add_distrib, ih]

structure Book (A : Type u) where
  deposited : A → Int
  withdrawn : A → Int

namespace Book

variable {A : Type u} [DecidableEq A] (b : Book A)

def empty : Book A where
  deposited _ := 0
  withdrawn _ := 0

def balance (a : A) : Int :=
  b.deposited a - b.withdrawn a

def enter : Request A → Book A
  | .deposit a amount =>
      { b with deposited := Function.update b.deposited a (b.deposited a + amount) }
  | .withdraw a amount =>
      if amount ≤ b.balance a then
        { b with withdrawn := Function.update b.withdrawn a (b.withdrawn a + amount) }
      else b
  | .check _ => b

/-- The answer to a request, if it has one: whether a withdrawal succeeds, or the balance. -/
def answer : Request A → Option Int
  | .deposit _ _ => none
  | .withdraw a amount => some (if amount ≤ b.balance a then 1 else 0)
  | .check a => some (b.balance a)

/-- The book after the requests, in this order. -/
def replay (rs : List (Request A)) : Book A :=
  rs.foldl enter empty

/-- The answers, each with the client who gets it, when the requests of the clients are entered in
this order. -/
def replies {C : Type u} : Book A → List (C × Request A) → List (C × Int)
  | _, [] => []
  | b, (c, r) :: rs => (b.answer r).toList.map (Prod.mk c) ++ replies (b.enter r) rs

/-- What the request deposits into the account `a`. -/
def amountInto (a : A) : Request A → Int
  | .deposit a' amount => if a' = a then amount else 0
  | _ => 0

variable {b} {a : A} {r : Request A} {rs rs' : List (Request A)}

@[simp] theorem replay_nil : replay ([] : List (Request A)) = empty := rfl

theorem replay_concat : replay (rs ++ [r]) = (replay rs).enter r := by
  simp [replay]

theorem replies_concat {C : Type u} {rs : List (C × Request A)} {c : C} {b : Book A} :
    replies b (rs ++ [(c, r)]) = replies b rs ++
      (((rs.map Prod.snd).foldl enter b).answer r).toList.map (Prod.mk c) := by
  induction rs generalizing b with
  | nil => simp [replies]
  | cons e rs ih =>
      rcases e with ⟨c', r'⟩
      simp only [List.cons_append, replies, ih, List.map_cons, List.foldl_cons, List.append_assoc]

theorem balance_deposit (a' : A) (amount : Int) :
    (b.enter (.deposit a' amount)).balance a = b.balance a + if a = a' then amount else 0 := by
  by_cases ha : a = a'
  · subst ha
    simp only [enter, balance, Function.update_self, if_pos]
    omega
  · simp [enter, balance, ha]

theorem enter_withdraw {a' : A} {amount : Int} (hle : amount ≤ b.balance a') :
    b.enter (.withdraw a' amount) =
      { b with withdrawn := Function.update b.withdrawn a' (b.withdrawn a' + amount) } :=
  if_pos hle

theorem enter_refused {a' : A} {amount : Int} (hlt : ¬ amount ≤ b.balance a') :
    b.enter (.withdraw a' amount) = b :=
  if_neg hlt

theorem balance_withdraw (a' : A) (amount : Int) :
    (b.enter (.withdraw a' amount)).balance a =
      b.balance a - if a = a' ∧ amount ≤ b.balance a' then amount else 0 := by
  by_cases hle : amount ≤ b.balance a'
  · rw [enter_withdraw hle]
    by_cases ha : a = a'
    · subst ha
      rw [if_pos ⟨rfl, hle⟩]
      simp only [balance, Function.update_self]
      omega
    · simp [balance, ha]
  · rw [enter_refused hle, if_neg fun h => hle h.2, Int.sub_zero]

theorem deposited_enter :
    (b.enter r).deposited a = b.deposited a + amountInto a r := by
  cases r with
  | deposit a' amount =>
      by_cases ha : a = a'
      · subst ha
        simp [enter, amountInto]
      · simp [enter, amountInto, ha, Ne.symm ha]
  | withdraw a' amount =>
      simp only [enter, amountInto, Int.add_zero]
      split <;> rfl
  | check a' => simp [enter, amountInto]

/-- The deposits of an account are those of the requests. -/
theorem deposited_replay (rs : List (Request A)) :
    (replay rs).deposited a = (rs.map (amountInto a)).sum := by
  induction rs using List.reverseRecOn with
  | nil => rfl
  | append_singleton rs r ih =>
      rw [replay_concat, deposited_enter, ih, List.map_append, List.sum_append]
      simp

theorem amountInto_nonneg (h : r.Nonneg) : 0 ≤ amountInto a r := by
  cases r with
  | deposit a' amount =>
      simp only [amountInto]
      split
      · exact h
      · exact Int.le_refl 0
  | withdraw a' amount => exact Int.le_refl 0
  | check a' => exact Int.le_refl 0

/-- Fewer requests of this kind deposit no more. -/
theorem sum_amountInto_le (h : ∀ r ∈ rs', r.Nonneg) (hpre : rs <+: rs') :
    (rs.map (amountInto a)).sum ≤ (rs'.map (amountInto a)).sum := by
  rcases hpre with ⟨post, rfl⟩
  have hpost : 0 ≤ (post.map (amountInto a)).sum := by
    refine List.sum_nonneg ?_
    intro x hx
    rcases List.mem_map.1 hx with ⟨r, hr, rfl⟩
    exact amountInto_nonneg (h r (List.mem_append_right _ hr))
  rw [List.map_append, List.sum_append]
  omega

/-- No account is overdrawn, and no less than nothing has been withdrawn. -/
structure Solvent (b : Book A) : Prop where
  balance : ∀ a, 0 ≤ b.balance a
  withdrawn : ∀ a, 0 ≤ b.withdrawn a

omit [DecidableEq A] in
theorem Solvent.empty : (empty : Book A).Solvent :=
  ⟨fun _ => Int.le_refl 0, fun _ => Int.le_refl 0⟩

theorem Solvent.enter (h : b.Solvent) (hr : r.Nonneg) : (b.enter r).Solvent := by
  cases r with
  | deposit a' amount =>
      refine ⟨?_, h.withdrawn⟩
      intro a
      rw [balance_deposit]
      have hbalance := h.balance a
      have hamount : 0 ≤ amount := hr
      split <;> omega
  | withdraw a' amount =>
      refine ⟨?_, ?_⟩
      · intro a
        rw [balance_withdraw]
        have hbalance := h.balance a
        split
        · rename_i hboth
          rw [hboth.1]
          omega
        · omega
      · intro a
        have hamount : 0 ≤ amount := hr
        by_cases hle : amount ≤ b.balance a'
        · rw [enter_withdraw hle]
          by_cases ha : a = a'
          · subst ha
            have := h.withdrawn a
            simp only [Function.update_self]
            omega
          · simp only [Function.update_of_ne ha]
            exact h.withdrawn a
        · rw [enter_refused hle]
          exact h.withdrawn a
  | check a' => exact h

/-- Requests that move no less than nothing overdraw no account. -/
theorem Solvent.replay (h : ∀ r ∈ rs, r.Nonneg) : (replay rs).Solvent := by
  induction rs using List.reverseRecOn with
  | nil => exact Solvent.empty
  | append_singleton rs r ih =>
      rw [replay_concat]
      exact (ih fun r' hr' => h r' (by simp [hr'])).enter (h r (by simp))

omit [DecidableEq A] in
/-- A balance is at most what has been deposited. -/
theorem Solvent.balance_le (h : b.Solvent) (a : A) : b.balance a ≤ b.deposited a := by
  have := h.withdrawn a
  unfold Book.balance
  omega

end Book
end Accounts
end Lib
end Ssmp
