import Mathlib.Data.Set.Basic
import Mathlib.Logic.Function.Basic

/-!
# StoreLog — who has stored where

A memory that records for each store on whose behalf it was made.  What no store has gone to is as it
was (`Framed`), and if every store stays within what its tag may touch (`Within`), so does every
change: a place that no tag may touch never changes.
-/

namespace Ssmp
namespace Lib

universe u v w

/-- A memory, as it is and as it was at first, and the stores made since then. -/
structure StoreLog (τ : Type u) (α : Type v) (β : Type w) where
  mem : α → β
  initial : α → β
  log : List (τ × α)

namespace StoreLog

variable {τ : Type u} {α : Type v} {β : Type w}

def fresh (initial : α → β) : StoreLog τ α β where
  mem := initial
  initial := initial
  log := []

section Stores

variable [DecidableEq α]

def store (t : τ) (a : α) (x : β) (m : StoreLog τ α β) : StoreLog τ α β where
  mem := Function.update m.mem a x
  initial := m.initial
  log := m.log ++ [(t, a)]

/-- Several stores, one after the other. -/
def stores (t : τ) (cells : List (α × β)) (m : StoreLog τ α β) : StoreLog τ α β :=
  cells.foldl (fun m c => m.store t c.1 c.2) m

end Stores

/-! ## Frames -/

/-- What no store has gone to is as it was. -/
def Framed (m : StoreLog τ α β) : Prop :=
  ∀ a, (∀ t, (t, a) ∉ m.log) → m.mem a = m.initial a

/-- The stores of each tag are within what it may touch. -/
def Within (allowed : τ → Set α) (m : StoreLog τ α β) : Prop :=
  ∀ t a, (t, a) ∈ m.log → a ∈ allowed t

variable {m : StoreLog τ α β} {allowed : τ → Set α} {t : τ} {a : α} {x : β}

theorem framed_fresh (initial : α → β) : (fresh initial : StoreLog τ α β).Framed :=
  fun _ _ => rfl

theorem within_fresh (initial : α → β) : (fresh initial : StoreLog τ α β).Within allowed := by
  intro t a h
  cases h

/-- A change has been made by someone who may make it. -/
theorem exists_of_ne (hframed : m.Framed) (hwithin : m.Within allowed)
    (hne : m.mem a ≠ m.initial a) : ∃ t, (t, a) ∈ m.log ∧ a ∈ allowed t := by
  by_contra hnone
  refine hne (hframed a fun t ht => hnone ⟨t, ht, hwithin t a ht⟩)

section Stores

variable [DecidableEq α] {cells : List (α × β)}

theorem Framed.store (h : m.Framed) : (m.store t a x).Framed := by
  intro b hb
  have hne : b ≠ a := by
    rintro rfl
    exact hb t (List.mem_append_right _ (List.mem_singleton.2 rfl))
  have hold := h b fun t' ht' => hb t' (List.mem_append_left _ ht')
  exact (Function.update_of_ne hne x m.mem).trans hold

theorem Within.store (h : m.Within allowed) (ha : a ∈ allowed t) :
    (m.store t a x).Within allowed := by
  intro t' b hb
  rcases List.mem_append.1 hb with hold | hnew
  · exact h t' b hold
  · cases List.mem_singleton.1 hnew
    exact ha

theorem Framed.stores (h : m.Framed) : (m.stores t cells).Framed := by
  induction cells generalizing m with
  | nil => exact h
  | cons c cells ih => exact ih h.store

theorem Within.stores (h : m.Within allowed) (hcells : ∀ c ∈ cells, c.1 ∈ allowed t) :
    (m.stores t cells).Within allowed := by
  induction cells generalizing m with
  | nil => exact h
  | cons c cells ih =>
      exact ih (h.store (hcells c List.mem_cons_self)) fun c' hc' =>
        hcells c' (List.mem_cons_of_mem c hc')

end Stores

end StoreLog
end Lib
end Ssmp
