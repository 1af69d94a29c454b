import Mathlib.Data.List.Perm.Subperm
import Mathlib.Tactic.Common

/-! Taking turns in rounds. Each round serves the same candidates in some order of its
own; whoever takes over in the middle of a round has seen everybody after less than two. -/
namespace Ringpop.Turns

variable {α : Type} {candidates pending later : List α} {served : Option α}

/-- One turn, with the candidates that are still to come in its round before and after. -/
inductive Turn (candidates : List α) : List α → Option α → List α → Prop
  | next (a : α) (pending : List α) : Turn candidates (a :: pending) (some a) pending
  | round (a : α) (pending : List α) (order : (a :: pending).Perm candidates) :
      Turn candidates [] (some a) pending
  | nobody (pending : List α) (empty : candidates = []) : Turn candidates [] none pending

/-- Consecutive turns. -/
inductive Served (candidates : List α) : List α → List (Option α) → Prop
  | nil (pending : List α) : Served candidates pending []
  | cons {pending later : List α} {served : Option α} {rest : List (Option α)} :
      Turn candidates pending served later → Served candidates later rest →
        Served candidates pending (served :: rest)

theorem Turn.result (h : Turn candidates pending served later)
    (part : ∀ a ∈ pending, a ∈ candidates) :
    (∀ a, served = some a → a ∈ candidates) ∧ (served = none ↔ candidates = []) := by
  have somebody {a : α} (listed : a ∈ candidates) :
      (∀ b, some a = some b → b ∈ candidates) ∧ (some a = none ↔ candidates = []) := by
    refine ⟨fun b h => Option.some.inj h ▸ listed, by simp, fun empty => ?_⟩
    rw [empty] at listed
    cases listed
  cases h with
  | next a => exact somebody (part a List.mem_cons_self)
  | round a pending order => exact somebody (order.mem_iff.mp List.mem_cons_self)
  | nobody _ empty => exact ⟨by simp, fun _ => empty, fun _ => rfl⟩

/-- The order of the candidates does not matter to the turns. -/
theorem Turn.reorder {candidates' : List α} (h : Turn candidates pending served later)
    (order : candidates.Perm candidates') : Turn candidates' pending served later := by
  cases h with
  | next a => exact .next a _
  | round a _ same => exact .round a _ (same.trans order)
  | nobody _ empty => exact .nobody _ (List.perm_nil.mp (empty ▸ order.symm))

theorem Served.reorder {candidates' : List α} {results : List (Option α)}
    (h : Served candidates pending results) (order : candidates.Perm candidates') :
    Served candidates' pending results := by
  induction h with
  | nil pending => exact .nil pending
  | cons turn _ ih => exact .cons (turn.reorder order) ih

/-- The rest of a round comes first. -/
theorem Served.rest {results : List (Option α)} (h : Served candidates pending results)
    (long : pending.length ≤ results.length) :
    ∃ more, results = pending.map some ++ more ∧ Served candidates [] more := by
  induction pending generalizing results with
  | nil => exact ⟨results, rfl, h⟩
  | cons a pending ih =>
    cases h with
    | nil => cases long
    | cons turn h =>
      cases turn with
      | next =>
        obtain ⟨more, rfl, after⟩ := ih h (Nat.le_of_succ_le_succ long)
        exact ⟨more, rfl, after⟩

/-- A whole round serves everybody. -/
theorem Served.whole {results : List (Option α)} (h : Served candidates [] results)
    (long : candidates.length ≤ results.length) {a : α} (listed : a ∈ candidates) :
    some a ∈ results := by
  cases h with
  | nil => exact absurd (List.length_pos_of_mem listed) (Nat.not_lt.mpr long)
  | cons turn h =>
    cases turn with
    | nobody _ empty =>
      rw [empty] at listed
      cases listed
    | round b pending order =>
      have same := order.length_eq
      rw [List.length_cons] at same long
      obtain ⟨more, rfl, -⟩ := h.rest (by omega)
      rw [← List.cons_append, ← List.map_cons]
      exact List.mem_append_left _ (List.mem_map_of_mem (order.mem_iff.mpr listed))

/-- Among `2 * k - 1` turns each of `k` candidates has one. -/
theorem Served.covers {results : List (Option α)} (h : Served candidates pending results)
    (part : pending.Subperm candidates) (long : 2 * candidates.length - 1 ≤ results.length)
    {a : α} (listed : a ∈ candidates) : some a ∈ results := by
  have some := List.length_pos_of_mem listed
  by_cases full : candidates.length ≤ pending.length
  case pos =>
    have order := part.perm_of_length_le full
    have same := order.length_eq
    obtain ⟨more, rfl, -⟩ := h.rest (by omega)
    exact List.mem_append_left _ (List.mem_map_of_mem (order.mem_iff.mpr listed))
  case neg =>
    obtain ⟨more, rfl, after⟩ := h.rest (by omega)
    rw [List.length_append, List.length_map] at long
    exact List.mem_append_right _ (after.whole (by omega) listed)

end Ringpop.Turns
