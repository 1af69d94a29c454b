import Mathlib.Data.List.Forall2
import Mathlib.Tactic.Common

/-! A function that is called again and again on a state it moves on, as `next` of an
iterator is: what its first calls return, and when another such function returns the same. -/
namespace Ringpop.RepeatedCalls

variable {σ τ α β : Type} {call : σ → Option (α × σ)} {call' : τ → Option (β × τ)}

/-- What the first calls return, if each of them comes to an end. -/
def returned (call : σ → Option (α × σ)) : ℕ → σ → Option (List α)
  | 0, _ => some []
  | n + 1, s => do
    let (a, s) ← call s
    let later ← returned call n s
    some (a :: later)

theorem returned_succ {n : ℕ} {s s' : σ} {a : α} {later : List α} (first : call s = some (a, s'))
    (rest : returned call n s' = some later) : returned call (n + 1) s = some (a :: later) := by
  simp only [returned, first, Option.bind_eq_bind, Option.bind_some, rest]

/-- A relation to the values ahead, used up one by one, foretells what the calls return. -/
theorem returned_of_ahead {call : σ → Option (Option α × σ)} (ahead : σ → List α → Prop)
    (done : ∀ s, ahead s [] → ∃ s', call s = some (none, s'))
    (value : ∀ s a later, ahead s (a :: later) → ∃ s', call s = some (some a, s') ∧ ahead s' later)
    {s : σ} {l : List α} (h : ahead s l) :
    returned call (l.length + 1) s = some (l.map some ++ [none]) := by
  induction l generalizing s with
  | nil =>
    obtain ⟨s', last⟩ := done s h
    exact returned_succ last rfl
  | cons a later ih =>
    obtain ⟨s', first, h'⟩ := value s a later h
    exact returned_succ first (ih h')

/-- Where every call is matched by one with a like answer, so is any number of calls. -/
theorem returned_matched (related : σ → τ → Prop) (like : α → β → Prop)
    (step : ∀ s t b t', related s t → call' t = some (b, t') →
      ∃ a s', call s = some (a, s') ∧ like a b ∧ related s' t')
    {n : ℕ} {s : σ} {t : τ} {answers : List β} (h : related s t)
    (run : returned call' n t = some answers) :
    ∃ l, returned call n s = some l ∧ List.Forall₂ like l answers := by
  induction n generalizing s t answers with
  | zero =>
    obtain rfl : [] = answers := Option.some.inj run
    exact ⟨[], rfl, .nil⟩
  | succ n ih =>
    simp only [returned, Option.bind_eq_bind, Option.bind_eq_some_iff] at run
    obtain ⟨⟨b, t'⟩, first', later', run', whole⟩ := run
    obtain rfl : b :: later' = answers := Option.some.inj whole
    obtain ⟨a, s', first, same, h'⟩ := step s t b t' h first'
    obtain ⟨later, run, rest⟩ := ih h' run'
    exact ⟨a :: later, returned_succ first run, .cons same rest⟩

end Ringpop.RepeatedCalls
