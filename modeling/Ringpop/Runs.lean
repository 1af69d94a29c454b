import Mathlib.Data.List.Infix
import Mathlib.Tactic.Common

/-! Runs of a system that takes one step for each event: what holds in every state that
a run goes through, and which events can be blamed when it does not. -/
namespace Ringpop.Runs

variable {σ ε : Type} {step : σ → ε → σ} {condition : σ → ε → Prop}

/-- Every event meets a condition in the state in which it happens. -/
def Throughout (step : σ → ε → σ) (condition : σ → ε → Prop) : σ → List ε → Prop
  | _, [] => True
  | s, event :: rest => condition s event ∧ Throughout step condition (step s event) rest

instance Throughout.decidable [∀ s, DecidablePred (condition s)] :
    ∀ s events, Decidable (Throughout step condition s events)
  | _, [] => isTrue trivial
  | s, event :: rest => @instDecidableAnd _ _ (inferInstanceAs (Decidable (condition s event)))
      (decidable (step s event) rest)

theorem Throughout.of_prefix {s : σ} {events reached : List ε}
    (h : Throughout step condition s events) (upTo : reached <+: events) :
    Throughout step condition s reached := by
  induction reached generalizing s events with
  | nil => trivial
  | cons event reached ih =>
    obtain ⟨rest, rfl⟩ := upTo
    exact ⟨h.1, ih h.2 ⟨rest, rfl⟩⟩

theorem Throughout.of_splits {s : σ} {events : List ε}
    (h : ∀ before event rest, events = before ++ event :: rest →
      condition (before.foldl step s) event) : Throughout step condition s events := by
  induction events generalizing s with
  | nil => trivial
  | cons event events ih =>
    refine ⟨h [] event events rfl, ih fun before next rest split => ?_⟩
    exact h (event :: before) next rest (congrArg (event :: ·) split)

/-- What every step keeps holds at the end of every run. -/
theorem foldl_invariant (step : σ → ε → σ) (inv : σ → Prop)
    (keeps : ∀ s event, inv s → inv (step s event)) {s : σ} (start : inv s) (events : List ε) :
    inv (events.foldl step s) :=
  List.foldlRecOn events step start fun s held event _ => keeps s event held

/-- What every step keeps under a condition holds at the end of every run that meets it. -/
theorem Throughout.foldl_invariant (inv : σ → Prop)
    (keeps : ∀ s event, inv s → condition s event → inv (step s event)) {s : σ} (start : inv s)
    {events : List ε} (h : Throughout step condition s events) : inv (events.foldl step s) := by
  induction events generalizing s with
  | nil => exact start
  | cons event events ih => exact ih (keeps s event start h.1) h.2

/-- Steps of one kind that each use up some of a measure, to which no step adds, are as few as
the measure says. -/
theorem Throughout.countP_le (inv : σ → Prop) (measure : σ → ℕ) (kind : ε → Bool)
    (keeps : ∀ s event, inv s → condition s event → inv (step s event))
    (uses : ∀ s event, inv s → condition s event →
      measure (step s event) + (if kind event then 1 else 0) ≤ measure s)
    {s : σ} (start : inv s) {events : List ε} (h : Throughout step condition s events) :
    events.countP kind + measure (events.foldl step s) ≤ measure s := by
  induction events generalizing s with
  | nil => exact (Nat.zero_add _).le
  | cons event events ih =>
    have first := uses s event start h.1
    have others := ih (keeps s event start h.1) h.2
    rw [List.countP_cons, List.foldl_cons]
    omega

/-- Two conditions that say the same in every state of a run are met by the same runs. -/
theorem throughout_congr {condition' : σ → ε → Prop} (inv : σ → Prop) {events : List ε}
    (keeps : ∀ s, ∀ event ∈ events, inv s → inv (step s event))
    (same : ∀ s, ∀ event ∈ events, inv s → (condition s event ↔ condition' s event)) {s : σ}
    (start : inv s) :
    Throughout step condition s events ↔ Throughout step condition' s events := by
  induction events generalizing s with
  | nil => exact Iff.rfl
  | cons event events ih =>
    have here := List.mem_cons_self (a := event) (l := events)
    refine and_congr (same s event here start) (ih ?_ ?_ (keeps s event here start))
    · exact fun s event there => keeps s event (List.mem_cons_of_mem _ there)
    · exact fun s event there => same s event (List.mem_cons_of_mem _ there)

/-- Where a step that misses the condition spoils the property at once, the property
holds in every state of a run exactly when all its steps meet the condition. -/
theorem always_iff_throughout (inv property : σ → Prop) (holds : ∀ s, inv s → property s)
    (keeps : ∀ s event, inv s → condition s event → inv (step s event))
    (spoils : ∀ s event, inv s → ¬ condition s event → ¬ property (step s event)) {s : σ}
    (start : inv s) (events : List ε) :
    (∀ reached, reached <+: events → property (reached.foldl step s)) ↔
      Throughout step condition s events := by
  constructor
  · intro always
    induction events generalizing s with
    | nil => trivial
    | cons event events ih =>
      have met : condition s event := by
        by_contra missed
        exact spoils s event start missed (always [event] ⟨events, rfl⟩)
      refine ⟨met, ih (keeps s event start met) fun reached upTo => ?_⟩
      exact always (event :: reached) (List.cons_prefix_cons.mpr ⟨rfl, upTo⟩)
  · intro h reached upTo
    exact holds _ ((h.of_prefix upTo).foldl_invariant inv keeps start)

/-- A history goes on at its end. -/
theorem mem_extended {α : Type} {history : List α} {last a : α} :
    a ∈ history ++ [last] ↔ a ∈ history ∨ a = last := by
  rw [List.mem_append, List.mem_singleton]

/-- An entry of a history is the last one or comes before it. -/
theorem earlier_or_last {α : Type} {before : List α} {last a : α} {i : ℕ}
    (here : (before ++ [last])[i]? = some a) : a ∈ before ∨ (i = before.length ∧ a = last) := by
  rcases Nat.lt_or_ge i before.length with inside | outside
  · rw [List.getElem?_append_left inside] at here
    exact .inl (List.mem_of_getElem? here)
  · rw [List.getElem?_append_right outside, List.getElem?_singleton] at here
    split at here
    case isTrue first => exact .inr ⟨by omega, (Option.some.inj here).symm⟩
    case isFalse => cases here

end Ringpop.Runs
