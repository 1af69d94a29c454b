import Ringpop.Runs

/-! How something spreads along a run: from one party to the next, each time as it was when
it was sent and not as it is when it arrives. -/
namespace Ringpop.Spreading

variable {σ ε ι : Type} (step : σ → ε → σ) (hands : σ → σ → ε → ι → ι → Prop)

/-- From one party to another in a run from `s`. `hands sent now event i j` says that `event`,
when it happens in `now`, brings to `j` what `i` had in `sent`. -/
inductive Reaches (s : σ) : List ε → ι → ι → Prop
  | here (events : List ε) (i : ι) : Reaches s events i i
  | handed {before between after : List ε} {event : ε} {i j k : ι} (reached : Reaches s before i j)
      (brought : hands (before.foldl step s) ((before ++ between).foldl step s) event j k) :
      Reaches s (before ++ between ++ event :: after) i k

variable {step hands}

/-- What every step keeps along a part of a run. -/
theorem holds_foldl (holds : σ → Prop) {allowed : ε → Prop}
    (stays : ∀ s event, allowed event → holds s → holds (step s event)) {events : List ε}
    (all : ∀ event ∈ events, allowed event) {s : σ} (start : holds s) :
    holds (events.foldl step s) :=
  List.foldlRecOn events step start fun s held event here => stays s event (all event here) held

/-- What is handed on, and is not lost once one has it, is had by all whom it reaches. -/
theorem Reaches.holds (inv : σ → Prop) (holds : σ → ι → Prop) {allowed : ε → Prop}
    (keeps : ∀ s event, allowed event → inv s → inv (step s event))
    (stays : ∀ s event i, allowed event → inv s → holds s i → holds (step s event) i)
    (passes : ∀ sent now event i j, allowed event → inv sent → inv now → hands sent now event i j →
      holds sent i → holds (step now event) j)
    {s : σ} (start : inv s) {events : List ε} (all : ∀ event ∈ events, allowed event) {i j : ι}
    (reaches : Reaches step hands s events i j) (has : holds s i) :
    holds (events.foldl step s) j := by
  have along (i : ι) {s : σ} (held : inv s) (has : holds s i) {events : List ε}
      (all : ∀ event ∈ events, allowed event) : holds (events.foldl step s) i :=
    (holds_foldl (fun s => inv s ∧ holds s i)
      (fun s event ok both => ⟨keeps s event ok both.1, stays s event i ok both.1 both.2⟩)
      all ⟨held, has⟩).2
  have invariant {events : List ε} (all : ∀ event ∈ events, allowed event) :
      inv (events.foldl step s) := holds_foldl inv keeps all start
  induction reaches with
  | here events i => exact along i start has all
  | @handed before between after event i j k reached brought ih =>
    have early : ∀ event ∈ before, allowed event := fun e he =>
      all e (List.mem_append_left _ (List.mem_append_left _ he))
    have middle : ∀ event ∈ before ++ between, allowed event := fun e he =>
      all e (List.mem_append_left _ he)
    have last : ∀ e ∈ event :: after, allowed e := fun e he => all e (List.mem_append_right _ he)
    have now := last event List.mem_cons_self
    rw [List.foldl_append, List.foldl_cons]
    refine along k (keeps _ _ now (invariant middle)) ?_ fun e he =>
      last e (List.mem_cons_of_mem _ he)
    exact passes _ _ event j k now (invariant early) (invariant middle) brought (ih early has)

end Ringpop.Spreading
