import Ringpop.MembershipView

/-! `Membership.update` as an operation on standings: rumours about other members
are absorbed one by one, rumours about the local member are refuted. -/
namespace Ringpop.Members
open JsString Dictionary GreatestWins

/-- The changes about one address, in their order. -/
def about (a : Address) (changes : List (Update × Tick)) : List Update :=
  (changes.map Prod.fst).filter fun change => change.address = a

/-- The answers to rumours about the local member: what is published, and the rumour. -/
def refutations (whoami : Address) : Standing → List (Update × Tick) → List (Standing × Standing)
  | _, [] => []
  | s, (change, tick) :: rest =>
    if change.address = whoami ∧ s < change.standing then
      (⟨tick.now, s.status⟩, change.standing) :: refutations whoami ⟨tick.now, s.status⟩ rest
    else refutations whoami s rest

/-- The local standing after the answers. -/
def answered (s : Standing) (answers : List (Standing × Standing)) : Standing :=
  (answers.getLast?.map Prod.fst).getD s

theorem answered_cons (s : Standing) (answer : Standing × Standing)
    (rest : List (Standing × Standing)) :
    answered s (answer :: rest) = answered answer.1 rest := by
  rw [answered, answered, List.getLast?_cons]
  cases rest.getLast? <;> rfl

theorem status_refutations {whoami : Address} {s : Standing} {changes : List (Update × Tick)} :
    ∀ answer ∈ refutations whoami s changes, answer.1.status = s.status := by
  induction changes generalizing s with
  | nil => exact nofun
  | cons change rest ih =>
    obtain ⟨change, tick⟩ := change
    rw [refutations]
    split
    · exact List.forall_mem_cons.mpr ⟨rfl, ih (s := ⟨tick.now, s.status⟩)⟩
    · exact ih

theorem status_answered (whoami : Address) (s : Standing) (changes : List (Update × Tick)) :
    (answered s (refutations whoami s changes)).status = s.status := by
  rw [answered]
  cases last : (refutations whoami s changes).getLast? with
  | none => rfl
  | some answer => exact status_refutations answer (List.mem_of_getLast? last)

namespace Membership
variable {env : Env} {m : Membership}

/-- The effect of a list of changes on a list with a local member. -/
structure Applied (env : Env) (m : Membership) (ref : ℕ) (changes : List (Update × Tick))
    (m' : Membership) (updates : List Update) : Prop where
  wellFormed : WellFormed env m'
  localMember : m'.localMember = some ref
  view : ∀ a ≠ env.whoami,
    m'.view a = absorbAll refused Update.standing (m.view a) (about a changes)
  taken : ∀ a ≠ env.whoami, updates.filter (fun u => u.address = a) =
    accepted refused Update.standing (m.view a) (about a changes)
  self : m'.localStanding ref =
    answered (m.localStanding ref) (refutations env.whoami (m.localStanding ref) changes)
  own : (updates.filter fun u => u.address = env.whoami).map Update.standing =
    (refutations env.whoami (m.localStanding ref) changes).map Prod.fst

/-- A refutation keeps the local status. -/
theorem Applied.own_status {ref : ℕ} {changes : List (Update × Tick)} {m' : Membership}
    {updates : List Update} (applied : Applied env m ref changes m' updates) {u : Update}
    (hu : u ∈ updates.filter fun u => u.address = env.whoami) :
    u.status = (m.localStanding ref).status := by
  have listed : u.standing ∈ (updates.filter fun u => u.address = env.whoami).map
    Update.standing := List.mem_map_of_mem hu
  rw [applied.own, List.mem_map] at listed
  obtain ⟨answer, answers, standing⟩ := listed
  have status := status_refutations answer answers
  rw [standing] at status
  exact status

theorem Applied.local_status {ref : ℕ} {changes : List (Update × Tick)} {m' : Membership}
    {updates : List Update} (applied : Applied env m ref changes m' updates) :
    (m'.localStanding ref).status = (m.localStanding ref).status := by
  rw [applied.self, status_answered]

theorem WellFormed.applied_nil (w : WellFormed env m) {ref : ℕ}
    (known : m.localMember = some ref) : Applied env m ref [] m [] :=
  ⟨w, known, fun _ _ => rfl, fun _ _ => rfl, rfl, rfl⟩

theorem Rewritten.localStanding {m' : Membership} {a : Address} {s : Standing}
    (r : Rewritten env m m' a s) (w : WellFormed env m) {ref : ℕ}
    (known : m.localMember = some ref) :
    m'.localStanding ref = if env.whoami = a then s else m.localStanding ref := by
  have view := r.view env.whoami
  rw [w.view_whoami known, r.wellFormed.view_whoami (r.localMember.trans known)] at view
  by_cases self : env.whoami = a
  · rw [if_pos self] at view ⊢
    exact Option.some.inj view
  · rw [if_neg self] at view ⊢
    exact Option.some.inj view

theorem WellFormed.takes_whoami (w : WellFormed env m) {ref : ℕ} (known : m.localMember = some ref)
    {change : Update} (self : change.address = env.whoami) :
    m.takes change = decide (m.localStanding ref < change.standing) := by
  rw [takes, self, w.view_whoami known]
  rfl

theorem about_cons (a : Address) (change : Update) (tick : Tick) (rest : List (Update × Tick)) :
    about a ((change, tick) :: rest) =
      if change.address = a then change :: about a rest else about a rest := by
  by_cases h : change.address = a <;> simp [about, h]

theorem Applied.skip {change : Update} {tick : Tick} {rest : List (Update × Tick)} {ref : ℕ}
    {m' : Membership} {updates : List Update} (w : WellFormed env m)
    (known : m.localMember = some ref) (h : m.takes change = false)
    (applied : Applied env m ref rest m' updates) :
    Applied env m ref ((change, tick) :: rest) m' updates := by
  have quiet : refutations env.whoami (m.localStanding ref) ((change, tick) :: rest) =
      refutations env.whoami (m.localStanding ref) rest := by
    rw [refutations, if_neg]
    rintro ⟨self, less⟩
    rw [w.takes_whoami known self, decide_eq_false_iff_not] at h
    exact h less
  refine ⟨applied.wellFormed, applied.localMember, fun a other => ?_, fun a other => ?_, ?_, ?_⟩
  · rw [applied.view a other, about_cons]
    split
    case isTrue same =>
      subst same
      rw [absorbAll_cons, absorb_of_not_admits h]
    case isFalse => rfl
  · rw [applied.taken a other, about_cons]
    split
    case isTrue same =>
      subst same
      rw [accepted, if_neg (by simpa [takes] using h)]
    case isFalse => rfl
  · rw [quiet, applied.self]
  · rw [quiet, applied.own]

theorem Applied.take {change : Update} {tick : Tick} {rest : List (Update × Tick)} {ref : ℕ}
    {m₁ m' : Membership} {updates : List Update} (w : WellFormed env m)
    (known : m.localMember = some ref) (h : m.takes change = true)
    (other : change.address ≠ env.whoami)
    (step : Rewritten env m m₁ change.address change.standing)
    (applied : Applied env m₁ ref rest m' updates) :
    Applied env m ref ((change, tick) :: rest) m' (change :: updates) := by
  have same : m₁.localStanding ref = m.localStanding ref := by
    rw [step.localStanding w known, if_neg other.symm]
  have quiet : refutations env.whoami (m.localStanding ref) ((change, tick) :: rest) =
      refutations env.whoami (m.localStanding ref) rest := by
    rw [refutations, if_neg fun self => other self.1]
  have own := applied.own
  have self := applied.self
  rw [same] at own self
  refine ⟨applied.wellFormed, applied.localMember, fun a ha => ?_, fun a ha => ?_, ?_, ?_⟩
  · rw [applied.view a ha, step.view, about_cons]
    by_cases here : change.address = a
    · subst here
      rw [if_pos rfl, if_pos rfl, absorbAll_cons, absorb_of_admits h]
    · rw [if_neg (Ne.symm here), if_neg here]
  · have tail := applied.taken a ha
    rw [step.view] at tail
    rw [about_cons]
    by_cases here : change.address = a
    · subst here
      rw [if_pos rfl] at tail
      rw [List.filter_cons_of_pos (by simp), if_pos rfl, accepted,
        if_pos (show admits _ _ _ = true from h), tail]
    · rw [if_neg (Ne.symm here)] at tail
      rw [List.filter_cons_of_neg (by simpa using here), if_neg here, tail]
  · rw [quiet, self]
  · rw [quiet, List.filter_cons_of_neg (by simpa using other), own]

theorem Applied.refute {change : Update} {tick : Tick} {rest : List (Update × Tick)} {ref : ℕ}
    {m₁ m' : Membership} {updates : List Update} {answer : Update} (w : WellFormed env m)
    (known : m.localMember = some ref) (h : m.takes change = true)
    (self : change.address = env.whoami)
    (step : Rewritten env m m₁ env.whoami ⟨tick.now, (m.localStanding ref).status⟩)
    (address : answer.address = env.whoami)
    (standing : answer.standing = ⟨tick.now, (m.localStanding ref).status⟩)
    (applied : Applied env m₁ ref rest m' updates) :
    Applied env m ref ((change, tick) :: rest) m' (answer :: updates) := by
  have less : m.localStanding ref < change.standing := by
    rw [w.takes_whoami known self] at h
    exact of_decide_eq_true h
  have now : m₁.localStanding ref = ⟨tick.now, (m.localStanding ref).status⟩ := by
    rw [step.localStanding w known, if_pos rfl]
  have head : refutations env.whoami (m.localStanding ref) ((change, tick) :: rest) =
      (⟨tick.now, (m.localStanding ref).status⟩, change.standing) ::
        refutations env.whoami ⟨tick.now, (m.localStanding ref).status⟩ rest := by
    rw [refutations, if_pos ⟨self, less⟩]
  refine ⟨applied.wellFormed, applied.localMember, fun a ha => ?_, fun a ha => ?_, ?_, ?_⟩
  · rw [applied.view a ha, step.view, if_neg ha, about_cons,
      if_neg fun same => ha (same.symm.trans self)]
  · have tail := applied.taken a ha
    rw [step.view, if_neg ha] at tail
    rw [List.filter_cons_of_neg (by simpa [address] using ha.symm), about_cons,
      if_neg fun same => ha (same.symm.trans self), tail]
  · rw [head, answered_cons, applied.self, now]
  · rw [head, List.filter_cons_of_pos (by simpa using address), List.map_cons, List.map_cons,
      applied.own, now, standing]

theorem processChanges_applied (w : WellFormed env m) {ref : ℕ}
    (known : m.localMember = some ref) (changes : List (Update × Tick)) :
    Applied env m ref changes (processChanges env m changes).1
      (processChanges env m changes).2.1 ∧
    ∀ e ∈ (processChanges env m changes).2.2, e.isDamping = true := by
  induction changes generalizing m with
  | nil => exact ⟨w.applied_nil known, nofun⟩
  | cons change rest ih =>
    obtain ⟨change, tick⟩ := change
    rw [processChanges]
    cases h : m.takes change with
    | false =>
      rw [processChange_skip h]
      obtain ⟨applied, damping⟩ := ih w known
      exact ⟨applied.skip w known h, damping⟩
    | true =>
      by_cases self : change.address = env.whoami
      · rw [w.processChange_local known tick h self]
        obtain ⟨step, address, standing⟩ := w.reincarnate known tick
        obtain ⟨applied, damping⟩ := ih step.wellFormed (step.localMember.trans known)
        exact ⟨applied.refute w known h self step address standing, damping⟩
      · obtain ⟨m₁, events, run, step, quiet⟩ := w.processChange_other tick h self
        rw [run]
        obtain ⟨applied, damping⟩ := ih step.wellFormed (step.localMember.trans known)
        exact ⟨applied.take w known h self step, List.forall_mem_append.mpr ⟨quiet, damping⟩⟩

end Membership
end Ringpop.Members
