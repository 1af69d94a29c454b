import Ringpop.NodeReports
import Ringpop.MembershipIndex
import Ringpop.Runs

/-! The history of a member: what a node believes about it only moves forward for as
long as it stays in the list, and every move is reported. -/
namespace Ringpop.Members
open JsString Dictionary GreatestWins

/-- A node with all the updates that its list has reported. -/
structure Life where
  node : Node
  history : List Update

/-- What happens to a node over its life. The draws of `reap` are the identifier and the
readings that each pass of its loop takes. -/
inductive LifeEvent where
  | event (event : NodeEvent)
  | reap (draw : ℕ → Str × Tick)
  | shuffle (order : List ℕ)

namespace Life
variable (env : Env)

def new (periods : Periods) : Life := ⟨.new env periods, []⟩

def tell (life : Life) (event : NodeEvent) : Life :=
  ⟨life.node.apply env event, life.history ++ life.node.reports env event⟩

/-- The body of the loop of `handleReap`. -/
def reapMember (draw : ℕ → Str × Tick) (life : Life) (ref : ℕ) : Life :=
  let member := life.node.membership.heap ref
  if member.status = .faulty then
    life.tell env
      (.makeTombstone member.address member.incarnationNumber (draw ref).1 (draw ref).2)
  else life

def handleReap (draw : ℕ → Str × Tick) (life : Life) : Life :=
  match life.node.membership.localMember with
  | none => life
  | some _ => life.node.membership.members.foldl (reapMember env draw) life

def live (life : Life) : LifeEvent → Life
  | .event event => life.tell env event
  | .reap draw => life.handleReap env draw
  | .shuffle order =>
    { life with node := { life.node with membership := life.node.membership.shuffle order } }

def run (periods : Periods) (events : List LifeEvent) : Life :=
  events.foldl (live env) (new env periods)

/-- An event that does not take the address off the list. -/
def Stays (a : Address) (life : Life) (event : LifeEvent) : Prop :=
  (life.node.view a).isSome → ((life.live env event).node.view a).isSome

end Life

/-- A belief goes up through the reports, and only a new one can come without any. -/
structure Forward (before after : Option Standing) (updates : List Update) : Prop where
  rising : Rising before (updates.map Update.standing)
  last : after = (updates.getLast?.map Update.standing).or before ∨ updates = [] ∧ before = none

theorem forward_refl (view : Option Standing) : Forward view view [] :=
  ⟨rising_nil view, .inl rfl⟩

theorem Forward.trans {first second third : Option Standing} {updates more : List Update}
    (h : Forward first second updates) (h' : Forward second third more) :
    Forward first third (updates ++ more) := by
  rcases h.last with told | ⟨silent, unknown⟩
  · have high := h'.rising
    rw [told, ← List.getLast?_map] at high
    refine ⟨List.map_append ▸ rising_append h.rising high, ?_⟩
    rcases h'.last with last | ⟨silent', unknown'⟩
    · left
      rw [last, told, List.getLast?_append]
      cases more.getLast? <;> rfl
    · right
      obtain ⟨none, first_none⟩ := Option.or_eq_none_iff.mp (told.symm.trans unknown')
      have silent : updates = [] :=
        List.getLast?_eq_none_iff.mp (Option.map_eq_none_iff.mp none)
      exact ⟨by rw [silent, silent', List.append_nil], first_none⟩
  · subst silent unknown
    refine ⟨h'.rising.values, ?_⟩
    rcases h'.last with last | ⟨silent', -⟩
    · rcases more with _ | ⟨u, more⟩
      · exact .inr ⟨rfl, rfl⟩
      · left
        rw [last, List.nil_append, List.getLast?_cons]
        rfl
    · exact .inr ⟨silent', rfl⟩

/-- What is known of a member while it stays in the list. -/
theorem Forward.known {s : Standing} {after : Option Standing} {updates : List Update}
    (h : Forward (some s) after updates) :
    ∃ s', after = some s' ∧ s' = (updates.getLast?.map Update.standing).getD s ∧ s ≤ s' := by
  rcases h.last with told | ⟨-, unknown⟩
  · refine ⟨(updates.getLast?.map Update.standing).getD s, ?_, rfl, ?_⟩
    · rw [told]
      cases updates.getLast? <;> rfl
    · rw [← List.getLast?_map]
      exact h.rising.le_last
  · cases unknown

/-- An alive member is below every other status of its incarnation. -/
theorem Standing.revived {s s' : Standing} (le : s ≤ s') (dying : s.status ≠ .alive)
    (alive : s'.status = .alive) : s.incarnationNumber < s'.incarnationNumber := by
  rcases Standing.le_iff.mp le with less | ⟨-, precedence⟩
  · exact less
  · rw [alive] at precedence
    cases status : s.status <;> simp [status, statusPrecedence] at precedence dying

namespace Life
open Node
variable {env : Env} {life : Life} {a : Address}

/-- From one state of a life to a later one. -/
def Steps (a : Address) (before after : Life) : Prop :=
  ∃ updates, after.history = before.history ++ updates ∧
    Forward (before.node.view a) (after.node.view a) (updates.filter fun u => u.address = a)

theorem steps_refl (a : Address) (life : Life) : Steps a life life :=
  ⟨[], (List.append_nil _).symm, forward_refl _⟩

theorem Steps.trans {first second third : Life} (h : Steps a first second)
    (h' : Steps a second third) : Steps a first third := by
  obtain ⟨updates, history, forward⟩ := h
  obtain ⟨more, history', forward'⟩ := h'
  refine ⟨updates ++ more, by rw [history', history, List.append_assoc], ?_⟩
  rw [List.filter_append]
  exact forward.trans forward'

theorem steps_tell (inv : Inv env life.node) (remote : a ≠ env.whoami) (event : NodeEvent)
    (stays : Stays env a life (.event event)) : Steps a life (life.tell env event) := by
  refine ⟨life.node.reports env event, rfl, ?_⟩
  cases inv.accounts event a with
  | told belief => exact ⟨belief.rising remote, .inl belief.last⟩
  | evicted _ silent gone =>
    have unknown : life.node.view a = none := by
      by_contra known
      have still := stays (Option.isSome_iff_ne_none.mpr known)
      rw [live, tell, gone] at still
      cases still
    rw [tell, gone, unknown]
    change Forward none none (reportedAbout a _)
    rw [silent]
    exact forward_refl none
  | joined _ silent _ unknown =>
    refine ⟨?_, .inr ⟨silent, unknown⟩⟩
    change Rising _ ((reportedAbout a _).map _)
    rw [silent]
    exact rising_nil _

/-- A tombstone for a member keeps it in the list. -/
theorem steps_reapMember (inv : Inv env life.node) (remote : a ≠ env.whoami)
    (draw : ℕ → Str × Tick) (ref : ℕ) : Steps a life (life.reapMember env draw ref) := by
  rw [reapMember]
  split
  case isFalse => exact steps_refl a life
  case isTrue =>
    refine steps_tell inv remote _ fun known => ?_
    rw [live, tell, Node.view, (apply_performs env life.node _).membership, performs,
      (inv.believed_updates _ a).last, Option.isSome_or, known, Bool.or_true]

theorem inv_reapMember (inv : Inv env life.node) (draw : ℕ → Str × Tick) (ref : ℕ) :
    Inv env (life.reapMember env draw ref).node := by
  rw [reapMember]
  split
  case isFalse => exact inv
  case isTrue => exact inv.apply (.makeTombstone _ _ _ _)

/-- What every pass of the loop of `handleReap` keeps, the whole of it keeps. -/
theorem handleReap_induction (property : Life → Prop) {draw : ℕ → Str × Tick}
    (pass : ∀ later ref, property later → property (later.reapMember env draw ref))
    (start : property life) : property (life.handleReap env draw) := by
  rw [handleReap]
  cases life.node.membership.localMember with
  | none => exact start
  | some ref => exact Runs.foldl_invariant _ property pass start _

theorem steps_handleReap (inv : Inv env life.node) (remote : a ≠ env.whoami)
    (draw : ℕ → Str × Tick) : Steps a life (life.handleReap env draw) :=
  (handleReap_induction (fun later => Inv env later.node ∧ Steps a life later)
    (fun _ ref ⟨inv, steps⟩ =>
      ⟨inv_reapMember inv draw ref, steps.trans (steps_reapMember inv remote draw ref)⟩)
    ⟨inv, steps_refl a life⟩).2

theorem inv_shuffle (inv : Inv env life.node) (order : List ℕ) :
    Inv env (life.live env (.shuffle order)).node :=
  inv.remembered (inv.wellFormed.shuffle order) (Membership.localMember_shuffle _ order)
    (Membership.view_shuffle _ order)

theorem inv_live (inv : Inv env life.node) (event : LifeEvent) :
    Inv env (life.live env event).node := by
  cases event with
  | event event => exact inv.apply event
  | reap draw =>
    exact handleReap_induction (fun later => Inv env later.node)
      (fun _ ref inv => inv_reapMember inv draw ref) inv
  | shuffle order => exact inv_shuffle inv order

theorem steps_live (inv : Inv env life.node) (remote : a ≠ env.whoami) {event : LifeEvent}
    (stays : Stays env a life event) : Steps a life (life.live env event) := by
  cases event with
  | event event => exact steps_tell inv remote event stays
  | reap draw => exact steps_handleReap inv remote draw
  | shuffle order =>
    refine ⟨[], (List.append_nil _).symm, ?_⟩
    have same : (life.live env (.shuffle order)).node.view a = life.node.view a :=
      Membership.view_shuffle _ order a
    rw [same]
    exact forward_refl _

theorem steps_run (inv : Inv env life.node) (remote : a ≠ env.whoami) {events : List LifeEvent}
    (stays : Runs.Throughout (live env) (Stays env a) life events) :
    Steps a life (events.foldl (live env) life) :=
  (stays.foldl_invariant (fun later => Inv env later.node ∧ Steps a life later)
    (fun _ event ⟨inv, steps⟩ stays =>
      ⟨inv_live inv event, steps.trans (steps_live inv remote stays)⟩)
    ⟨inv, steps_refl a life⟩).2

/-- While a member stays in the list its standing only goes up, once for each report
about it; no report comes twice, and a dying member is alive again only later on. -/
theorem run_forward (env : Env) (periods : Periods) (before after : List LifeEvent) {a : Address}
    (remote : a ≠ env.whoami)
    (stays : Runs.Throughout (live env) (Stays env a) (run env periods before) after) :
    let start := run env periods before
    let finish := after.foldl (live env) start
    ∃ updates, finish.history = start.history ++ updates ∧
      let about := updates.filter fun u => u.address = a
      about.Pairwise (fun u v => u.standing < v.standing) ∧ about.Nodup ∧
      ∀ s, start.node.view a = some s → (∀ u ∈ about, s < u.standing) ∧
        ∃ s', finish.node.view a = some s' ∧
          s' = (about.getLast?.map Update.standing).getD s ∧ s ≤ s' ∧
          (s.status ≠ .alive → s'.status = .alive →
            s.incarnationNumber < s'.incarnationNumber) := by
  intro start finish
  have inv : Inv env start.node :=
    Runs.foldl_invariant (live env) (fun life => Inv env life.node)
      (fun _ event inv => inv_live inv event) (inv_new env periods) before
  obtain ⟨updates, history, forward⟩ := steps_run inv remote stays
  have rising : (updates.filter fun u => u.address = a).Pairwise
      fun u v => u.standing < v.standing := List.pairwise_map.mp forward.rising.values
  refine ⟨updates, history, rising, rising.imp fun less => ?_, fun s known => ?_⟩
  · rintro rfl
    exact lt_irrefl _ less
  · rw [known] at forward
    obtain ⟨s', view, last, le⟩ := forward.known
    refine ⟨fun u hu => forward.rising.above _ (List.mem_map_of_mem hu), s', view, last, le, ?_⟩
    exact Standing.revived le

theorem run_forward_reap :
    let env := Env.sample (.of "a:1" (by decide))
    let b := Address.of "b:1" (by decide)
    let tick : Tick := ⟨7, [], 0⟩
    let change (status : Status) : Update × Tick := (⟨b, status, 3, none, none, none⟩, tick)
    let start := run env ⟨none, none, none⟩ [.event (.setLocalStatus .alive tick), .event .onJoin,
      .event (.update [change .suspect])]
    let finish := [LifeEvent.event (.update [change .alive, change .faulty]),
      .reap fun _ => ([], tick)].foldl (live env) start
    ∃ updates, finish.history = start.history ++ updates ∧
      ∃ s', finish.node.view b = some s' ∧ (⟨3, .suspect⟩ : Standing) ≤ s' ∧
        (s'.status = .alive → 3 < s'.incarnationNumber) := by
  intro env b tick change start finish
  have stays : Runs.Throughout (live env) (Stays env b) start
      [.event (.update [change .alive, change .faulty]), .reap fun _ => ([], tick)] :=
    ⟨fun _ => by decide, fun _ => by decide, trivial⟩
  obtain ⟨updates, history, -, -, known⟩ := run_forward env ⟨none, none, none⟩ _ _ (by decide) stays
  obtain ⟨-, s', view, -, le, revived⟩ := known ⟨3, .suspect⟩ (by decide)
  exact ⟨updates, history, s', view, le, revived (by decide)⟩

end Life
end Ringpop.Members
