import Ringpop.NodeInvariant

/-! What each event of a node makes its member list report: the operation that the event
performs, the updates in the `updated` events, and how they account for the new beliefs. -/
namespace Ringpop.Members
open JsString Dictionary Ringpop.Ring GreatestWins

/-- The updates in the `updated` events, in the order in which they are emitted. -/
def reported (events : List MembershipEvent) : List Update :=
  events.flatMap fun
    | .updated updates => updates
    | _ => []

/-- The reports about one address. -/
def reportedAbout (a : Address) (events : List MembershipEvent) : List Update :=
  (reported events).filter fun u => u.address = a

/-- `recordChange` for a list of updates. -/
def recorded (changes : Dict Address RecordedChange) (updates : List Update) :
    Dict Address RecordedChange :=
  updates.foldl (fun changes u => changes.set u.address ⟨u, 0⟩) changes

theorem reported_append (first second : List MembershipEvent) :
    reported (first ++ second) = reported first ++ reported second :=
  List.flatMap_append

theorem reported_eq_nil {events : List MembershipEvent}
    (silent : ∀ e ∈ events, ∀ updates, e ≠ .updated updates) : reported events = [] := by
  refine List.flatMap_eq_nil_iff.mpr fun e he => ?_
  have := silent e he
  cases e <;> first | rfl | exact absurd rfl (this _)

theorem reported_damping {events : List MembershipEvent}
    (damping : ∀ e ∈ events, e.isDamping = true) : reported events = [] :=
  reported_eq_nil fun e he updates same => by
    have := damping e he
    rw [same] at this
    cases this

theorem reported_announce (updates : List Update) (checksum : ℤ) (old : Option ℤ) :
    reported (Membership.announce updates checksum old) = updates := by
  unfold Membership.announce
  split
  case isTrue idle => rw [idle]; rfl
  case isFalse => simp [reported]

theorem get_recorded (changes : Dict Address RecordedChange) (updates : List Update)
    (a : Address) :
    (recorded changes updates).get a =
      ((updates.filter fun u => u.address = a).getLast?.map fun u => ⟨u, 0⟩).or
        (changes.get a) := by
  induction updates generalizing changes with
  | nil => rfl
  | cons u updates ih =>
    rw [recorded, List.foldl_cons]
    refine (ih _).trans ?_
    rw [Dict.get_set]
    by_cases same : u.address = a
    · rw [List.filter_cons_of_pos (by simpa using same), List.getLast?_cons, if_pos same.symm]
      cases (updates.filter fun u => u.address = a).getLast? <;> rfl
    · rw [List.filter_cons_of_neg (by simpa using same), if_neg (Ne.symm same)]

namespace Node
variable {env : Env} {node : Node}

/-- The operation of the member list that an event performs, with what it emits. -/
def performs (env : Env) (node : Node) : NodeEvent → Membership × List MembershipEvent
  | .setLocalStatus status tick => node.membership.setLocalStatus env tick status
  | .update changes => updates node changes
  | .makeSuspect address inc id tick => updates node (node.made address inc .suspect id tick)
  | .makeFaulty address inc id tick => updates node (node.made address inc .faulty id tick)
  | .makeTombstone address inc id tick => updates node (node.made address inc .tombstone id tick)
  | .onJoin =>
    match node.membership.localMember with
    | none => (node.membership, [])
    | some _ => node.membership.set env node.isReady
  | .fire timer id tick =>
    match node.stateTransitions.queue.callback timer with
    | none => (node.membership, [])
    | some timeout =>
      match timeout.transition with
      | .suspectToFaulty address inc => updates node (node.made address inc .faulty id tick)
      | .faultyToTombstone address inc => updates node (node.made address inc .tombstone id tick)
      | .tombstoneToEvict address => node.membership.evict env address
  | .handleJoin tick =>
    match node.membership.localMember with
    | none => (node.membership, [])
    | some ref =>
      if (node.membership.heap ref).status = .leave then node.membership.makeLocalAlive env tick
      else (node.membership, [])
where
  updates (node : Node) (changes : List (Update × Tick)) :
      Membership × List MembershipEvent :=
    let (m, _, events) := node.membership.update env node.isReady changes
    (m, events)

/-- The reports of an event. -/
def reports (env : Env) (node : Node) (event : NodeEvent) : List Update :=
  reported (node.performs env event).2

/-- A node after an operation of its list and the handlers of what it emits. -/
structure Emitted (node : Node) (result : Membership × List MembershipEvent) (node' : Node) :
    Prop where
  stays : node.isReady = true → node'.isReady = true
  membership : node'.membership = result.1
  changes : node'.changes = recorded node.changes (reported result.2)

theorem handle_keeps (env : Env) (node : Node) (event : MembershipEvent) :
    Emitted node (node.membership, [event]) (node.handle env event) := by
  have told (updates : List Update) (node : Node) :
      (node.onUpdatedForGossip env updates).changes = recorded node.changes updates := by
    induction updates generalizing node with
    | nil => rfl
    | cons u updates ih => exact ih ((node.handleUpdate env u).recordChange u)
  have ring (add remove : List Str) (node : Node) :
      (node.addRemoveServers env add remove).changes = node.changes := by
    unfold addRemoveServers
    split <;> rfl
  cases event with
  | updated updates =>
    refine ⟨fun ready => (told_updated env node updates).isReady.trans ready, ?_, ?_⟩
    · exact (told_updated env node updates).membership
    · rw [handle, onUpdatedForRing, ring, told]
      simp [reported]
  | set updates =>
    refine ⟨fun ready => ?_, ?_, ?_⟩
    · rw [handle, onMembershipSet, (addRemoveServers_keeps env _ _ _).1, foldl_handleUpdate_eq]
      exact ready
    · rw [handle, onMembershipSet, (addRemoveServers_keeps env _ _ _).2.1, foldl_handleUpdate_eq]
    · rw [handle, onMembershipSet, ring, foldl_handleUpdate_eq]
      rfl
  | checksumComputed | localMemberLeave | memberReusable | memberSuppressLimitExceeded =>
    exact ⟨id, rfl, rfl⟩

theorem emitted_emit (env : Env) (node : Node) (result : Membership × List MembershipEvent) :
    Emitted node result (node.emit env result) := by
  obtain ⟨m, events⟩ := result
  rw [emit]
  generalize start : ({ node with membership := m } : Node) = node₁
  have stays : node.isReady = true → node₁.isReady = true := by
    rw [← start]
    exact id
  have membership : node₁.membership = m := by rw [← start]
  have changes : node₁.changes = node.changes := by rw [← start]
  clear start
  induction events generalizing node node₁ with
  | nil => exact ⟨stays, membership, changes⟩
  | cons event events ih =>
    have first := handle_keeps env node₁ event
    have rest := ih (node₁.handle env event) (node₁.handle env event) id
      (first.membership.trans membership) rfl
    refine ⟨fun ready => rest.stays (first.stays (stays ready)), rest.membership,
      rest.changes.trans ?_⟩
    rw [first.changes, changes]
    simp [recorded, reported, List.foldl_append]

theorem apply_performs (env : Env) (node : Node) (event : NodeEvent) :
    Emitted node (node.performs env event) (node.apply env event) := by
  have idle : Emitted node (node.membership, []) node := ⟨id, rfl, rfl⟩
  cases event with
  | setLocalStatus | update | makeSuspect | makeFaulty | makeTombstone => exact emitted_emit env _ _
  | onJoin =>
    rw [apply, performs, Node.onJoin]
    cases node.membership.localMember with
    | none => exact idle
    | some ref =>
      have told := emitted_emit env node (node.membership.set env node.isReady)
      exact ⟨fun _ => rfl, told.membership, told.changes⟩
  | fire timer id tick =>
    rw [apply, performs]
    cases live : node.stateTransitions.queue.callback timer with
    | none =>
      rw [Node.fire, live]
      exact idle
    | some timeout =>
      rw [fire_of_live live]
      have told (result : Membership × List MembershipEvent) : Emitted node result
          (emit env { node with stateTransitions := node.stateTransitions.expire timer } result) :=
        have after := emitted_emit env
          { node with stateTransitions := node.stateTransitions.expire timer } result
        { after with }
      simp only
      cases timeout.transition <;> exact told _
  | handleJoin tick =>
    rw [apply, performs, Node.handleJoin]
    cases node.membership.localMember with
    | none => exact idle
    | some ref =>
      simp only
      split
      case isTrue =>
        have told := emitted_emit env node (node.membership.makeLocalAlive env tick)
        exact { told with }
      case isFalse => exact idle

/-- The belief is the last one reported, and reports about others lead up to it. -/
structure Believed (env : Env) (a : Address) (before after : Option Standing)
    (updates : List Update) : Prop where
  last : after = (updates.getLast?.map Update.standing).or before
  rising : a ≠ env.whoami → Rising before (updates.map Update.standing)

/-- How the reports about `a` account for the belief after an event. -/
inductive Accounts (env : Env) (isReady : Bool) (a : Address) (before after : Option Standing)
    (updates : List Update) : Prop
  | told (belief : Believed env a before after updates)
  | evicted (remote : a ≠ env.whoami) (silent : updates = []) (gone : after = none)
  | joined (remote : a ≠ env.whoami) (silent : updates = []) (joining : isReady = false)
      (unknown : before = none)

theorem believed_silent (env : Env) (a : Address) (view : Option Standing) :
    Believed env a view view [] := ⟨rfl, fun _ => rising_nil view⟩

theorem accounts_silent (env : Env) (isReady : Bool) (a : Address) (view : Option Standing) :
    Accounts env isReady a view view [] := .told (believed_silent env a view)

theorem Inv.believed_updates (inv : Inv env node) (changes : List (Update × Tick)) (a : Address) :
    Believed env a (node.view a) ((performs.updates env node changes).1.view a)
      (reportedAbout a (performs.updates env node changes).2) := by
  rw [performs.updates]
  cases ready : node.isReady with
  | false =>
    have silent : (Membership.update env false node.membership changes).2.2 = [] := by
      cases changes <;> rfl
    have view : (Membership.update env false node.membership changes).1.view a = node.view a := by
      rw [Membership.update_stash]
      rfl
    rw [silent, view]
    exact believed_silent env a _
  | true =>
    obtain ⟨ref, known⟩ := inv.started ready
    obtain ⟨applied, damping, checksum, old, quiet, events⟩ := inv.wellFormed.update known changes
    simp only
    rw [reportedAbout, events, reported_append, reported_damping quiet, reported_announce,
      List.nil_append]
    by_cases self : a = env.whoami
    · refine ⟨?_, fun remote => absurd self remote⟩
      have own := congrArg List.getLast? applied.own
      rw [List.getLast?_map, List.getLast?_map] at own
      rw [self, applied.wellFormed.view_whoami applied.localMember, Node.view,
        inv.wellFormed.view_whoami known, applied.self, answered, own]
      cases (refutations _ _ changes).getLast? <;> rfl
    · rw [applied.taken a self, applied.view a self]
      exact ⟨absorbAll_eq_getLast _ _, fun _ => rising_accepted _ _⟩

theorem Inv.believed_setLocalStatus (inv : Inv env node) (status : Status) (tick : Tick)
    (a : Address) :
    let result := node.membership.setLocalStatus env tick status
    Believed env a (node.view a) (result.1.view a) (reportedAbout a result.2) := by
  obtain ⟨-, -, view, u, checksum, old, address, standing, events⟩ :=
    inv.wellFormed.setLocalStatus tick status
  have quiet : reported (node.membership.leaving status) = [] := by
    rw [Membership.leaving]
    cases node.membership.localMember with
    | none => rfl
    | some ref => by_cases leave : status = .leave <;> simp [leave, reported]
  have all : reported (node.membership.setLocalStatus env tick status).2 = [u] := by
    rw [events, reported_append, quiet]
    rfl
  simp only
  rw [reportedAbout, all, view]
  by_cases self : a = env.whoami
  · refine ⟨?_, fun remote => absurd self remote⟩
    simp [self, address, standing]
  · rw [List.filter_cons_of_neg (by simpa [address] using Ne.symm self), if_neg self]
    exact believed_silent env a _

theorem Inv.accounts_set (inv : Inv env node) (a : Address) :
    let result := node.membership.set env node.isReady
    Accounts env node.isReady a (node.view a) (result.1.view a) (reportedAbout a result.2) := by
  cases ready : node.isReady with
  | true => exact accounts_silent env true a _
  | false =>
    rcases stash : node.membership.stashedUpdates with _ | _ | ⟨first, rest⟩
    case none =>
      simp only [Membership.set, stash]
      exact accounts_silent env false a _
    case some.nil =>
      simp only [Membership.set, stash]
      exact accounts_silent env false a _
    case some.cons =>
      have unknown := fun b other => (inv.joining ready b other).1
      obtain ⟨w, stays, view, -, checksum, old, events⟩ :=
        inv.wellFormed.set (List.cons_ne_nil first rest) stash unknown
      have silent : reportedAbout a (node.membership.set env false).2 = [] := by
        rw [events]
        rfl
      simp only
      rw [silent]
      by_cases self : a = env.whoami
      · have same : (node.membership.set env false).1.view a = node.view a := by
          ext s
          rw [view]
          refine or_iff_left ?_
          rintro ⟨u, hu, address, -⟩
          exact (merge_address _ (mem_mergeMembershipChangesets.mp hu)).2 (address.trans self)
        rw [same]
        exact accounts_silent env false a _
      · exact .joined self rfl rfl (unknown a self)

theorem Inv.accounts (inv : Inv env node) (event : NodeEvent) (a : Address) :
    Accounts env node.isReady a (node.view a) ((node.apply env event).view a)
      (reportedAbout a (node.performs env event).2) := by
  have view : (node.apply env event).view a = (node.performs env event).1.view a := by
    rw [Node.view, (apply_performs env node event).membership]
  have idle := accounts_silent env node.isReady a (node.view a)
  rw [view]
  cases event with
  | setLocalStatus status tick => exact .told (inv.believed_setLocalStatus status tick a)
  | update | makeSuspect | makeFaulty | makeTombstone => exact .told (inv.believed_updates _ a)
  | onJoin =>
    rw [performs]
    cases node.membership.localMember with
    | none => exact idle
    | some ref => exact inv.accounts_set a
  | fire timer id tick =>
    rw [performs]
    cases live : node.stateTransitions.queue.callback timer with
    | none => exact idle
    | some timeout =>
      obtain ⟨remote, ready⟩ := inv.live live
      simp only
      generalize timeout.transition = transition at remote
      cases transition with
      | suspectToFaulty | faultyToTombstone => exact .told (inv.believed_updates _ a)
      | tombstoneToEvict address =>
        obtain ⟨ref, known⟩ := inv.started ready
        have other : address ≠ env.whoami := remote
        obtain ⟨-, -, gone, events⟩ := inv.wellFormed.evict known other
        have silent : reportedAbout a (node.membership.evict env address).2 = [] := by
          rw [reportedAbout, reported_eq_nil]
          · rfl
          · intro e he updates same
            obtain ⟨checksum, old, rfl⟩ := events e he
            cases same
        simp only
        rw [silent, gone]
        by_cases same : a = address
        · exact .evicted (same ▸ other) rfl (if_pos same)
        · rw [if_neg same]
          exact idle
  | handleJoin tick =>
    rw [performs]
    cases node.membership.localMember with
    | none => exact idle
    | some ref =>
      simp only
      split
      case isTrue => exact .told (inv.believed_setLocalStatus .alive tick a)
      case isFalse => exact idle

end Node
end Ringpop.Members
