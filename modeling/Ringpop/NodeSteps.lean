import Ringpop.Node
import Ringpop.BootstrapMerge
import Ringpop.RingRouting

/-! What each operation of a node does to its beliefs, its alarms and its ring,
address by address, and what holds between beliefs and alarms in every run. -/
namespace Ringpop.Members
open JsString Dictionary Ringpop.Ring GreatestWins

namespace Node
variable {env : Env} {node : Node}

def view (node : Node) (a : Address) : Option Standing := node.membership.view a

def alarm (node : Node) (a : Address) : Option (Status × Option Transition) :=
  node.stateTransitions.alarm a

def inRing (node : Node) (s : Str) : Bool := node.ring.servers.has s

/-- The changes about `a` that the node takes from a list of changes, in their order. -/
def taken (node : Node) (changes : List (Update × Tick)) (a : Address) : List Update :=
  accepted refused Update.standing (node.view a) (about a changes)

/-- Whether a standing puts its address on the ring. -/
def pingable (s : Option Standing) : Bool := s.any fun s => isStatusPingable s.status

/-- What a batch of updates about one server makes of its place on the ring. -/
def enlisted (current : Bool) (updates : List Update) : Bool :=
  (current || updates.any fun u => isStatusPingable u.status) &&
    updates.all fun u => isStatusPingable u.status

/-- An alarm is set for the status of its member, or was set for a tombstone that is gone. -/
def Tracks (alarm : Option (Status × Option Transition)) (s : Option Standing) : Prop :=
  ∀ state callback, alarm = some (state, callback) →
    s = none ∧ state = .tombstone ∨ ∃ standing, s = some standing ∧ standing.status = state

theorem tracks_none (s : Option Standing) : Tracks none s := by
  intro state callback armed
  cases armed

theorem mem_serversToAdd {updates : List Update} {a : Address} :
    a.name ∈ serversToAdd updates ↔
      ∃ u ∈ updates.filter fun u => u.address = a, isStatusPingable u.status = true := by
  simp only [serversToAdd, List.mem_map, List.mem_filter, decide_eq_true_eq]
  constructor
  · rintro ⟨u, ⟨hu, status⟩, name⟩
    refine ⟨u, ⟨hu, Address.name_injective name⟩, ?_⟩
    rcases status with status | status <;> rw [status] <;> rfl
  · rintro ⟨u, ⟨hu, rfl⟩, status⟩
    refine ⟨u, ⟨hu, ?_⟩, rfl⟩
    cases h : u.status <;> rw [h] at status <;> simp [isStatusPingable] at status ⊢

theorem mem_serversToRemove {updates : List Update} {a : Address} :
    a.name ∈ serversToRemove updates ↔
      ∃ u ∈ updates.filter fun u => u.address = a, isStatusPingable u.status = false := by
  simp only [serversToRemove, List.mem_map, List.mem_filter, decide_eq_true_eq]
  constructor
  · rintro ⟨u, ⟨hu, status⟩, name⟩
    refine ⟨u, ⟨hu, Address.name_injective name⟩, ?_⟩
    rcases status with status | status | status <;> rw [status] <;> rfl
  · rintro ⟨u, ⟨hu, rfl⟩, status⟩
    refine ⟨u, ⟨hu, ?_⟩, rfl⟩
    cases h : u.status <;> rw [h] at status <;> simp [isStatusPingable] at status ⊢

theorem plain_serversToAdd (updates : List Update) :
    ∀ s ∈ serversToAdd updates, s ∉ objectPrototype := by
  intro s hs
  obtain ⟨u, -, rfl⟩ := List.mem_map.mp hs
  exact u.address.own

theorem plain_serversToRemove (updates : List Update) :
    ∀ s ∈ serversToRemove updates, s ∉ objectPrototype := by
  intro s hs
  obtain ⟨u, -, rfl⟩ := List.mem_map.mp hs
  exact u.address.own

theorem inRing_addRemoveServers (env : Env) (node : Node) {add remove : List Str}
    (plainAdd : ∀ s ∈ add, s ∉ objectPrototype) (plainRemove : ∀ s ∈ remove, s ∉ objectPrototype)
    (s : Str) :
    (node.addRemoveServers env add remove).inRing s =
      ((node.inRing s || decide (s ∈ add)) && !decide (s ∈ remove)) := by
  unfold addRemoveServers
  split
  case isTrue =>
    exact HashRing.has_addRemoveServers env.ringOptions node.ring plainAdd plainRemove s
  case isFalse nothing =>
    obtain ⟨noAdd, noRemove⟩ := not_or.mp nothing
    obtain rfl : add = [] := List.length_eq_zero_iff.mp (Nat.eq_zero_of_not_pos noAdd)
    obtain rfl : remove = [] := List.length_eq_zero_iff.mp (Nat.eq_zero_of_not_pos noRemove)
    simp

theorem addRemoveServers_keeps (env : Env) (node : Node) (add remove : List Str) :
    (node.addRemoveServers env add remove).isReady = node.isReady ∧
      (node.addRemoveServers env add remove).membership = node.membership ∧
      (node.addRemoveServers env add remove).stateTransitions = node.stateTransitions := by
  unfold addRemoveServers
  split <;> exact ⟨rfl, rfl, rfl⟩

theorem onUpdatedForGossip_keeps (env : Env) (node : Node) (updates : List Update) :
    (node.onUpdatedForGossip env updates).isReady = node.isReady ∧
      (node.onUpdatedForGossip env updates).membership = node.membership ∧
      (node.onUpdatedForGossip env updates).ring = node.ring ∧
      (node.onUpdatedForGossip env updates).stateTransitions =
        updates.foldl (StateTransitions.handleUpdate env.whoami) node.stateTransitions := by
  induction updates generalizing node with
  | nil => exact ⟨rfl, rfl, rfl, rfl⟩
  | cons u updates ih => exact ih ((node.handleUpdate env u).recordChange u)

theorem foldl_handleUpdate_eq (env : Env) (node : Node) (updates : List Update) :
    updates.foldl (handleUpdate env) node =
      { node with stateTransitions :=
          updates.foldl (StateTransitions.handleUpdate env.whoami) node.stateTransitions } := by
  induction updates generalizing node with
  | nil => rfl
  | cons u updates ih => exact ih (node.handleUpdate env u)

/-- A node that has been told of updates of its member list. -/
structure Told (env : Env) (node node' : Node) (updates : List Update) : Prop where
  isReady : node'.isReady = node.isReady
  membership : node'.membership = node.membership
  stateTransitions : node'.stateTransitions =
    updates.foldl (StateTransitions.handleUpdate env.whoami) node.stateTransitions
  inRing : ∀ a : Address, node'.inRing a.name =
    enlisted (node.inRing a.name) (updates.filter fun u => u.address = a)
  foreign : ∀ s ∈ objectPrototype, node'.inRing s = node.inRing s

theorem told_updated (env : Env) (node : Node) (updates : List Update) :
    Told env node (node.handle env (.updated updates)) updates := by
  obtain ⟨ready, membership, ring, transitions⟩ := onUpdatedForGossip_keeps env node updates
  obtain ⟨ready', membership', transitions'⟩ := addRemoveServers_keeps env
    (node.onUpdatedForGossip env updates) (serversToAdd updates) (serversToRemove updates)
  have inRing := inRing_addRemoveServers env (node.onUpdatedForGossip env updates)
    (plain_serversToAdd updates) (plain_serversToRemove updates)
  have before (s : Str) : (node.onUpdatedForGossip env updates).inRing s = node.inRing s := by
    rw [Node.inRing, ring]
    rfl
  refine ⟨ready'.trans ready, membership'.trans membership, transitions'.trans transitions,
    fun a => ?_, fun s foreign => ?_⟩
  · refine (inRing a.name).trans ?_
    rw [before, enlisted]
    congr 1
    · congr 1
      rw [Bool.eq_iff_iff, decide_eq_true_eq, mem_serversToAdd, List.any_eq_true]
    · rw [Bool.eq_iff_iff, Bool.not_eq_true', decide_eq_false_iff_not, mem_serversToRemove,
        List.all_eq_true]
      simp
  · refine (inRing s).trans ?_
    have notAdded : s ∉ serversToAdd updates := fun h => plain_serversToAdd updates s h foreign
    have notRemoved : s ∉ serversToRemove updates := fun h =>
      plain_serversToRemove updates s h foreign
    simp [before, notAdded, notRemoved]

theorem foldl_handle_quiet (env : Env) (node : Node) {events : List MembershipEvent}
    (quiet : ∀ e ∈ events, ∀ node, handle env node e = node) :
    events.foldl (handle env) node = node := by
  induction events with
  | nil => rfl
  | cons e events ih =>
    obtain ⟨first, rest⟩ := List.forall_mem_cons.mp quiet
    rw [List.foldl_cons, first, ih rest]

theorem foldl_handle_damping (env : Env) (node : Node) {events : List MembershipEvent}
    (damping : ∀ e ∈ events, e.isDamping = true) : events.foldl (handle env) node = node := by
  refine foldl_handle_quiet env node fun e he node => ?_
  have first := damping e he
  cases e <;> first | rfl | cases first

/-- `update` on a ready node. -/
theorem told_update {ref : ℕ} (w : Membership.WellFormed env node.membership)
    (ready : node.isReady = true) (known : node.membership.localMember = some ref)
    (changes : List (Update × Tick)) :
    ∃ m updates, Membership.Applied env node.membership ref changes m updates ∧
      Told env { node with membership := m } (node.update env changes) updates := by
  obtain ⟨applied, damping, checksum, old, quiet, events⟩ := w.update known changes
  have run : node.update env changes =
      node.emit env ((Membership.update env true node.membership changes).1,
        (Membership.update env true node.membership changes).2.2) := by
    rw [Node.update, ready]
  refine ⟨_, _, applied, ?_⟩
  rw [run, emit, events, List.foldl_append, foldl_handle_damping env _ quiet, Membership.announce]
  split
  case isTrue idle =>
    rw [idle]
    exact told_updated env _ []
  case isFalse => exact told_updated env _ _

/-- The transitions that a local status change leaves: leaving disables them. -/
def leftTransitions (node : Node) (status : Status) : StateTransitions :=
  if node.membership.localMember.isSome ∧ status = .leave then node.stateTransitions.disable
  else node.stateTransitions

theorem told_setLocalStatus (w : Membership.WellFormed env node.membership) (status : Status)
    (tick : Tick) :
    ∃ m u, Membership.WellFormed env m ∧ m.localMember = some node.membership.localRef ∧
      (∀ b, m.view b = if b = env.whoami then some ⟨tick.now, status⟩ else node.view b) ∧
      u.address = env.whoami ∧ u.standing = ⟨tick.now, status⟩ ∧
      Told env { node with membership := m, stateTransitions := node.leftTransitions status }
        (node.setLocalStatus env status tick) [u] := by
  obtain ⟨w', known, view, u, checksum, old, address, standing, events⟩ :=
    w.setLocalStatus tick status
  refine ⟨_, u, w', known, view, address, standing, ?_⟩
  rw [Node.setLocalStatus, emit, events, List.foldl_append]
  have before : (node.membership.leaving status).foldl (handle env)
      { node with membership := (node.membership.setLocalStatus env tick status).1 } =
      { node with
        membership := (node.membership.setLocalStatus env tick status).1
        stateTransitions := node.leftTransitions status } := by
    rw [Membership.leaving, leftTransitions]
    cases node.membership.localMember with
    | none => rfl
    | some ref => by_cases leave : status = .leave <;> simp [leave, handle]
  rw [before]
  exact told_updated env _ [u]

/-- A node at the end of its join; `index` holds the merged changes. -/
structure Joined (env : Env) (node node' : Node) (index : Address → Option Update) : Prop where
  isReady : node'.isReady = true
  wellFormed : Membership.WellFormed env node'.membership
  localMember : node'.membership.localMember = node.membership.localMember
  remote : ∀ a u, index a = some u → u.address = a ∧ a ≠ env.whoami
  view : ∀ a, node'.view a =
    ((index a).filter fun u => u.status ≠ .tombstone).elim (node.view a) fun u => some u.standing
  sound : node'.stateTransitions.Sound env.whoami
  enabled : node'.stateTransitions.enabled = node.stateTransitions.enabled
  alarm : node.stateTransitions.enabled = true → ∀ a ≠ env.whoami,
    node'.alarm a = (index a).toList.foldl StateTransitions.rearm (node.alarm a)
  inRing : ∀ a : Address, node'.inRing a.name =
    (node.inRing a.name || (index a).any fun u => isStatusPingable u.status)
  foreign : ∀ s ∈ objectPrototype, node'.inRing s = node.inRing s

theorem joined_idle (w : Membership.WellFormed env node.membership)
    (sound : node.stateTransitions.Sound env.whoami) :
    Joined env node { node with isReady := true } fun _ => none where
  isReady := rfl
  wellFormed := w
  localMember := rfl
  remote := nofun
  view _ := rfl
  sound := sound
  enabled := rfl
  alarm _ _ _ := rfl
  inRing _ := (Bool.or_false _).symm
  foreign _ _ := rfl

theorem filter_merged (whoami : Address) (stashed : List (List Update)) (a : Address) :
    ((mergeMembershipChangesets whoami stashed).filter fun u => u.address = a) =
      ((stashed.flatten.foldl (mergeChange whoami) .empty).get a).toList := by
  have distinct := (nodup_mergeMembershipChangesets whoami stashed).filter fun u => u.address = a
  have listed (u : Update) : u ∈ (mergeMembershipChangesets whoami stashed).filter
      (fun u => u.address = a) ↔
        (stashed.flatten.foldl (mergeChange whoami) .empty).get a = some u := by
    rw [List.mem_filter, decide_eq_true_eq, merged_about]
  cases h : (mergeMembershipChangesets whoami stashed).filter fun u => u.address = a with
  | nil =>
    cases found : (stashed.flatten.foldl (mergeChange whoami) .empty).get a with
    | none => rfl
    | some u =>
      have := (listed u).mpr found
      rw [h] at this
      cases this
  | cons u rest =>
    have found := (listed u).mp (by rw [h]; exact List.mem_cons_self)
    rw [found]
    cases rest with
    | nil => rfl
    | cons v rest =>
      have same := (listed v).mp (by rw [h]; simp)
      rw [h] at distinct
      obtain rfl := Option.some.inj (found.symm.trans same)
      have differs := (List.pairwise_cons.mp distinct).1 u List.mem_cons_self
      exact absurd rfl differs

theorem view_merged {m m' : Membership} {updates : List Update} {index : Address → Option Update}
    (filtered : ∀ a, (updates.filter fun u => u.address = a) = (index a).toList)
    (view : ∀ a s, m'.view a = some s ↔ m.view a = some s ∨
      ∃ u ∈ updates, u.address = a ∧ u.status ≠ .tombstone ∧ u.standing = s)
    (unknown : ∀ a u, index a = some u → m.view a = none) (a : Address) :
    m'.view a =
      ((index a).filter fun u => u.status ≠ .tombstone).elim (m.view a)
        fun u => some u.standing := by
  have listed (u : Update) : u ∈ updates ∧ u.address = a ↔ index a = some u := by
    have h : u ∈ (updates.filter fun u => u.address = a) ↔ u ∈ (index a).toList := by rw [filtered]
    simpa using h
  ext s
  rw [view]
  cases found : index a with
  | none =>
    have absent : ¬ ∃ u ∈ updates, u.address = a ∧ u.status ≠ .tombstone ∧ u.standing = s := by
      rintro ⟨u, hu, address, -⟩
      cases found.symm.trans ((listed u).mp ⟨hu, address⟩)
    simp [absent]
  | some u =>
    have only : (∃ v ∈ updates, v.address = a ∧ v.status ≠ .tombstone ∧ v.standing = s) ↔
        u.status ≠ .tombstone ∧ u.standing = s := by
      constructor
      · rintro ⟨v, hv, address, h⟩
        obtain rfl := Option.some.inj (found.symm.trans ((listed v).mp ⟨hv, address⟩))
        exact h
      · intro h
        obtain ⟨hu, address⟩ := (listed u).mpr found
        exact ⟨u, hu, address, h⟩
    rw [only, unknown a u found]
    by_cases tombstone : u.status = .tombstone <;> simp [tombstone, Option.filter]

/-- The handler of the `set` event. -/
theorem joined_set {m : Membership} (w : Membership.WellFormed env m)
    (localMember : m.localMember = node.membership.localMember)
    (sound : node.stateTransitions.Sound env.whoami) {updates : List Update}
    {index : Address → Option Update}
    (filtered : ∀ a, (updates.filter fun u => u.address = a) = (index a).toList)
    (remote : ∀ a u, index a = some u → u.address = a ∧ a ≠ env.whoami)
    (view : ∀ a, m.view a =
      ((index a).filter fun u => u.status ≠ .tombstone).elim (node.view a)
        fun u => some u.standing) :
    Joined env node
      { ({ node with membership := m } : Node).onMembershipSet env updates with isReady := true }
      index := by
  obtain ⟨sound', enabled, alarms⟩ := sound.handleUpdates updates
  rw [onMembershipSet, foldl_handleUpdate_eq]
  generalize told : ({ node with
    membership := m
    stateTransitions :=
      updates.foldl (StateTransitions.handleUpdate env.whoami) node.stateTransitions } : Node) =
    node₁
  obtain ⟨-, membership, transitions⟩ := addRemoveServers_keeps env node₁ (serversToAdd updates) []
  have inRing := inRing_addRemoveServers env node₁ (plain_serversToAdd updates)
    (List.forall_mem_nil _)
  subst told
  refine ⟨rfl, membership ▸ w, membership ▸ localMember, remote, ?_, transitions ▸ sound',
    transitions ▸ enabled, fun on a ha => ?_, fun a => ?_, fun s foreign => ?_⟩
  · simp only [Node.view, membership]
    exact view
  · rw [← filtered]
    simp only [Node.alarm, transitions]
    exact alarms on a ha
  · refine (inRing a.name).trans ?_
    have added : (decide (a.name ∈ serversToAdd updates)) =
        (index a).any fun u => isStatusPingable u.status := by
      rw [Bool.eq_iff_iff, decide_eq_true_eq, mem_serversToAdd, filtered]
      cases index a <;> simp
    simp [added, Node.inRing]
  · refine (inRing s).trans ?_
    have notAdded : s ∉ serversToAdd updates := fun h => plain_serversToAdd updates s h foreign
    simp [notAdded, Node.inRing]

theorem joined_onJoin (w : Membership.WellFormed env node.membership)
    (sound : node.stateTransitions.Sound env.whoami) (joining : node.isReady = false)
    (unknown : ∀ a ≠ env.whoami, node.view a = none) {ref : ℕ}
    (known : node.membership.localMember = some ref) :
    ∃ index, Joined env node (node.onJoin env) index := by
  have run : node.onJoin env =
      { node.emit env (node.membership.set env false) with isReady := true } := by
    rw [Node.onJoin, known, joining]
  rw [run]
  rcases stash : node.membership.stashedUpdates with _ | _ | ⟨first, rest⟩
  case none =>
    have idle : node.membership.set env false = (node.membership, []) := by
      simp [Membership.set, stash]
    rw [idle]
    exact ⟨_, joined_idle w sound⟩
  case some.nil =>
    have idle : node.membership.set env false = (node.membership, []) := by
      simp [Membership.set, stash]
    rw [idle]
    exact ⟨_, joined_idle w sound⟩
  case some.cons =>
    obtain ⟨w', local', view, -, checksum, old, events⟩ :=
      w.set (List.cons_ne_nil _ _) stash unknown
    have filtered := filter_merged env.whoami (first :: rest)
    have remote (a : Address) (u : Update) (h : ((first :: rest).flatten.foldl
        (mergeChange env.whoami) .empty).get a = some u) : u.address = a ∧ a ≠ env.whoami :=
      merge_address _ h
    rw [emit, events]
    simp only [List.foldl_cons, List.foldl_nil, handle]
    exact ⟨_, joined_set w' local' sound filtered remote
      (view_merged filtered view fun a u h => unknown a (remote a u h).2)⟩

/-- `evict` of another member. -/
theorem evicted (w : Membership.WellFormed env node.membership) {ref : ℕ}
    (known : node.membership.localMember = some ref) {a : Address} (other : a ≠ env.whoami) :
    ∃ m, Membership.WellFormed env m ∧ m.localMember = some ref ∧
      (∀ b, m.view b = if b = a then none else node.view b) ∧
      node.emit env (node.membership.evict env a) = { node with membership := m } := by
  obtain ⟨w', known', view, events⟩ := w.evict known other
  refine ⟨_, w', known', view, ?_⟩
  rw [emit, foldl_handle_quiet env _ fun e he => ?_]
  obtain ⟨checksum, old, rfl⟩ := events e he
  exact fun _ => rfl

end Node
end Ringpop.Members
