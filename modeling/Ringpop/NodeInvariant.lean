import Ringpop.NodeSteps

/-! What holds in every run of a node: its list and its timers are well formed, and an
alarm is set for the status that its member has. -/
namespace Ringpop.Members
open JsString Dictionary Ringpop.Ring GreatestWins

namespace Node
variable {env : Env} {node : Node}

structure Inv (env : Env) (node : Node) : Prop where
  wellFormed : Membership.WellFormed env node.membership
  sound : node.stateTransitions.Sound env.whoami
  started : node.isReady = true → ∃ ref, node.membership.localMember = some ref
  joining : node.isReady = false → ∀ a ≠ env.whoami, node.view a = none ∧ node.alarm a = none
  tracks : ∀ a, Tracks (node.alarm a) (node.view a)

theorem inv_new (env : Env) (periods : Periods) : Inv env (new env periods) where
  wellFormed := Membership.wellFormed_new env
  sound := StateTransitions.sound_new periods
  started := nofun
  joining _ _ _ := ⟨rfl, rfl⟩
  tracks _ := tracks_none _

/-- An operation of the list that no belief depends on. -/
theorem Inv.remembered (inv : Inv env node) {m : Membership} (w : Membership.WellFormed env m)
    (localMember : m.localMember = node.membership.localMember)
    (view : ∀ a, m.view a = node.view a) : Inv env { node with membership := m } where
  wellFormed := w
  sound := inv.sound
  started ready := by
    obtain ⟨ref, known⟩ := inv.started ready
    exact ⟨ref, localMember.trans known⟩
  joining joining a other := by
    obtain ⟨unknown, silent⟩ := inv.joining joining a other
    exact ⟨(view a).trans unknown, silent⟩
  tracks a := by
    have same : Node.view { node with membership := m } a = node.view a := view a
    rw [same]
    exact inv.tracks a

theorem tracks_rearm (alarm : Option (Status × Option Transition)) (u : Update) :
    Tracks (StateTransitions.rearm alarm u) (some u.standing) := by
  intro state callback h
  refine Or.inr ⟨u.standing, rfl, ?_⟩
  unfold StateTransitions.rearm at h
  split at h
  case h_1 => cases h
  case h_2 =>
    split at h
    case isTrue redundant =>
      rw [h] at redundant
      exact (Option.some.inj redundant).symm
    case isFalse => exact congrArg Prod.fst (Option.some.inj h)

theorem tracks_rearms {alarm : Option (Status × Option Transition)} {s : Option Standing}
    (tracks : Tracks alarm s) (updates : List Update) :
    Tracks (updates.foldl StateTransitions.rearm alarm)
      ((updates.getLast?.map Update.standing).or s) := by
  cases updates using List.reverseRecOn with
  | nil => exact tracks
  | append_singleton updates u =>
    rw [List.foldl_concat, List.getLast?_concat]
    exact tracks_rearm _ u

/-- A ready node after `update`. -/
structure Heard (env : Env) (node node' : Node) (changes : List (Update × Tick)) : Prop where
  isReady : node'.isReady = true
  wellFormed : Membership.WellFormed env node'.membership
  started : ∃ ref, node'.membership.localMember = some ref
  view : ∀ a ≠ env.whoami, node'.view a =
    ((node.taken changes a).getLast?.map Update.standing).or (node.view a)
  sound : node'.stateTransitions.Sound env.whoami
  enabled : node'.stateTransitions.enabled = node.stateTransitions.enabled
  alarm : node.stateTransitions.enabled = true → ∀ a ≠ env.whoami,
    node'.alarm a = (node.taken changes a).foldl StateTransitions.rearm (node.alarm a)
  inRing : ∀ a ≠ env.whoami,
    node'.inRing a.name = enlisted (node.inRing a.name) (node.taken changes a)
  inRing_whoami : node.inRing env.whoami.name = pingable (node.view env.whoami) →
    node'.inRing env.whoami.name = pingable (node'.view env.whoami)
  foreign : ∀ s ∈ objectPrototype, node'.inRing s = node.inRing s

@[simp] theorem enlisted_nil (current : Bool) : enlisted current [] = current := by
  simp [enlisted]

@[simp] theorem enlisted_singleton (current : Bool) (u : Update) :
    enlisted current [u] = isStatusPingable u.status := by
  simp only [enlisted, List.any_cons, List.any_nil, List.all_cons, List.all_nil, Bool.or_false,
    Bool.and_true]
  cases isStatusPingable u.status <;> simp

theorem enlisted_same {status : Status} {updates : List Update}
    (same : ∀ u ∈ updates, u.status = status) :
    enlisted (isStatusPingable status) updates = isStatusPingable status := by
  have all (h : isStatusPingable status = true) :
      (updates.all fun u => isStatusPingable u.status) = true :=
    List.all_eq_true.mpr fun u hu => by rw [same u hu, h]
  have any (h : isStatusPingable status = false) :
      (updates.any fun u => isStatusPingable u.status) = false :=
    List.any_eq_false.mpr fun u hu => by rw [same u hu, h]; exact Bool.false_ne_true
  cases h : isStatusPingable status with
  | true => simp [enlisted, all h]
  | false => simp [enlisted, any h]

theorem Inv.heard (inv : Inv env node) (ready : node.isReady = true)
    (changes : List (Update × Tick)) : Heard env node (node.update env changes) changes := by
  obtain ⟨ref, known⟩ := inv.started ready
  obtain ⟨m, updates, applied, told⟩ := told_update inv.wellFormed ready known changes
  obtain ⟨sound, enabled, alarm⟩ := inv.sound.handleUpdates updates
  have view (a : Address) : (node.update env changes).view a = m.view a := by
    rw [Node.view, told.membership]
  refine ⟨told.isReady.trans ready, told.membership ▸ applied.wellFormed,
    ⟨ref, told.membership ▸ applied.localMember⟩, fun a ha => ?_, told.stateTransitions ▸ sound,
    told.stateTransitions ▸ enabled, fun on a ha => ?_, fun a ha => ?_, fun mirrored => ?_,
    told.foreign⟩
  · rw [view, applied.view a ha, absorbAll_eq_getLast]
    rfl
  · simp only [Node.alarm, told.stateTransitions]
    rw [alarm on a ha, applied.taken a ha]
    rfl
  · rw [told.inRing, applied.taken a ha]
    rfl
  · have before : node.view env.whoami = some (node.membership.localStanding ref) :=
      inv.wellFormed.view_whoami known
    have after : m.view env.whoami = some (m.localStanding ref) :=
      applied.wellFormed.view_whoami applied.localMember
    rw [before] at mirrored
    rw [told.inRing, view, after]
    change enlisted (node.inRing env.whoami.name) _ = isStatusPingable (m.localStanding ref).status
    rw [mirrored, applied.local_status]
    exact enlisted_same fun u hu => applied.own_status hu

theorem Heard.inv {node' : Node} {changes : List (Update × Tick)} (inv : Inv env node)
    (heard : Heard env node node' changes) : Inv env node' where
  wellFormed := heard.wellFormed
  sound := heard.sound
  started _ := heard.started
  joining joining := by cases joining.symm.trans heard.isReady
  tracks a := by
    cases on : node.stateTransitions.enabled with
    | false =>
      have none : node'.alarm a = none := heard.sound.alarm_idle (heard.enabled.trans on) a
      rw [none]
      exact tracks_none _
    | true =>
      by_cases self : a = env.whoami
      · have none : node'.alarm a = none :=
          StateTransitions.alarm_eq_none.mpr (self ▸ heard.sound.remote)
        rw [none]
        exact tracks_none _
      · rw [heard.alarm on a self, heard.view a self]
        exact tracks_rearms (inv.tracks a) _

/-- A node that is not ready only stores the changes. -/
theorem update_joining (env : Env) (joining : node.isReady = false)
    (changes : List (Update × Tick)) :
    ∃ stashed, node.update env changes =
      { node with membership := { node.membership with stashedUpdates := stashed } } := by
  have run : node.update env changes =
      node.emit env ((Membership.update env false node.membership changes).1,
        (Membership.update env false node.membership changes).2.2) := by
    rw [Node.update, joining]
  have events : (Membership.update env false node.membership changes).2.2 = [] := by
    cases changes <;> rfl
  rw [run, events, Membership.update_stash]
  exact ⟨_, rfl⟩

theorem Inv.stash (inv : Inv env node) (joining : node.isReady = false)
    (stashed : Option (List (List Update))) :
    Inv env { node with membership := { node.membership with stashedUpdates := stashed } } where
  wellFormed :=
    ⟨⟨inv.wellFormed.fresh, inv.wellFormed.nodup, inv.wellFormed.index⟩, inv.wellFormed.self⟩
  sound := inv.sound
  started ready := by cases joining.symm.trans ready
  joining := inv.joining
  tracks := inv.tracks

theorem Inv.update (inv : Inv env node) (changes : List (Update × Tick)) :
    Inv env (node.update env changes) := by
  cases ready : node.isReady with
  | true => exact (inv.heard ready changes).inv inv
  | false =>
    obtain ⟨stashed, run⟩ := update_joining env ready changes
    rw [run]
    exact inv.stash ready stashed

/-- A node after a local status change. -/
structure Spoke (env : Env) (node node' : Node) (status : Status) (tick : Tick) : Prop where
  isReady : node'.isReady = node.isReady
  wellFormed : Membership.WellFormed env node'.membership
  started : ∃ ref, node'.membership.localMember = some ref
  view : ∀ a, node'.view a = if a = env.whoami then some ⟨tick.now, status⟩ else node.view a
  sound : node'.stateTransitions.Sound env.whoami
  transitions : status = .leave ∧ node'.stateTransitions.enabled = false ∨
    node'.stateTransitions = node.stateTransitions
  inRing : ∀ a : Address, node'.inRing a.name =
    if a = env.whoami then isStatusPingable status else node.inRing a.name
  foreign : ∀ s ∈ objectPrototype, node'.inRing s = node.inRing s

theorem Inv.spoke (inv : Inv env node) (status : Status) (tick : Tick) :
    Spoke env node (node.setLocalStatus env status tick) status tick := by
  obtain ⟨m, u, w, known, view, address, standing, told⟩ :=
    told_setLocalStatus inv.wellFormed status tick
  have sound : (node.leftTransitions status).Sound env.whoami := by
    unfold leftTransitions
    split
    · exact inv.sound.disable
    · exact inv.sound
  have transitions : (node.setLocalStatus env status tick).stateTransitions =
      node.leftTransitions status := by
    rw [told.stateTransitions]
    exact sound.handleUpdate_ignored (Or.inr address)
  have announced : u.status = status := congrArg Standing.status standing
  have membership : (node.setLocalStatus env status tick).membership = m := told.membership
  refine ⟨told.isReady, membership ▸ w, ⟨_, (congrArg _ membership).trans known⟩, fun a => ?_,
    transitions ▸ sound, ?_, fun a => ?_, told.foreign⟩
  · rw [Node.view, membership]
    exact view a
  · rw [transitions, leftTransitions]
    split
    case isTrue left => exact Or.inl ⟨left.2, StateTransitions.enabled_disable _⟩
    case isFalse => exact Or.inr rfl
  · rw [told.inRing]
    by_cases self : a = env.whoami
    · have own : [u].filter (fun u => u.address = a) = [u] := by simp [address, self]
      rw [if_pos self, own, enlisted_singleton, announced]
    · have other : [u].filter (fun u => u.address = a) = [] := by simp [address, Ne.symm self]
      rw [if_neg self, other, enlisted_nil]
      rfl

theorem Spoke.inv {node' : Node} {status : Status} {tick : Tick} (inv : Inv env node)
    (spoke : Spoke env node node' status tick) : Inv env node' := by
  have alarm (a : Address) : node'.alarm a = none ∨ node'.alarm a = node.alarm a := by
    rcases spoke.transitions with ⟨-, disabled⟩ | same
    · exact Or.inl (spoke.sound.alarm_idle disabled a)
    · exact Or.inr (by rw [Node.alarm, same]; rfl)
  refine ⟨spoke.wellFormed, spoke.sound, fun _ => spoke.started, fun joining a ha => ?_,
    fun a => ?_⟩
  · obtain ⟨unknown, quiet⟩ := inv.joining (spoke.isReady.symm.trans joining) a ha
    refine ⟨by rw [spoke.view, if_neg ha, unknown], ?_⟩
    rcases alarm a with none | same
    · exact none
    · rw [same, quiet]
  · by_cases self : a = env.whoami
    · have none : node'.alarm a = none :=
        StateTransitions.alarm_eq_none.mpr (self ▸ spoke.sound.remote)
      rw [none]
      exact tracks_none _
    · rw [spoke.view, if_neg self]
      rcases alarm a with none | same
      · rw [none]
        exact tracks_none _
      · rw [same]
        exact inv.tracks a

theorem Joined.inv {node' : Node} {index : Address → Option Update} (inv : Inv env node)
    (joining : node.isReady = false) {ref : ℕ} (known : node.membership.localMember = some ref)
    (joined : Joined env node node' index) : Inv env node' where
  wellFormed := joined.wellFormed
  sound := joined.sound
  started _ := ⟨ref, joined.localMember.trans known⟩
  joining h := by cases h.symm.trans joined.isReady
  tracks a := by
    cases on : node.stateTransitions.enabled with
    | false =>
      have none : node'.alarm a = none := joined.sound.alarm_idle (joined.enabled.trans on) a
      rw [none]
      exact tracks_none _
    | true =>
      by_cases self : a = env.whoami
      · have none : node'.alarm a = none :=
          StateTransitions.alarm_eq_none.mpr (self ▸ joined.sound.remote)
        rw [none]
        exact tracks_none _
      · obtain ⟨unknown, quiet⟩ := inv.joining joining a self
        rw [joined.alarm on a self, joined.view, quiet, unknown]
        cases index a with
        | none => exact tracks_none _
        | some u =>
          by_cases tombstone : u.status = .tombstone
          · simp [Tracks, Option.filter, tombstone, StateTransitions.rearm, Transition.next,
              Update.standing]
          · simpa [Option.filter, tombstone] using tracks_rearm none u

theorem onJoin_ready (ready : node.isReady = true) : node.onJoin env = node := by
  rw [Node.onJoin]
  cases node.membership.localMember with
  | none => rfl
  | some ref =>
    simp only [ready, Membership.set, if_true, emit, List.foldl_nil]
    obtain ⟨isReady, membership, ring, stateTransitions, changes⟩ := node
    cases ready
    rfl

theorem Inv.onJoin (inv : Inv env node) : Inv env (node.onJoin env) := by
  cases known : node.membership.localMember with
  | none =>
    rw [Node.onJoin, known]
    exact inv
  | some ref =>
    cases ready : node.isReady with
    | true => rwa [onJoin_ready ready]
    | false =>
      obtain ⟨index, joined⟩ := joined_onJoin inv.wellFormed inv.sound ready
        (fun a ha => (inv.joining ready a ha).1) known
      exact joined.inv inv ready known

theorem Inv.expire (inv : Inv env node) {timer : ℕ} {timeout : Timeout}
    (live : node.stateTransitions.queue.callback timer = some timeout) :
    Inv env { node with stateTransitions := node.stateTransitions.expire timer } where
  wellFormed := inv.wellFormed
  sound := inv.sound.expire timer
  started := inv.started
  joining joining a ha := by
    obtain ⟨unknown, quiet⟩ := inv.joining joining a ha
    have ⟨armed, after⟩ := inv.sound.alarm_expire live a
    refine ⟨unknown, after.trans (if_neg ?_ |>.trans quiet)⟩
    rintro rfl
    cases quiet.symm.trans armed
  tracks a := by
    have ⟨armed, after⟩ := inv.sound.alarm_expire live a
    intro state callback h
    rw [Node.alarm, after] at h
    split at h
    case isTrue same =>
      subst same
      obtain ⟨rfl, -⟩ := Prod.mk.inj (Option.some.inj h)
      exact inv.tracks _ _ _ armed
    case isFalse => exact inv.tracks a state callback h

/-- A live timer belongs to another member of a started node. -/
theorem Inv.live (inv : Inv env node) {timer : ℕ} {timeout : Timeout}
    (live : node.stateTransitions.queue.callback timer = some timeout) :
    timeout.transition.address ≠ env.whoami ∧ node.isReady = true := by
  have owner := inv.sound.owned timer timeout live
  have remote : timeout.transition.address ≠ env.whoami := by
    intro self
    rw [self, inv.sound.remote] at owner
    cases owner
  refine ⟨remote, ?_⟩
  by_contra joining
  have quiet := (inv.joining (by simpa using joining) _ remote).2
  cases (StateTransitions.alarm_eq_none.mp quiet).symm.trans owner

theorem Inv.evict (inv : Inv env node) (ready : node.isReady = true) {a : Address}
    (other : a ≠ env.whoami) (gone : ∀ state callback,
      node.alarm a = some (state, callback) → state = .tombstone) :
    Inv env (node.emit env (node.membership.evict env a)) := by
  obtain ⟨ref, known⟩ := inv.started ready
  obtain ⟨m, w, known', view, run⟩ := evicted inv.wellFormed known other
  rw [run]
  refine ⟨w, inv.sound, fun _ => ⟨ref, known'⟩, fun joining => ?_, fun b => ?_⟩
  · cases joining.symm.trans ready
  · change Tracks (node.alarm b) (m.view b)
    rw [view]
    by_cases same : b = a
    · subst same
      rw [if_pos rfl]
      exact fun state callback h => Or.inl ⟨rfl, gone state callback h⟩
    · rw [if_neg same]
      exact inv.tracks b

theorem Inv.enable (inv : Inv env node) :
    Inv env { node with stateTransitions := node.stateTransitions.enable } where
  wellFormed := inv.wellFormed
  sound := inv.sound.enable
  started := inv.started
  joining joining a ha := by
    obtain ⟨unknown, quiet⟩ := inv.joining joining a ha
    exact ⟨unknown, (StateTransitions.alarm_enable _ a).trans quiet⟩
  tracks a := by
    rw [Node.alarm, StateTransitions.alarm_enable]
    exact inv.tracks a

/-- What a timer does when it fires, on the node that it leaves behind. -/
def transit (env : Env) (node : Node) (transition : Transition) (id : Str) (tick : Tick) : Node :=
  match transition with
  | .suspectToFaulty address incarnationNumber =>
    node.makeFaulty env address incarnationNumber id tick
  | .faultyToTombstone address incarnationNumber =>
    node.makeTombstone env address incarnationNumber id tick
  | .tombstoneToEvict address => node.emit env (node.membership.evict env address)

theorem fire_of_live {timer : ℕ} {timeout : Timeout} {id : Str} {tick : Tick}
    (live : node.stateTransitions.queue.callback timer = some timeout) :
    node.fire env timer id tick =
      transit env { node with stateTransitions := node.stateTransitions.expire timer }
        timeout.transition id tick := by
  rw [fire, live]
  rfl

/-- The change that `makeChange` hands to `update`. -/
def change (node : Node) (address : Address) (incarnationNumber : ℤ) (status : Status)
    (id : Str) : Update :=
  let source := node.membership.localMember.map node.membership.heap
  { address := address
    status := status
    incarnationNumber := incarnationNumber
    id := some id
    source := source.map Member.address
    sourceIncarnationNumber := source.map Member.incarnationNumber }

def made (node : Node) (address : Address) (incarnationNumber : ℤ) (status : Status) (id : Str)
    (tick : Tick) : List (Update × Tick) :=
  [(node.change address incarnationNumber status id, tick)]

theorem makeSuspect_eq (address : Address) (inc : ℤ) (id : Str) (tick : Tick) :
    node.makeSuspect env address inc id tick =
      node.update env (node.made address inc .suspect id tick) := rfl

theorem makeFaulty_eq (address : Address) (inc : ℤ) (id : Str) (tick : Tick) :
    node.makeFaulty env address inc id tick =
      node.update env (node.made address inc .faulty id tick) := rfl

theorem makeTombstone_eq (address : Address) (inc : ℤ) (id : Str) (tick : Tick) :
    node.makeTombstone env address inc id tick =
      node.update env (node.made address inc .tombstone id tick) := rfl

theorem taken_eq_nil {changes : List (Update × Tick)} {a : Address}
    (absent : ∀ change ∈ changes, change.1.address ≠ a) : node.taken changes a = [] := by
  have none : about a changes = [] := by
    simp only [about, List.filter_eq_nil_iff, List.mem_map, decide_eq_true_eq, forall_exists_index,
      and_imp, forall_apply_eq_imp_iff₂]
    exact absent
  rw [taken, none]
  rfl

theorem taken_made (node : Node) (a : Address) (inc : ℤ) (status : Status) (id : Str)
    (tick : Tick) :
    node.taken (node.made a inc status id tick) a =
      if admits refused (node.view a) ⟨inc, status⟩ then [node.change a inc status id] else [] := by
  have one : about a (node.made a inc status id tick) = [node.change a inc status id] := by
    simp [about, made, change]
  rw [taken, one, accepted]
  rfl

theorem Inv.fire (inv : Inv env node) (timer : ℕ) (id : Str) (tick : Tick) :
    Inv env (node.fire env timer id tick) := by
  cases live : node.stateTransitions.queue.callback timer with
  | none =>
    rw [Node.fire, live]
    exact inv
  | some timeout =>
    obtain ⟨remote, ready⟩ := inv.live live
    have left := inv.expire live
    have armed := (inv.sound.alarm_expire live timeout.transition.address).2
    rw [fire_of_live live]
    generalize timeout.transition = transition at *
    cases transition with
    | suspectToFaulty address inc =>
      rw [transit, makeFaulty_eq]
      exact left.update _
    | faultyToTombstone address inc =>
      rw [transit, makeTombstone_eq]
      exact left.update _
    | tombstoneToEvict address =>
      refine left.evict ready remote fun state callback h => ?_
      rw [if_pos rfl] at armed
      obtain ⟨rfl, -⟩ := Prod.mk.inj (Option.some.inj (h.symm.trans armed))
      rfl

theorem Inv.handleJoin (inv : Inv env node) (tick : Tick) : Inv env (node.handleJoin env tick) := by
  unfold Node.handleJoin
  split
  case h_1 => exact inv
  case h_2 ref known =>
    split
    case isTrue => exact ((inv.spoke .alive tick).inv inv).enable
    case isFalse => exact inv

theorem Inv.apply (inv : Inv env node) (event : NodeEvent) : Inv env (node.apply env event) := by
  cases event with
  | setLocalStatus status tick => exact (inv.spoke status tick).inv inv
  | update changes => exact inv.update changes
  | makeSuspect address inc id tick =>
    rw [Node.apply, makeSuspect_eq]
    exact inv.update _
  | makeFaulty address inc id tick =>
    rw [Node.apply, makeFaulty_eq]
    exact inv.update _
  | makeTombstone address inc id tick =>
    rw [Node.apply, makeTombstone_eq]
    exact inv.update _
  | onJoin => exact inv.onJoin
  | fire timer id tick => exact inv.fire timer id tick
  | handleJoin tick => exact inv.handleJoin tick

theorem inv_run (env : Env) (periods : Periods) (events : List NodeEvent) :
    Inv env (run env periods events) :=
  List.foldlRecOn events (apply env) (inv_new env periods) fun _ inv event _ => inv.apply event

/-- Every event meets a condition in the state in which it happens. -/
def Throughout (env : Env) (condition : Node → NodeEvent → Prop) : Node → List NodeEvent → Prop
  | _, [] => True
  | node, event :: rest =>
    condition node event ∧ Throughout env condition (node.apply env event) rest

theorem Throughout.of_prefix {condition : Node → NodeEvent → Prop} {events reached : List NodeEvent}
    (h : Throughout env condition node events) (reached_events : reached <+: events) :
    Throughout env condition node reached := by
  induction reached generalizing node events with
  | nil => trivial
  | cons event reached ih =>
    obtain ⟨rest, rfl⟩ := reached_events
    exact ⟨h.1, ih h.2 ⟨rest, rfl⟩⟩

/-- A property that every event keeps under a condition holds throughout a run. -/
theorem Throughout.run_induction {condition : Node → NodeEvent → Prop} {property : Node → Prop}
    {periods : Periods} (start : property (new env periods))
    (step : ∀ node event, Inv env node → property node → condition node event →
      property (node.apply env event)) {events : List NodeEvent}
    (h : Throughout env condition (new env periods) events) :
    property (run env periods events) := by
  have along (events : List NodeEvent) (node : Node) (inv : Inv env node) (holds : property node)
      (h : Throughout env condition node events) : property (events.foldl (apply env) node) := by
    induction events generalizing node with
    | nil => exact holds
    | cons event events ih => exact ih _ (inv.apply event) (step node event inv holds h.1) h.2
  exact along events _ (inv_new env periods) start h

end Node
end Ringpop.Members
