import Ringpop.NodeInvariant

/-! Suspects, faulty members and tombstones wait for a timer. The timer carries the
incarnation it was set for, so it takes effect on a member only while no update of
the same status has renewed the incarnation, and leaving clears it for good. -/
namespace Ringpop.Members
open JsString Dictionary Ringpop.Ring GreatestWins

namespace Node
variable {env : Env} {node : Node}

/-- What becomes of a member of a status when its timer takes effect. -/
def MovedOn (status : Status) (after : Option Standing) : Prop :=
  match status with
  | .suspect => after.map Standing.status = some .faulty
  | .faulty => after.map Standing.status = some .tombstone
  | .tombstone => after = none
  | .alive | .leave => True

/-- A timer is pending for the status of a member, and it will take effect if it
fires while the member is what it is now. -/
def Awaits (env : Env) (node : Node) (a : Address) (status : Status) : Prop :=
  ∃ timer timeout, node.stateTransitions.timers.get a = some ⟨timer, status⟩ ∧
    node.stateTransitions.queue.callback timer = some timeout ∧
    ∀ (events : List NodeEvent) (id : Str) (tick : Tick),
      let later := events.foldl (apply env) node
      later.view a = node.view a → later.stateTransitions.queue.callback timer = some timeout →
        MovedOn status ((later.fire env timer id tick).view a)

/-- No other member of a ready node with enabled transitions is stuck. -/
def NotStuck (env : Env) (node : Node) : Prop :=
  node.isReady = true → node.stateTransitions.enabled = true →
    ∀ r ∈ node.membership.members, (node.membership.heap r).address ≠ env.whoami →
      (node.membership.heap r).status ∈ [Status.suspect, .faulty, .tombstone] →
        Awaits env node (node.membership.heap r).address (node.membership.heap r).status

/-- The last of the updates is suspect or faulty, as its member already was. -/
def repeats (s : Option Standing) (updates : List Update) : Bool :=
  updates.getLast?.any fun last =>
    (last.status = .suspect ∨ last.status = .faulty) &&
      ((updates.dropLast.getLast?.map Update.standing).or s).map Standing.status = some last.status

/-- The changes that an event hands to `update`, those of timers aside. -/
def offered (node : Node) : NodeEvent → List (Update × Tick)
  | .update changes => changes
  | .makeSuspect address inc id tick => node.made address inc .suspect id tick
  | .makeFaulty address inc id tick => node.made address inc .faulty id tick
  | .makeTombstone address inc id tick => node.made address inc .tombstone id tick
  | _ => []

/-- No other member is found dying when a rejoin enables the transitions. -/
def RejoinsClean (env : Env) (node : Node) : NodeEvent → Prop
  | .handleJoin _ => (node.view env.whoami).map Standing.status = some .leave →
      node.stateTransitions.enabled = false → ∀ r ∈ node.membership.members,
        (node.membership.heap r).address ≠ env.whoami →
          (node.membership.heap r).status = .alive ∨ (node.membership.heap r).status = .leave
  | _ => True

structure Renews (env : Env) (node : Node) (event : NodeEvent) : Prop where
  changes : node.isReady = true → node.stateTransitions.enabled = true →
    ∀ change ∈ node.offered event, change.1.address ≠ env.whoami →
      repeats (node.view change.1.address)
        (node.taken (node.offered event) change.1.address) = false
  rejoin : RejoinsClean env node event

theorem Renews.of_offered_nil {event : NodeEvent} (none : node.offered event = [])
    (rejoin : RejoinsClean env node event) : Renews env node event where
  changes := by
    rw [none]
    exact fun _ _ => nofun
  rejoin := rejoin

/-- The alarm of a dying member is live and made for its present standing. -/
def ArmedFor (a : Address) (alarm : Option (Status × Option Transition)) (s : Option Standing) :
    Prop :=
  ∀ standing transition, s = some standing → Transition.next a standing = some transition →
    alarm = some (standing.status, some transition)

/-- What every update of a batch keeps: only repeated suspects and faulty members lose
their alarm. -/
structure Sited (a : Address) (alarm : Option (Status × Option Transition)) (s : Option Standing) :
    Prop where
  tracks : Tracks alarm s
  tombstone : ∀ standing, s = some standing → standing.status = .tombstone →
    alarm = some (.tombstone, some (.tombstoneToEvict a))

theorem ArmedFor.sited {a : Address} {alarm : Option (Status × Option Transition)}
    {s : Option Standing} (armed : ArmedFor a alarm s) (tracks : Tracks alarm s) :
    Sited a alarm s where
  tracks := tracks
  tombstone standing known status := by
    have next : Transition.next a standing = some (.tombstoneToEvict a) := by
      rw [Transition.next, status]
    rw [armed standing _ known next, status]

theorem Sited.armed_rearm {alarm : Option (Status × Option Transition)} {s : Option Standing}
    {u : Update} (sited : Sited u.address alarm s) (admitted : admits refused s u.standing = true)
    (differs : u.status = .suspect ∨ u.status = .faulty → s.map Standing.status ≠ some u.status) :
    ArmedFor u.address (StateTransitions.rearm alarm u) (some u.standing) := by
  intro standing transition known next
  obtain rfl := Option.some.inj known
  rw [StateTransitions.rearm, next]
  simp only
  split
  case isFalse => rfl
  case isTrue redundant =>
    obtain ⟨⟨state, callback⟩, found, rfl⟩ := Option.map_eq_some_iff.mp redundant
    subst found
    rcases sited.tracks _ _ rfl with ⟨rfl, tombstone⟩ | ⟨standing, rfl, status⟩
    · -- a tombstone of an unknown member is refused
      simp [admits, refused, Update.standing, tombstone] at admitted
    · have same : (some standing).map Standing.status = some u.status := congrArg some status
      have tombstone : u.status = .tombstone := by
        cases h : u.status with
        | alive | leave => simp [Transition.next, Update.standing, h] at next
        | suspect => exact absurd same (differs (Or.inl h))
        | faulty => exact absurd same (differs (Or.inr h))
        | tombstone => rfl
      rw [sited.tombstone standing rfl (status.trans tombstone)]
      have evict : transition = .tombstoneToEvict u.address := by
        simpa [Transition.next, Update.standing, tombstone] using next.symm
      rw [evict]
      exact congrArg (fun status => some (status, _)) tombstone.symm

theorem Sited.rearm {alarm : Option (Status × Option Transition)} {s : Option Standing}
    {u : Update} (sited : Sited u.address alarm s) (admitted : admits refused s u.standing = true) :
    Sited u.address (StateTransitions.rearm alarm u) (some u.standing) where
  tracks := tracks_rearm alarm u
  tombstone := by
    intro standing known tombstone
    obtain rfl := Option.some.inj known
    change u.status = .tombstone at tombstone
    have armed := sited.armed_rearm admitted (by simp [tombstone])
    exact (armed.sited (tracks_rearm alarm u)).tombstone _ rfl tombstone

theorem Sited.foldl {a : Address} {alarm : Option (Status × Option Transition)}
    {s : Option Standing} (sited : Sited a alarm s) {offers before after : List Update}
    (h : accepted refused Update.standing s offers = before ++ after)
    (about : ∀ u ∈ before, u.address = a) :
    Sited a (before.foldl StateTransitions.rearm alarm)
      ((before.getLast?.map Update.standing).or s) := by
  induction before using List.reverseRecOn generalizing after with
  | nil => exact sited
  | append_singleton before u ih =>
    rw [List.append_assoc] at h
    obtain ⟨abouts, aboutU⟩ := List.forall_mem_append.mp about
    obtain rfl := aboutU u List.mem_cons_self
    rw [List.foldl_concat, List.getLast?_concat]
    exact (ih h abouts).rearm (admits_of_accepted h)

/-- A whole batch arms a member that it does not leave as a repeated suspect or faulty. -/
theorem ArmedFor.foldl {a : Address} {alarm : Option (Status × Option Transition)}
    {s : Option Standing} (sited : Sited a alarm s) {offers : List Update}
    (about : ∀ u ∈ offers, u.address = a)
    (armed : accepted refused Update.standing s offers = [] → ArmedFor a alarm s)
    (fresh : repeats s (accepted refused Update.standing s offers) = false) :
    ArmedFor a ((accepted refused Update.standing s offers).foldl StateTransitions.rearm alarm)
      (((accepted refused Update.standing s offers).getLast?.map Update.standing).or s) := by
  have subset : accepted refused Update.standing s offers ⊆ offers :=
    (accepted_sublist s offers).subset
  rcases List.eq_nil_or_concat (accepted refused Update.standing s offers) with
    none | ⟨before, u, h⟩
  · rw [none]
    exact armed none
  · rw [List.concat_eq_append] at h
    rw [h] at fresh subset ⊢
    obtain rfl := about u (subset (by simp))
    have before_sited := sited.foldl h fun v hv => about v (subset (List.mem_append_left _ hv))
    rw [List.foldl_concat, List.getLast?_concat]
    refine before_sited.armed_rearm (admits_of_accepted h) fun dying same => ?_
    rw [repeats, List.getLast?_concat, List.dropLast_concat] at fresh
    simp only [Option.any_some, Bool.and_eq_false_iff, decide_eq_false_iff_not] at fresh
    exact fresh.elim (· dying) (· same)

def Armed (env : Env) (node : Node) : Prop :=
  node.stateTransitions.enabled = true →
    ∀ a ≠ env.whoami, ArmedFor a (node.alarm a) (node.view a)

theorem Heard.armedFor {node' : Node} {changes : List (Update × Tick)}
    (heard : Heard env node node' changes) (on : node.stateTransitions.enabled = true) {a : Address}
    (other : a ≠ env.whoami) (sited : Sited a (node.alarm a) (node.view a))
    (armed : node.taken changes a = [] → ArmedFor a (node.alarm a) (node.view a))
    (fresh : repeats (node.view a) (node.taken changes a) = false) :
    ArmedFor a (node'.alarm a) (node'.view a) := by
  rw [heard.alarm on a other, heard.view a other]
  refine ArmedFor.foldl sited (fun u hu => ?_) armed fresh
  simpa using (List.mem_filter.mp hu).2

theorem armed_update (inv : Inv env node) (armed : Armed env node) {changes : List (Update × Tick)}
    (fresh : node.isReady = true → node.stateTransitions.enabled = true →
      ∀ change ∈ changes, change.1.address ≠ env.whoami →
        repeats (node.view change.1.address) (node.taken changes change.1.address) = false) :
    Armed env (node.update env changes) := by
  cases ready : node.isReady with
  | false =>
    obtain ⟨stashed, run⟩ := update_joining env ready changes
    rw [run]
    exact armed
  | true =>
    have heard := inv.heard ready changes
    intro on a ha
    rw [heard.enabled] at on
    refine heard.armedFor on ha ((armed on a ha).sited (inv.tracks a)) (fun _ => armed on a ha) ?_
    by_cases absent : ∀ change ∈ changes, change.1.address ≠ a
    · rw [taken_eq_nil absent]
      rfl
    · push Not at absent
      obtain ⟨change, member, rfl⟩ := absent
      exact fresh ready on change member ha

theorem armed_setLocalStatus (inv : Inv env node) (armed : Armed env node) (status : Status)
    (tick : Tick) : Armed env (node.setLocalStatus env status tick) := by
  have spoke := inv.spoke status tick
  intro on a ha
  rcases spoke.transitions with ⟨-, disabled⟩ | same
  · cases on.symm.trans disabled
  · rw [Node.alarm, same, spoke.view, if_neg ha]
    exact armed (same ▸ on) a ha

theorem armed_onJoin (inv : Inv env node) (armed : Armed env node) :
    Armed env (node.onJoin env) := by
  cases known : node.membership.localMember with
  | none =>
    rw [Node.onJoin, known]
    exact armed
  | some ref =>
    cases ready : node.isReady with
    | true =>
      rw [onJoin_ready ready]
      exact armed
    | false =>
      obtain ⟨index, joined⟩ := joined_onJoin inv.wellFormed inv.sound ready
        (fun a ha => (inv.joining ready a ha).1) known
      intro on a ha
      rw [joined.enabled] at on
      obtain ⟨unknown, quiet⟩ := inv.joining ready a ha
      rw [joined.alarm on a ha, joined.view, quiet, unknown]
      intro standing transition view next
      cases found : index a with
      | none =>
        rw [found] at view
        cases view
      | some u =>
        obtain ⟨rfl, -⟩ := joined.remote a u found
        rw [found] at view
        by_cases tombstone : u.status = .tombstone
        · simp [Option.filter, tombstone] at view
        · obtain rfl : u.standing = standing := by simpa [Option.filter, tombstone] using view
          simp only [Option.toList_some, List.foldl_cons, List.foldl_nil, StateTransitions.rearm,
            next, Option.map_none, reduceCtorEq, if_false]
          rfl

/-- The timer of a dying member is the one for its present standing, unless the
member is gone. -/
theorem Inv.fired_next (inv : Inv env node) (armed : Armed env node) {timer : ℕ} {timeout : Timeout}
    (live : node.stateTransitions.queue.callback timer = some timeout) :
    node.view timeout.transition.address = none ∧ timeout.transition.state = .tombstone ∨
      ∃ s, node.view timeout.transition.address = some s ∧
        Transition.next timeout.transition.address s = some timeout.transition := by
  obtain ⟨alarm, -⟩ := inv.sound.alarm_expire live timeout.transition.address
  rcases inv.tracks _ _ _ alarm with gone | ⟨s, known, status⟩
  · exact Or.inl gone
  · refine Or.inr ⟨s, known, ?_⟩
    have dying : ∃ transition, Transition.next timeout.transition.address s = some transition := by
      rw [Transition.next, status]
      cases timeout.transition <;> exact ⟨_, rfl⟩
    obtain ⟨transition, next⟩ := dying
    have same := armed (inv.sound.enabled_of_live live) _ (inv.live live).1 s transition known next
    have pair := Option.some.inj (alarm.symm.trans same)
    rw [next, ← (Prod.mk.inj pair).2]

theorem repeats_singleton {s : Standing} {u : Update} (differs : s.status ≠ u.status) :
    repeats (some s) [u] = false := by
  simp [repeats, differs]

/-- A change that `makeChange` makes of a member's own incarnation. -/
theorem Inv.worsened (inv : Inv env node) (ready : node.isReady = true) {a : Address}
    (other : a ≠ env.whoami) {s : Standing} (known : node.view a = some s) {status : Status}
    (worse : statusPrecedence s.status < statusPrecedence status) (id : Str) (tick : Tick) :
    let node' := node.update env (node.made a s.incarnationNumber status id tick)
    node'.view a = some ⟨s.incarnationNumber, status⟩ ∧
      (node.stateTransitions.enabled = true → ArmedFor a (node'.alarm a) (node'.view a)) ∧
      ∀ b ≠ env.whoami, b ≠ a → node'.view b = node.view b ∧
        (node.stateTransitions.enabled = true → node'.alarm b = node.alarm b) := by
  have heard := inv.heard ready (node.made a s.incarnationNumber status id tick)
  have admitted : admits refused (node.view a) ⟨s.incarnationNumber, status⟩ = true := by
    rw [known]
    exact decide_eq_true (Standing.lt_iff.mpr (Or.inr ⟨rfl, worse⟩))
  have taken := node.taken_made a s.incarnationNumber status id tick
  rw [if_pos admitted] at taken
  have differs : s.status ≠ status := by
    rintro rfl
    exact lt_irrefl _ worse
  have dying : s.status ≠ .tombstone := by
    intro tombstone
    rw [tombstone] at worse
    cases status <;> exact absurd worse (by decide)
  refine ⟨?_, fun on => ?_, fun b hb away => ?_⟩
  · rw [heard.view a other, taken]
    rfl
  · refine heard.armedFor on other ⟨inv.tracks a, fun standing h tombstone => ?_⟩
      (fun none => ?_) ?_
    · obtain rfl := Option.some.inj (known.symm.trans h)
      exact absurd tombstone dying
    · rw [taken] at none
      cases none
    · rw [taken, known]
      exact repeats_singleton differs
  · have none : node.taken (node.made a s.incarnationNumber status id tick) b = [] := by
      refine taken_eq_nil fun change hc => ?_
      obtain rfl := List.mem_singleton.mp hc
      exact away.symm
    exact ⟨by rw [heard.view b hb, none]; rfl, fun on => by rw [heard.alarm on b hb, none]; rfl⟩

/-- A live timer takes effect on a member of the standing it was set for. -/
theorem Inv.movedOn (inv : Inv env node) {timer : ℕ} {timeout : Timeout}
    (live : node.stateTransitions.queue.callback timer = some timeout) {s : Standing}
    (known : node.view timeout.transition.address = some s)
    (next : Transition.next timeout.transition.address s = some timeout.transition)
    (id : Str) (tick : Tick) :
    MovedOn s.status ((node.fire env timer id tick).view timeout.transition.address) := by
  obtain ⟨other, ready⟩ := inv.live live
  have left := inv.expire live
  rw [fire_of_live live]
  generalize timeout.transition = transition at *
  obtain ⟨inc, status⟩ := s
  cases transition with
  | suspectToFaulty address inc' =>
    cases status <;> simp only [Transition.next, reduceCtorEq, Option.some.injEq,
      Transition.suspectToFaulty.injEq] at next
    obtain ⟨-, rfl⟩ := next
    rw [transit, makeFaulty_eq]
    have worse : statusPrecedence .suspect < statusPrecedence .faulty := by decide
    exact congrArg (Option.map Standing.status) (left.worsened ready other known worse id tick).1
  | faultyToTombstone address inc' =>
    cases status <;> simp only [Transition.next, reduceCtorEq, Option.some.injEq,
      Transition.faultyToTombstone.injEq] at next
    obtain ⟨-, rfl⟩ := next
    rw [transit, makeTombstone_eq]
    have worse : statusPrecedence .faulty < statusPrecedence .tombstone := by decide
    exact congrArg (Option.map Standing.status) (left.worsened ready other known worse id tick).1
  | tombstoneToEvict address =>
    cases status <;> simp only [Transition.next, reduceCtorEq, Option.some.injEq] at next
    obtain ⟨ref, started⟩ := left.started ready
    obtain ⟨m, w, -, view, run⟩ := evicted left.wellFormed started other
    have gone := (view address).trans (if_pos rfl)
    rw [transit]
    exact (congrArg (fun node => Node.view node address) run).trans gone

/-- A timer that worsens its member arms it for the new status. -/
theorem armed_worsened (inv : Inv env node) (ready : node.isReady = true) {a : Address}
    (other : a ≠ env.whoami) {s : Standing} (known : node.view a = some s) {status : Status}
    (worse : statusPrecedence s.status < statusPrecedence status)
    (armed : node.stateTransitions.enabled = true → ∀ b ≠ env.whoami, b ≠ a →
      ArmedFor b (node.alarm b) (node.view b)) (id : Str) (tick : Tick) :
    Armed env (node.update env (node.made a s.incarnationNumber status id tick)) := by
  obtain ⟨-, own, others⟩ := inv.worsened ready other known worse id tick
  intro on b hb
  rw [(inv.heard ready _).enabled] at on
  by_cases same : b = a
  · rw [same]
    exact own on
  · obtain ⟨view, alarm⟩ := others b hb same
    rw [view, alarm on]
    exact armed on b hb same

theorem armed_transit (inv : Inv env node) (ready : node.isReady = true) {transition : Transition}
    (other : transition.address ≠ env.whoami)
    (present : node.view transition.address = none ∧ transition.state = .tombstone ∨
      ∃ s, node.view transition.address = some s ∧
        Transition.next transition.address s = some transition)
    (armed : node.stateTransitions.enabled = true → ∀ b ≠ env.whoami, b ≠ transition.address →
      ArmedFor b (node.alarm b) (node.view b)) (id : Str) (tick : Tick) :
    Armed env (transit env node transition id tick) := by
  cases transition with
  | suspectToFaulty address inc =>
    rcases present with ⟨-, state⟩ | ⟨⟨inc', status⟩, known, next⟩
    · cases state
    · cases status <;> simp only [Transition.next, reduceCtorEq, Option.some.injEq,
        Transition.suspectToFaulty.injEq] at next
      obtain ⟨-, rfl⟩ := next
      have worse : statusPrecedence .suspect < statusPrecedence .faulty := by decide
      exact armed_worsened inv ready other known worse armed id tick
  | faultyToTombstone address inc =>
    rcases present with ⟨-, state⟩ | ⟨⟨inc', status⟩, known, next⟩
    · cases state
    · cases status <;> simp only [Transition.next, reduceCtorEq, Option.some.injEq,
        Transition.faultyToTombstone.injEq] at next
      obtain ⟨-, rfl⟩ := next
      have worse : statusPrecedence .faulty < statusPrecedence .tombstone := by decide
      exact armed_worsened inv ready other known worse armed id tick
  | tombstoneToEvict address =>
    obtain ⟨ref, started⟩ := inv.started ready
    obtain ⟨m, w, -, view, run⟩ := evicted inv.wellFormed started other
    have moved : transit env node (.tombstoneToEvict address) id tick =
      { node with membership := m } := run
    rw [moved]
    intro on b hb
    change ArmedFor b (node.alarm b) (m.view b)
    rw [view]
    split
    case isTrue =>
      intro standing transition known
      cases known
    case isFalse away => exact armed on b hb away

theorem armed_fire (inv : Inv env node) (armed : Armed env node) (timer : ℕ) (id : Str)
    (tick : Tick) : Armed env (node.fire env timer id tick) := by
  cases live : node.stateTransitions.queue.callback timer with
  | none =>
    rw [Node.fire, live]
    exact armed
  | some timeout =>
    obtain ⟨other, ready⟩ := inv.live live
    rw [fire_of_live live]
    refine armed_transit (inv.expire live) ready other (inv.fired_next armed live)
      (fun on b hb away => ?_) id tick
    have alarm := (inv.sound.alarm_expire live b).2
    rw [if_neg away] at alarm
    rw [Node.alarm, alarm]
    exact armed on b hb

theorem armed_handleJoin (inv : Inv env node) (armed : Armed env node) (tick : Tick)
    (clean : RejoinsClean env node (.handleJoin tick)) : Armed env (node.handleJoin env tick) := by
  unfold Node.handleJoin
  split
  case h_1 => exact armed
  case h_2 ref known =>
    split
    case isFalse => exact armed
    case isTrue left =>
      have whoami : node.view env.whoami = some (node.membership.localStanding ref) :=
        inv.wellFormed.view_whoami known
      have spoke := inv.spoke .alive tick
      intro _ a ha
      change ArmedFor a
        ((node.setLocalStatus env .alive tick).stateTransitions.enable.alarm a)
        ((node.setLocalStatus env .alive tick).view a)
      rw [StateTransitions.alarm_enable, spoke.view, if_neg ha]
      cases on : node.stateTransitions.enabled with
      | true =>
        have kept : (node.setLocalStatus env .alive tick).stateTransitions =
            node.stateTransitions := spoke.transitions.resolve_left nofun
        rw [kept]
        exact armed on a ha
      | false =>
        intro standing transition view next
        cases found : node.membership.membersByAddress.get a with
        | none => cases view.symm.trans (Membership.view_eq_none.mpr found)
        | some r =>
          obtain ⟨member, address⟩ := (inv.wellFormed.index a r).mp found
          obtain rfl := Option.some.inj (view.symm.trans (Membership.view_of_get found))
          have status := clean (by rw [whoami]; exact congrArg some left) on r member
            (by rwa [address])
          rcases status with status | status <;>
            simp [Transition.next, Member.standing, status] at next

theorem armed_apply (inv : Inv env node) (armed : Armed env node) {event : NodeEvent}
    (renews : Renews env node event) : Armed env (node.apply env event) := by
  cases event with
  | setLocalStatus status tick => exact armed_setLocalStatus inv armed status tick
  | update changes => exact armed_update inv armed renews.changes
  | makeSuspect address inc id tick =>
    rw [Node.apply, makeSuspect_eq]
    exact armed_update inv armed renews.changes
  | makeFaulty address inc id tick =>
    rw [Node.apply, makeFaulty_eq]
    exact armed_update inv armed renews.changes
  | makeTombstone address inc id tick =>
    rw [Node.apply, makeTombstone_eq]
    exact armed_update inv armed renews.changes
  | onJoin => exact armed_onJoin inv armed
  | fire timer id tick => exact armed_fire inv armed timer id tick
  | handleJoin tick => exact armed_handleJoin inv armed tick renews.rejoin

theorem Inv.foldl (inv : Inv env node) (events : List NodeEvent) :
    Inv env (events.foldl (Node.apply env) node) :=
  List.foldlRecOn events (Node.apply env) inv fun _ inv event _ => inv.apply event

theorem notStuck_of_armed (inv : Inv env node) (armed : Armed env node) : NotStuck env node := by
  intro _ on r member other dying
  have w := inv.wellFormed
  have known :
      node.view (node.membership.heap r).address = some (node.membership.heap r).standing :=
    Membership.view_of_get ((w.index _ r).mpr ⟨member, rfl⟩)
  obtain ⟨transition, next⟩ : ∃ transition, Transition.next (node.membership.heap r).address
      (node.membership.heap r).standing = some transition := by
    rw [Transition.next]
    simp only [List.mem_cons, List.not_mem_nil, or_false] at dying
    rcases dying with h | h | h <;> simp [Member.standing, h]
  have alarm := armed on _ other _ transition known next
  obtain ⟨address, state⟩ := Transition.next_spec next
  rw [Node.alarm, StateTransitions.alarm, Option.map_eq_some_iff] at alarm
  obtain ⟨⟨timer, status⟩, entry, pair⟩ := alarm
  obtain ⟨rfl, callback⟩ := Prod.mk.inj pair
  obtain ⟨timeout, live, rfl⟩ := Option.map_eq_some_iff.mp callback
  refine ⟨timer, timeout, entry, live, fun events id tick same pending => ?_⟩
  have known' : Node.view (events.foldl (Node.apply env) node) timeout.transition.address =
      some (node.membership.heap r).standing := by
    rw [address, same, known]
  have moved := (inv.foldl events).movedOn pending known' (by rw [address, next]) id tick
  rw [address] at moved
  exact moved

theorem armed_new (env : Env) (periods : Periods) : Armed env (new env periods) := by
  intro _ a _ standing transition known
  cases known

/-- Nothing is stuck while no batch repeats the status of a suspect or faulty member, and
no rejoin finds a dying one. -/
theorem run_notStuck (env : Env) (periods : Periods) {events : List NodeEvent}
    (renews : Throughout env (Renews env) (new env periods) events) {reached : List NodeEvent}
    (h : reached <+: events) : NotStuck env (run env periods reached) :=
  notStuck_of_armed (inv_run env periods reached)
    ((renews.of_prefix h).run_induction (armed_new env periods) fun _ _ inv armed renews =>
      armed_apply inv armed renews)

theorem run_notStuck_rejoin :
    let env := Env.sample (.of "a:1" (by decide))
    let b := Address.of "b:1" (by decide)
    let tick : Tick := ⟨7, [], 0⟩
    let suspect : Update × Tick := (⟨b, .suspect, 3, none, none, none⟩, tick)
    NotStuck env (run env ⟨none, none, none⟩ [.setLocalStatus .alive tick, .onJoin,
      .update [suspect], .fire 0 [] tick, .fire 1 [] tick, .fire 2 [] tick,
      .setLocalStatus .leave tick, .handleJoin tick]) := by
  intro env b tick suspect
  have renews : Throughout env (Renews env) (new env ⟨none, none, none⟩)
      [.setLocalStatus .alive tick, .onJoin, .update [suspect], .fire 0 [] tick, .fire 1 [] tick,
        .fire 2 [] tick, .setLocalStatus .leave tick, .handleJoin tick] :=
    ⟨.of_offered_nil rfl trivial, .of_offered_nil rfl trivial, ⟨fun _ _ => by decide, trivial⟩,
      .of_offered_nil rfl trivial, .of_offered_nil rfl trivial, .of_offered_nil rfl trivial,
      .of_offered_nil rfl trivial, .of_offered_nil rfl fun _ _ => by decide, trivial⟩
  exact run_notStuck env ⟨none, none, none⟩ renews (List.prefix_refl _)

/-- A second suspicion at a higher incarnation leaves the member with the first timer. -/
theorem run_stuck :
    let env := Env.sample (.of "a:1" (by decide))
    let b := Address.of "b:1" (by decide)
    let tick : Tick := ⟨7, [], 0⟩
    let suspect (inc : ℤ) : Update × Tick := (⟨b, .suspect, inc, none, none, none⟩, tick)
    ¬ NotStuck env (run env ⟨none, none, none⟩
      [.setLocalStatus .alive tick, .onJoin, .update [suspect 1], .update [suspect 2]]) := by
  intro env b tick suspect notStuck
  have awaits := notStuck (by decide) (by decide) 1 (by decide) (by decide) (by decide)
  generalize hn : run env ⟨none, none, none⟩
    [.setLocalStatus .alive tick, .onJoin, .update [suspect 1], .update [suspect 2]] =
      node at awaits
  have address : (node.membership.heap 1).address = b := by subst hn; decide
  have status : (node.membership.heap 1).status = .suspect := by subst hn; decide
  have only : (node.stateTransitions.timers.get b).map Timer.timer = some 0 := by subst hn; decide
  have still : (node.fire env 0 [] tick).view b = some ⟨2, .suspect⟩ := by subst hn; decide
  rw [address, status] at awaits
  obtain ⟨timer, timeout, entry, live, moves⟩ := awaits
  rw [entry] at only
  obtain rfl : timer = 0 := Option.some.inj only
  have moved : ((node.fire env 0 [] tick).view b).map Standing.status = some .faulty :=
    moves [] [] tick rfl live
  rw [still] at moved
  cases moved

end Node
end Ringpop.Members
