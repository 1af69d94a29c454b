import Ringpop.DampScores
import Ringpop.Damper

/-! A node with its damper, which is told of flapping members by the events of the member
list. A member that is evicted leaves the list without such an event. -/
namespace Ringpop.Members
open JsString Dictionary

/-- `createSuppressLimitExceededHandler` and `createReusableHandler`. -/
def Damper.handle (d : Damper) : MembershipEvent → Damper
  | .memberSuppressLimitExceeded a => d.addFlapper a
  | .memberReusable a _ => d.removeFlapper a
  | _ => d

structure DampingNode where
  node : Node
  damper : Damper

inductive DampingEvent where
  | event (event : NodeEvent)
  | decay (clock : ℕ → ℤ)
  | shuffle (order : List ℕ)
  | dampMember (now : ℤ) (addr : Address)
  | fire (dampReqMembers : List Address) (clock : Address → ℤ) (timer : ℕ)
  | dampReqResponse (now : ℤ) (id : ℕ) (addr : Address) (res : Option DampReqResult)

namespace DampingNode
variable (env : Env) (config : DamperConfig)

def new (periods : Periods) : DampingNode := ⟨.new env periods, .new⟩

def step (s : DampingNode) : DampingEvent → DampingNode
  | .event event =>
    ⟨s.node.apply env event, (s.node.performs env event).2.foldl Damper.handle s.damper⟩
  | .decay clock =>
    let (m, events) := s.node.membership.decayMembersDampScore env clock
    ⟨{ s.node with membership := m }, events.foldl Damper.handle s.damper⟩
  | .shuffle order =>
    { s with node := { s.node with membership := s.node.membership.shuffle order } }
  | .dampMember now addr =>
    { s with damper := s.damper.dampMember config s.node.membership now addr }
  | .fire dampReqMembers clock timer =>
    { s with damper := s.damper.fire config s.node.membership dampReqMembers clock timer }
  | .dampReqResponse now id addr res =>
    { s with damper := s.damper.dampReqResponse config s.node.membership now id addr res }

def run (periods : Periods) (events : List DampingEvent) : DampingNode :=
  events.foldl (step env config) (new env periods)

end DampingNode

/-- A current member above the reuse limit. -/
def Membership.Flaps (env : Env) (m : Membership) (a : Address) : Prop :=
  ∃ ref ∈ m.members, (m.heap ref).address = a ∧
    env.config.dampScoringReuseLimit < (m.heap ref).dampScore

/-- Only flapping members are flappers, are asked about, and can be damped. -/
structure OnlyFlapping (env : Env) (config : DamperConfig) (s : DampingNode) : Prop where
  flappers : ∀ a, s.damper.flappers.has a = true → s.node.membership.Flaps env a
  asked : ∀ dampReqMembers clock timer id fanout,
    (s.damper.fire config s.node.membership dampReqMembers clock timer).fanouts.get id =
      some fanout → s.damper.fanouts.get id = none →
    ∀ a ∈ fanout.flapperAddrs, s.node.membership.Flaps env a
  damped : ∀ now a, ¬ s.node.membership.Flaps env a →
    s.damper.dampMember config s.node.membership now a = s.damper

/-- The member that an event evicts. -/
def Node.evicts (node : Node) : NodeEvent → Option Address
  | .fire timer _ _ =>
    match node.stateTransitions.queue.callback timer with
    | none => none
    | some timeout =>
      match timeout.transition with
      | .tombstoneToEvict a => some a
      | _ => none
  | _ => none

/-- No flapper is evicted. -/
def Spared (s : DampingNode) : DampingEvent → Prop
  | .event event => ∀ a ∈ s.node.evicts event, s.damper.flappers.has a = false
  | _ => True

instance (s : DampingNode) : DecidablePred (Spared s)
  | .event event => inferInstanceAs
      (Decidable (∀ a ∈ s.node.evicts event, s.damper.flappers.has a = false))
  | .decay _ | .shuffle _ | .dampMember _ _ | .fire _ _ _ | .dampReqResponse _ _ _ _ =>
    isTrue trivial

variable {env : Env} {config : DamperConfig}

theorem foldl_flag_mono {a : Address} {events : List MembershipEvent} {f g : Bool}
    (le : f = true → g = true) (h : events.foldl (flag a) f = true) :
    events.foldl (flag a) g = true := by
  induction events generalizing f g with
  | nil => exact le h
  | cons e events ih =>
    refine ih (fun flagged => ?_) h
    cases e with
    | memberSuppressLimitExceeded b =>
      simp only [flag, Bool.or_eq_true] at flagged ⊢
      exact flagged.imp_left le
    | memberReusable b old =>
      simp only [flag, Bool.and_eq_true] at flagged ⊢
      exact flagged.imp_left le
    | checksumComputed | localMemberLeave | set | updated => exact le flagged

/-- The flappers of the damper are flagged by the events. -/
theorem Damper.flagged {d : Damper} {a : Address} {events : List MembershipEvent}
    (h : (events.foldl Damper.handle d).flappers.has a = true) :
    events.foldl (flag a) (d.flappers.has a) = true := by
  induction events generalizing d with
  | nil => exact h
  | cons e events ih =>
    rw [List.foldl_cons]
    refine foldl_flag_mono (fun flapper => ?_) (ih h)
    cases e with
    | memberSuppressLimitExceeded b =>
      simp only [flag, Bool.or_eq_true, decide_eq_true_eq]
      exact (has_flappers_addFlapper flapper).imp_right Eq.symm
    | memberReusable b old =>
      have same : decide (b = a) = decide (a = b) := decide_eq_decide.mpr eq_comm
      rwa [Damper.handle, has_flappers_removeFlapper, Bool.and_comm, ← same] at flapper
    | checksumComputed | localMemberLeave | set | updated => exact flapper

theorem Damper.foldl_handle_quiet (d : Damper) {events : List MembershipEvent}
    (quiet : ∀ e ∈ events, e.isDamping = false) : events.foldl Damper.handle d = d := by
  induction events with
  | nil => rfl
  | cons e events ih =>
    obtain ⟨first, rest⟩ := List.forall_mem_cons.mp quiet
    refine Eq.trans ?_ (ih rest)
    cases e <;> first | rfl | cases first

namespace Damper
variable {d : Damper} {m : Membership} {a : Address}

theorem flappers_dampMember (d : Damper) (m : Membership) (now : ℤ) (addr : Address) :
    (d.dampMember config m now addr).flappers.has a = true → d.flappers.has a = true := by
  unfold dampMember
  cases m.findMemberByAddress addr with
  | none => exact id
  | some member =>
    simp only
    split
    case isTrue => exact id
    case isFalse =>
      split
      case isTrue => exact id
      case isFalse =>
        have started (d : Damper) : d.startExpirationTimer.flappers = d.flappers := by
          unfold startExpirationTimer
          split <;> rfl
        simp only [apply_ite flappers, started, ite_self]
        rw [addDampedMember, has_flappers_removeFlapper, Bool.and_eq_true]
        exact And.right

theorem flappers_onSubprotocol (d : Damper) : d.onSubprotocol.flappers = d.flappers := by
  unfold onSubprotocol
  split <;> rfl

theorem flappers_onFanout (d : Damper) (m : Membership) (now rVal : ℤ)
    (res : Option (List DampReqResult)) :
    (d.onFanout config m now rVal res).flappers.has a = true → d.flappers.has a = true := by
  cases res with
  | none =>
    rw [onFanout, flappers_onSubprotocol]
    exact id
  | some res =>
    simp only [onFanout, apply_ite flappers, flappers_onSubprotocol]
    split
    case isTrue => exact id
    case isFalse =>
      exact Runs.foldl_invariant (dampMember config m now)
        (fun later => later.flappers.has a = true → d.flappers.has a = true)
        (fun later addr before damped => before (flappers_dampMember later m now addr damped)) id _

theorem flappers_dampReqResponse (d : Damper) (m : Membership) (now : ℤ) (id : ℕ) (addr : Address)
    (res : Option DampReqResult) :
    (d.dampReqResponse config m now id addr res).flappers.has a = true →
      d.flappers.has a = true := by
  unfold dampReqResponse
  cases d.fanouts.get id with
  | none => exact fun h => h
  | some fanout =>
    simp only
    split
    case isFalse => exact fun h => h
    case isTrue =>
      cases (onDampReq fanout addr res).2 with
      | none => exact fun h => h
      | some result => exact flappers_onFanout _ m now _ result

theorem flappers_expireDampedMembers (d : Damper) (clock : Address → ℤ) :
    (d.expireDampedMembers config clock).flappers = d.flappers := by
  have stopped (d : Damper) : d.stopExpirationTimer.flappers = d.flappers := by
    unfold stopExpirationTimer
    split <;> rfl
  simp only [expireDampedMembers, apply_ite flappers, stopped, ite_self]

theorem flappers_fire (d : Damper) (m : Membership) (dampReqMembers : List Address)
    (clock : Address → ℤ) (timer : ℕ) :
    (d.fire config m dampReqMembers clock timer).flappers = d.flappers := by
  unfold fire
  cases d.queue.callback timer with
  | none => rfl
  | some timeout =>
    cases timeout with
    | damp =>
      simp only [initiateSubprotocol, apply_ite flappers, flappers_onSubprotocol, ite_self]
    | expiration =>
      simp only [apply_ite flappers, scheduleExpiration, flappers_expireDampedMembers, ite_self]

end Damper

namespace Node
variable {node : Node}

theorem Inv.followed_updates (inv : Inv env node)
    (low : env.config.dampScoringReuseLimit < env.config.dampScoringSuppressLimit)
    (changes : List (Update × Tick)) (a : Address) :
    Followed env a (node.membership.dampScore a) (performs.updates env node changes).2
      ((performs.updates env node changes).1.dampScore a) := by
  rw [performs.updates]
  cases ready : node.isReady with
  | false =>
    cases changes with
    | nil => exact followed_refl _
    | cons => exact followed_refl _
  | true =>
    obtain ⟨ref, known⟩ := inv.started ready
    exact inv.wellFormed.followed_update low known changes a

theorem Inv.followed_set (inv : Inv env node) (a : Address) :
    Followed env a (node.membership.dampScore a) (node.membership.set env node.isReady).2
      ((node.membership.set env node.isReady).1.dampScore a) := by
  cases ready : node.isReady with
  | true => exact followed_refl _
  | false =>
    rcases stash : node.membership.stashedUpdates with _ | _ | ⟨first, rest⟩
    case none =>
      simp only [Membership.set, stash]
      exact followed_refl _
    case some.nil =>
      simp only [Membership.set, stash]
      exact followed_refl _
    case some.cons =>
      have unknown := fun b other => (inv.joining ready b other).1
      obtain ⟨-, -, -, -, checksum, old, events⟩ :=
        inv.wellFormed.set (List.cons_ne_nil first rest) stash unknown
      have quiet : ∀ e ∈ (node.membership.set env false).2, e.isDamping = false := by
        rw [events]
        simp [MembershipEvent.isDamping]
      refine followed_silent (flag_quiet quiet) fun flapping => ?_
      obtain ⟨score, known, -⟩ := flapping.score
      have absent := unknown a flapping.remote
      rw [Node.view, Membership.view, Option.map_eq_none_iff] at absent
      rw [Membership.dampScore, absent] at known
      cases known

theorem Inv.evicted_quietly (inv : Inv env node) {event : NodeEvent} {a : Address}
    (evicts : node.evicts event = some a) :
    a ≠ env.whoami ∧ node.performs env event = node.membership.evict env a ∧
      ((node.membership.evict env a).1.view a = none) ∧
      ∀ e ∈ (node.membership.evict env a).2, e.isDamping = false := by
  cases event with
  | setLocalStatus | update | makeSuspect | makeFaulty | makeTombstone | onJoin | handleJoin =>
    cases evicts
  | fire timer id tick =>
    rw [Node.evicts] at evicts
    rw [performs]
    cases live : node.stateTransitions.queue.callback timer with
    | none =>
      rw [live] at evicts
      cases evicts
    | some timeout =>
      obtain ⟨remote, ready⟩ := inv.live live
      obtain ⟨ref, known⟩ := inv.started ready
      rw [live] at evicts
      simp only at evicts ⊢
      generalize timeout.transition = transition at remote evicts
      cases transition with
      | suspectToFaulty | faultyToTombstone => cases evicts
      | tombstoneToEvict b =>
        obtain rfl := Option.some.inj evicts
        obtain ⟨-, -, gone, events⟩ := inv.wellFormed.evict known remote
        refine ⟨remote, rfl, (gone _).trans (if_pos rfl), fun e he => ?_⟩
        obtain ⟨checksum, old, rfl⟩ := events e he
        rfl

/-- Every event is followed, except by a member that it evicts. -/
theorem Inv.followed_performs (inv : Inv env node)
    (low : env.config.dampScoringReuseLimit < env.config.dampScoringSuppressLimit)
    (event : NodeEvent) {a : Address} (stays : node.evicts event ≠ some a) :
    Followed env a (node.membership.dampScore a) (node.performs env event).2
      ((node.performs env event).1.dampScore a) := by
  cases event with
  | setLocalStatus status tick => exact inv.wellFormed.followed_setLocalStatus tick status a
  | update | makeSuspect | makeFaulty | makeTombstone => exact inv.followed_updates low _ a
  | onJoin =>
    rw [performs]
    cases node.membership.localMember with
    | none => exact followed_refl _
    | some ref => exact inv.followed_set a
  | fire timer id tick =>
    rw [Node.evicts] at stays
    rw [performs]
    cases live : node.stateTransitions.queue.callback timer with
    | none => exact followed_refl _
    | some timeout =>
      obtain ⟨remote, ready⟩ := inv.live live
      rw [live] at stays
      simp only at stays ⊢
      generalize timeout.transition = transition at remote stays
      cases transition with
      | suspectToFaulty | faultyToTombstone => exact inv.followed_updates low _ a
      | tombstoneToEvict b =>
        have other : a ≠ b := fun same => stays (congrArg some same.symm)
        obtain ⟨ref, known⟩ := inv.started ready
        obtain ⟨-, -, -, events⟩ := inv.wellFormed.evict known remote
        refine followed_quiet (fun e he => ?_)
          fun _ => Membership.dampScore_evict node.membership other
        obtain ⟨checksum, old, rfl⟩ := events e he
        rfl
  | handleJoin tick =>
    rw [performs]
    cases node.membership.localMember with
    | none => exact followed_refl _
    | some ref =>
      simp only
      split
      case isTrue => exact inv.wellFormed.followed_setLocalStatus tick .alive a
      case isFalse => exact followed_refl _

end Node

namespace DampingNode
variable {s : DampingNode}

structure Inv (env : Env) (s : DampingNode) : Prop where
  node : s.node.Inv env
  flappers : ∀ a, s.damper.flappers.has a = true →
    Flapping env a (s.node.membership.dampScore a)

theorem inv_new (env : Env) (periods : Periods) : Inv env (new env periods) where
  node := Node.inv_new env periods
  flappers _ h := by cases h

theorem Inv.step (inv : Inv env s)
    (low : env.config.dampScoringReuseLimit < env.config.dampScoringSuppressLimit)
    (event : DampingEvent) (spared : Spared s event) : Inv env (s.step env config event) := by
  cases event with
  | event event =>
    refine ⟨inv.node.apply event, fun a h => ?_⟩
    have flagged := Damper.flagged h
    by_cases evicted : s.node.evicts event = some a
    case pos =>
      obtain ⟨-, run, -, quiet⟩ := inv.node.evicted_quietly evicted
      rw [run, flag_quiet quiet, spared a evicted] at flagged
      cases flagged
    case neg =>
      rw [DampingNode.step, (Node.apply_performs env s.node event).membership]
      exact inv.node.followed_performs low event evicted _ (inv.flappers a) flagged
  | decay clock =>
    have decayed := inv.node.wellFormed.decayMembers clock fun ref (h : ref ∈ _) => h
    refine ⟨inv.node.remembered decayed.wellFormed decayed.localMember decayed.view, fun a h => ?_⟩
    exact decayed.follows a _ (inv.flappers a) (Damper.flagged h)
  | shuffle order =>
    refine ⟨inv.node.remembered (inv.node.wellFormed.shuffle order)
      (Membership.localMember_shuffle _ order) (Membership.view_shuffle _ order), fun a h => ?_⟩
    have score := Membership.dampScore_shuffle s.node.membership order a
    exact score.symm ▸ inv.flappers a h
  | dampMember now addr =>
    exact ⟨inv.node, fun a h => inv.flappers a (Damper.flappers_dampMember _ _ _ _ h)⟩
  | fire dampReqMembers clock timer =>
    refine ⟨inv.node, fun a h => inv.flappers a ?_⟩
    rwa [DampingNode.step, Damper.flappers_fire] at h
  | dampReqResponse now id addr res =>
    exact ⟨inv.node, fun a h => inv.flappers a (Damper.flappers_dampReqResponse _ _ _ _ _ _ h)⟩

theorem flaps_of_flapping {m : Membership} (w : m.Indexed) {a : Address}
    (h : Flapping env a (m.dampScore a)) : m.Flaps env a := by
  obtain ⟨score, known, above⟩ := h.score
  simp only [Membership.dampScore, Membership.findMemberByAddress, Option.map_eq_some_iff] at known
  obtain ⟨_, ⟨ref, found, rfl⟩, rfl⟩ := known
  obtain ⟨listed, address⟩ := (w.index a ref).mp found
  exact ⟨ref, listed, address, above⟩

/-- The damp timer asks about the flappers. -/
theorem asked_flappers {d : Damper} {m : Membership} {dampReqMembers : List Address}
    {clock : Address → ℤ} {timer id : ℕ} {fanout : Fanout}
    (asks : (d.fire config m dampReqMembers clock timer).fanouts.get id = some fanout)
    (new : d.fanouts.get id = none) : fanout.flapperAddrs = d.getFlapperAddrs := by
  have same {fanouts : Dict ℕ Fanout} (equal : fanouts = d.fanouts)
      (asks : fanouts.get id = some fanout) : fanout.flapperAddrs = d.getFlapperAddrs := by
    cases new.symm.trans (equal ▸ asks)
  have resumed (d : Damper) : d.onSubprotocol.fanouts = d.fanouts := by
    unfold Damper.onSubprotocol
    split <;> rfl
  have stopped (d : Damper) : d.stopExpirationTimer.fanouts = d.fanouts := by
    unfold Damper.stopExpirationTimer
    split <;> rfl
  revert asks
  unfold Damper.fire
  cases d.queue.callback timer with
  | none => exact same rfl
  | some timeout =>
    cases timeout with
    | damp =>
      simp only [Damper.initiateSubprotocol]
      split
      case isTrue => exact same (resumed _)
      case isFalse =>
        split
        case isTrue => exact same (resumed _)
        case isFalse =>
          intro asks
          simp only [Dict.get_set] at asks
          split at asks
          case isTrue =>
            obtain rfl := Option.some.inj asks
            rfl
          case isFalse => cases new.symm.trans asks
    | expiration =>
      refine same ?_
      simp only [apply_ite Damper.fanouts, Damper.scheduleExpiration, Damper.expireDampedMembers,
        stopped, ite_self]

theorem Inv.onlyFlapping (inv : Inv env s) (config : DamperConfig) : OnlyFlapping env config s := by
  have flaps (a : Address) (h : s.damper.flappers.has a = true) : s.node.membership.Flaps env a :=
    flaps_of_flapping inv.node.wellFormed.toIndexed (inv.flappers a h)
  refine ⟨flaps, fun dampReqMembers clock timer id fanout asks new a asked => ?_,
    fun now a calm => ?_⟩
  · rw [asked_flappers asks new, Damper.getFlapperAddrs, mem_objectKeys] at asked
    exact flaps a asked
  · rw [Damper.dampMember]
    cases found : s.node.membership.findMemberByAddress a with
    | none => rfl
    | some member =>
      obtain ⟨ref, known, rfl⟩ := Option.map_eq_some_iff.mp found
      have address := inv.node.wellFormed.address known
      have absent : s.damper.flappers.has a ≠ true := fun h => calm (flaps a h)
      simp only [address]
      exact if_pos (by simpa using absent)

/-- The flapper that is evicted remains one. -/
theorem Inv.spoils (inv : Inv env s) {event : DampingEvent} (hit : ¬ Spared s event) :
    ¬ OnlyFlapping env config (s.step env config event) := by
  intro only
  cases event with
  | event event =>
    simp only [Spared, not_forall, Bool.not_eq_false] at hit
    obtain ⟨a, evicted, flapper⟩ := hit
    obtain ⟨-, run, gone, quiet⟩ := inv.node.evicted_quietly evicted
    have still : (s.step env config (.event event)).damper = s.damper := by
      rw [DampingNode.step, run, Damper.foldl_handle_quiet _ quiet]
    have left : (s.step env config (.event event)).node.membership =
        (s.node.membership.evict env a).1 :=
      (Node.apply_performs env s.node event).membership.trans (congrArg Prod.fst run)
    obtain ⟨ref, listed, address, -⟩ := only.flappers a (still ▸ flapper)
    rw [left] at listed address
    have known := ((left ▸ (inv.node.apply event).wellFormed).index a ref).mpr ⟨listed, address⟩
    cases gone.symm.trans (Membership.view_of_get known)
  | decay | shuffle | dampMember | fire | dampReqResponse => exact hit trivial

/-- Every flapper is a flapping member in every state of a run exactly when no eviction
timer fires for a flapper. -/
theorem run_onlyFlapping_iff (env : Env) (config : DamperConfig) (periods : Periods)
    (low : env.config.dampScoringReuseLimit < env.config.dampScoringSuppressLimit)
    (events : List DampingEvent) :
    (∀ reached, reached <+: events → OnlyFlapping env config (run env config periods reached)) ↔
      Runs.Throughout (step env config) Spared (new env periods) events :=
  Runs.always_iff_throughout (Inv env) (OnlyFlapping env config)
    (fun _ inv => inv.onlyFlapping config) (fun _ event inv => inv.step low event)
    (fun _ _ inv => inv.spoils) (inv_new env periods) events

/-- A member that other nodes keep calling alive, until its tombstone comes. -/
def flapsUntil (b : Address) (last : Status) : List DampingEvent :=
  let tick : Tick := ⟨7, [], 0⟩
  let change (inc : ℤ) (status : Status) : Update × Tick :=
    (⟨b, status, inc, none, none, none⟩, tick)
  [.event (.setLocalStatus .alive tick), .event .onJoin,
    .event (.update ([1, 2, 3, 4, 5, 6, 7, 8, 9, 10].map (change · .alive) ++ [change 11 last]))]

theorem run_onlyFlapping_flapper :
    let env := Env.sample (.of "a:1" (by decide))
    let b := Address.of "b:1" (by decide)
    let finish := run env ⟨10, 3, 1000, 5000⟩ ⟨none, none, none⟩ (flapsUntil b .suspect)
    finish.damper.flappers.has b = true ∧ finish.node.membership.Flaps env b := by
  intro env b finish
  have only := (run_onlyFlapping_iff env ⟨10, 3, 1000, 5000⟩ ⟨none, none, none⟩ (by decide)
    (flapsUntil b .suspect)).mpr (by decide) _ List.prefix_rfl
  have flapper : finish.damper.flappers.has b = true := by decide
  exact ⟨flapper, only.flappers b flapper⟩

/-- The tombstone of a flapper is evicted, and the flapper is still asked about. -/
theorem run_evicted_flapper :
    let env := Env.sample (.of "a:1" (by decide))
    let b := Address.of "b:1" (by decide)
    ¬ OnlyFlapping env ⟨10, 3, 1000, 5000⟩ (run env ⟨10, 3, 1000, 5000⟩ ⟨none, none, none⟩
      (flapsUntil b .tombstone ++ [.event (.fire 0 [] ⟨8, [], 0⟩)])) := by
  intro env b only
  obtain ⟨ref, listed, address, -⟩ := only.flappers b (by decide)
  have gone : ∀ ref ∈ (run env ⟨10, 3, 1000, 5000⟩ ⟨none, none, none⟩
      (flapsUntil b .tombstone ++ [.event (.fire 0 [] ⟨8, [], 0⟩)])).node.membership.members,
      ((run env ⟨10, 3, 1000, 5000⟩ ⟨none, none, none⟩ (flapsUntil b .tombstone ++
        [.event (.fire 0 [] ⟨8, [], 0⟩)])).node.membership.heap ref).address ≠ b := by decide
  exact gone ref listed address

end DampingNode
end Ringpop.Members
