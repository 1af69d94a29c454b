import Ringpop.Convergence
import Ringpop.RingMirror
import Ringpop.RingRouting

/-! The hash rings of a cluster. The instances send each other at most one change for each
member at a time, so that no member returns within a batch, and every ring has the members
that its instance believes to be pingable. -/
namespace Ringpop.Members
open JsString Dictionary Ringpop.Ring Ringpop.Ring.HashRing Spreading GreatestWins

namespace Node
variable {env : Env} {node : Node}

theorem ring_onUpdatedForGossip (env : Env) (node : Node) (updates : List Update) :
    (node.onUpdatedForGossip env updates).ring = node.ring := by
  induction updates generalizing node with
  | nil => rfl
  | cons u updates ih => exact ih ((node.handleUpdate env u).recordChange u)

theorem consistent_addRemoveServers (c : Consistent env.ringOptions node.ring)
    (add remove : List Str) :
    Consistent env.ringOptions (node.addRemoveServers env add remove).ring := by
  unfold addRemoveServers
  split
  · exact (apply_spec c (.addRemoveServers add remove)).1
  · exact c

theorem consistent_handle (c : Consistent env.ringOptions node.ring) (event : MembershipEvent) :
    Consistent env.ringOptions (node.handle env event).ring := by
  cases event with
  | set updates =>
    refine consistent_addRemoveServers ?_ _ _
    rw [foldl_handleUpdate_eq]
    exact c
  | updated updates =>
    refine consistent_addRemoveServers ?_ _ _
    rw [ring_onUpdatedForGossip]
    exact c
  | checksumComputed | localMemberLeave | memberReusable | memberSuppressLimitExceeded => exact c

theorem consistent_emit (c : Consistent env.ringOptions node.ring)
    (result : Membership × List MembershipEvent) :
    Consistent env.ringOptions (node.emit env result).ring :=
  List.foldlRecOn (motive := fun n : Node => Consistent env.ringOptions n.ring) result.2 _ c
    fun _ held event _ => consistent_handle held event

/-- Every event leaves the replicas of the servers in the tree, and nothing else. -/
theorem consistent_apply (c : Consistent env.ringOptions node.ring) (event : NodeEvent) :
    Consistent env.ringOptions (node.apply env event).ring := by
  cases event with
  | setLocalStatus | update | makeSuspect | makeFaulty | makeTombstone => exact consistent_emit c _
  | onJoin =>
    rw [apply, Node.onJoin]
    split
    · exact c
    · exact consistent_emit c _
  | fire timer id tick =>
    rw [apply]
    cases live : node.stateTransitions.queue.callback timer with
    | none =>
      rw [Node.fire, live]
      exact c
    | some timeout =>
      rw [fire_of_live live]
      generalize timeout.transition = transition
      cases transition
      all_goals
        refine consistent_emit ?_ _
        exact c
  | handleJoin tick =>
    rw [apply, Node.handleJoin]
    split
    · exact c
    · split
      · exact consistent_emit c _
      · exact c

/-- A single change cannot take a member away and bring it back. -/
theorem noneReturns_of_oneEach (node : Node) {event : NodeEvent} (once : event.OneEach) :
    NoneReturns env node event := by
  cases event with
  | update changes =>
    intro _ change _ _
    have short : (node.taken changes change.1.address).length ≤ 1 :=
      (accepted_sublist _ _).length_le.trans (once.length_le change.1.address)
    cases taken : node.taken changes change.1.address with
    | nil => rfl
    | cons u rest =>
      rw [taken] at short
      obtain rfl : rest = [] := by simpa using short
      simp [returns]
  | _ => trivial

end Node

theorem Peer.Moved.mirrors {config : PeerConfig} {each : Prop} {p p' : Peer}
    (moved : p.Moved config each p') (inv : Node.Inv config.members p.node) (held : each)
    (mirrors : p.node.Mirrors) : p'.node.Mirrors := by
  cases moved with
  | kept announced alike =>
    rw [alike]
    exact mirrors
  | shuffled order announced alike =>
    have shuffled := inv.remembered (inv.wellFormed.shuffle order)
      (Membership.localMember_shuffle _ order) (Membership.view_shuffle _ order)
    rw [alike]
    refine shuffled.mirrors_iff.mpr ?_
    obtain ⟨mirrored, foreign⟩ := inv.mirrors_iff.mp mirrors
    refine ⟨fun a => (mirrored a).trans (congrArg Node.pingable ?_), foreign⟩
    exact (Membership.view_shuffle p.node.membership order a).symm
  | performed event once announced alike =>
    rw [alike]
    exact Node.mirrors_apply inv mirrors (Node.noneReturns_of_oneEach p.node (once held))
  | restarted announced alike =>
    rw [alike]
    exact Node.mirrors_new config.members config.periods

theorem Peer.Moved.consistent {config : PeerConfig} {each : Prop} {p p' : Peer}
    (moved : p.Moved config each p') (c : Consistent config.members.ringOptions p.node.ring) :
    Consistent config.members.ringOptions p'.node.ring := by
  cases moved with
  | kept announced alike | shuffled order announced alike =>
    rw [alike]
    exact c
  | performed event once announced alike =>
    rw [alike]
    exact Node.consistent_apply c event
  | restarted announced alike =>
    rw [alike]
    exact consistent_new

namespace Cluster
variable {setup : Setup} {c : Cluster}

/-- Messages say one thing of each member, and rings are those of the lists. -/
structure Ringed (setup : Setup) (c : Cluster) : Prop where
  honest : Honest setup c
  each : ∀ e ∈ c.messages, e.OneEach
  mirrors : ∀ a, (c.peer a).node.Mirrors
  consistent : ∀ a, Consistent (setup.config a).members.ringOptions (c.peer a).node.ring

theorem ringed_new (setup : Setup) : Ringed setup (new setup) where
  honest := honest_new setup
  each := List.forall_mem_nil _
  mirrors a := Node.mirrors_new (setup.config a).members (setup.config a).periods
  consistent _ := consistent_new

theorem Ringed.step (ringed : Ringed setup c) (event : Address × PeerEvent) :
    Ringed setup (c.step setup event) where
  honest := ringed.honest.step event
  each := by
    rcases step_cases setup c event with idle | ⟨enabled, step⟩
    · rw [idle]
      exact ringed.each
    · rw [step]
      exact List.forall_mem_append.mpr ⟨ringed.each, Peer.oneEach_step
        (ringed.honest.sound event.1).current setup.logarithm fun e he =>
          ringed.each e (enabled e he).1⟩
  mirrors a := (step_moved setup c event a).mirrors (ringed.honest.sound a).current.inv ringed.each
    (ringed.mirrors a)
  consistent a := (step_moved setup c event a).consistent (ringed.consistent a)

theorem ringed_run (setup : Setup) (events : List (Address × PeerEvent)) :
    Ringed setup (run setup events) :=
  Runs.foldl_invariant (step setup) (Ringed setup) (fun _ event ringed => ringed.step event)
    (ringed_new setup) events

/-- The ring of an instance has the members that it believes to be pingable. -/
theorem Ringed.has (ringed : Ringed setup c) (b : Address) (s : Str) :
    (c.peer b).node.ring.servers.has s = true ↔
      ∃ a : Address, a.name = s ∧ Node.pingable (c.view b a) = true := by
  obtain ⟨mirrored, foreign⟩ :=
    (ringed.honest.sound b).current.inv.mirrors_iff.mp (ringed.mirrors b)
  constructor
  · intro present
    have own : s ∉ objectPrototype := fun own => by
      cases (foreign s own).symm.trans present
    exact ⟨⟨s, own⟩, rfl, (mirrored ⟨s, own⟩).symm.trans present⟩
  · rintro ⟨a, rfl, known⟩
    exact (mirrored a).trans known

theorem Ringed.lookup (ringed : Ringed setup c) (b : Address) (key : Str) :
    match (c.peer b).node.ring.lookup (setup.config b).members.ringOptions key with
    | none => ∀ a, Node.pingable (c.view b a) = false
    | some s => ∃ a : Address, a.name = s ∧ Node.pingable (c.view b a) = true := by
  have points := fun h s => (ringed.consistent b).mem_points (h := h) (s := s)
  rw [lookup_eq, Clockwise.owner]
  cases lap : Clockwise.clockwise ((setup.config b).members.ringOptions.hashFunc key)
      (c.peer b).node.ring.points with
  | nil =>
    intro a
    rw [← Bool.not_eq_true]
    intro known
    have present := (ringed.has b a.name).mpr ⟨a, rfl, known⟩
    have point := (points _ a.name).mpr ⟨present, 0, (by decide : 0 < 100), rfl⟩
    have listed : a.name ∈ ([] : List Str) := lap ▸ Clockwise.mem_clockwise.mpr ⟨_, point, rfl⟩
    cases listed
  | cons s rest =>
    have listed : s ∈ Clockwise.clockwise _ _ := lap ▸ List.mem_cons_self
    obtain ⟨⟨h, s⟩, point, rfl⟩ := Clockwise.mem_clockwise.mp listed
    exact (ringed.has b s).mp ((points h s).mp point).1

/-- Whatever happens, in whatever order, and whatever the network does: no message says two
things of one member, and every ring has the members that its instance believes to be alive
or suspect, with all their replica points. A key is routed to one of them, and to nobody only
if there is none. -/
theorem run_rings (setup : Setup) (events : List (Address × PeerEvent)) :
    let c := run setup events
    (∀ e ∈ c.messages, (e.message.updates.map Update.address).Nodup) ∧
      ∀ b, let o := (setup.config b).members.ringOptions
        let ring := (c.peer b).node.ring
        (∀ s, ring.servers.has s = true ↔
          ∃ a : Address, a.name = s ∧ Node.pingable (c.view b a) = true) ∧
        HoldsReplicas o ring ∧
        ∀ key, match ring.lookup o key with
          | none => ∀ a, Node.pingable (c.view b a) = false
          | some s => ∃ a : Address, a.name = s ∧ Node.pingable (c.view b a) = true :=
  have ringed := ringed_run setup events
  ⟨ringed.each, fun b => ⟨ringed.has b, (ringed.consistent b).holdsReplicas, ringed.lookup b⟩⟩

/-- Instances with the same beliefs route every key alike. -/
theorem Ringed.routes_alike (ringed : Ringed setup c) {b b' : Address}
    (same : ∀ a, c.view b a = c.view b' a)
    (hashFunc : (setup.config b).members.hashFunc = (setup.config b').members.hashFunc) :
    let o := (setup.config b).members.ringOptions
    let o' := (setup.config b').members.ringOptions
    (∀ key, (c.peer b).node.ring.lookup o key = (c.peer b').node.ring.lookup o' key) ∧
      ∀ key n, ∃ result, (c.peer b).node.ring.lookupN o key n = some result ∧
        (c.peer b').node.ring.lookupN o' key n = some result := by
  intro o o'
  have options : o = o' := congrArg (Options.mk 0) hashFunc
  have consistent' : Consistent o (c.peer b').node.ring := options ▸ ringed.consistent b'
  rw [← options]
  refine (ringed.consistent b).routes_alike consistent' fun s => ?_
  rw [Bool.eq_iff_iff, ringed.has, ringed.has]
  simp only [same]

/-- Instances that have settled on the same beliefs route every key alike. -/
theorem run_routes_alike (setup : Setup) (events more : List (Address × PeerEvent))
    {participants : List Address} (settled : Settled participants (run setup events))
    (passing : ∀ event ∈ more, event.1 ∈ participants ∧ event.2.passesOn = true)
    (spread : ∀ x ∈ participants, ∀ b ∈ participants,
      Reaches (step setup) (Hands setup) (run setup events) more x b)
    (hashFunc : ∀ b ∈ participants, ∀ b' ∈ participants,
      (setup.config b).members.hashFunc = (setup.config b').members.hashFunc) :
    let c := (run setup events).after setup more
    ∀ b ∈ participants, ∀ b' ∈ participants, ∀ key,
      let o := (setup.config b).members.ringOptions
      let o' := (setup.config b').members.ringOptions
      (c.peer b).node.ring.lookup o key = (c.peer b').node.ring.lookup o' key ∧
        ∀ n, ∃ result, (c.peer b).node.ring.lookupN o key n = some result ∧
          (c.peer b').node.ring.lookupN o' key n = some result := by
  intro c b hb b' hb' key o o'
  have honest := honest_run setup events
  have ringed : Ringed setup c := by
    have whole := ringed_run setup (events ++ more)
    rwa [← run_after] at whole
  have same (a : Address) : c.view b a = c.view b' a :=
    (settled.agree honest passing spread hb a).trans
      (settled.agree honest passing spread hb' a).symm
  obtain ⟨one, several⟩ := ringed.routes_alike same (hashFunc b hb b' hb')
  exact ⟨one key, several key⟩

theorem run_routes_alike_ping :
    ∃ c, c = (run Pair.setup Pair.joining).after Pair.setup Pair.pinging ∧ ∀ key,
      (c.peer Pair.a).node.ring.lookup (Pair.setup.config Pair.a).members.ringOptions key =
        (c.peer Pair.b).node.ring.lookup (Pair.setup.config Pair.b).members.ringOptions key :=
  ⟨_, rfl, fun key => (run_routes_alike Pair.setup Pair.joining Pair.pinging Pair.settled
    Pair.passing Pair.spread (fun _ _ _ _ => rfl) Pair.a Pair.mem_a Pair.b Pair.mem_b key).1⟩

end Cluster
end Ringpop.Members
