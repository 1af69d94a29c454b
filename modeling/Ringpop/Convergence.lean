import Ringpop.PassingOn
import Ringpop.Spreading

/-! What a cluster settles on. While nothing new is said of anybody, beliefs only move up to
the newest one that somebody has, and those whom it reaches have the same checksum. -/
namespace Ringpop.Members
open JsString Dictionary Spreading

namespace Membership
variable {env : Env} {m : Membership}

/-- A list with a local member has the checksum of its members. -/
def Summed (env : Env) (m : Membership) : Prop :=
  m.localMember ≠ none → m.checksum = some (env.hashFunc m.generateChecksumString)

theorem summed_computeChecksum (env : Env) (m : Membership) :
    Summed env (computeChecksum env m).1 := fun _ => rfl

theorem Summed.update (summed : Summed env m) (isReady : Bool) (changes : List (Update × Tick)) :
    Summed env (Membership.update env isReady m changes).1 := by
  cases isReady with
  | false =>
    rw [update_stash]
    exact summed
  | true =>
    by_cases none : changes = []
    · subst none
      exact summed
    · rw [update_ready env m none]
      simp only
      split
      case isTrue idle => rwa [processChanges_idle env m changes idle]
      case isFalse => exact summed_computeChecksum env _

theorem Summed.set (summed : Summed env m) (isReady : Bool) :
    Summed env (Membership.set env isReady m).1 := by
  unfold Membership.set
  split
  · exact summed
  · split
    · exact summed
    · exact summed
    · exact summed_computeChecksum env _

theorem Summed.evict (summed : Summed env m) (a : Address) :
    Summed env (Membership.evict env m a).1 := by
  unfold Membership.evict Membership.removeMember
  split
  · exact summed
  · split
    · exact summed
    · exact summed_computeChecksum env _

theorem summed_setLocalStatus (env : Env) (m : Membership) (tick : Tick) (status : Status) :
    Summed env (setLocalStatus env tick m status).1 := by
  unfold setLocalStatus
  split <;> exact summed_computeChecksum env _

theorem Summed.shuffle (summed : Summed env m) (w : WellFormed env m) (order : List ℕ) :
    Summed env (m.shuffle order) := by
  intro started
  rw [localMember_shuffle] at started
  have same : (m.shuffle order).generateChecksumString = m.generateChecksumString :=
    generateChecksumString_congr (w.shuffle order).toIndexed w.toIndexed fun a s _ => by
      rw [view_shuffle]
  rw [same, ← summed started]
  unfold Membership.shuffle
  split <;> rfl

/-- The whole list has a change for each belief. -/
theorem Indexed.listed (w : m.Indexed) (env : Env) {a : Address} {s : Standing}
    (known : m.view a = some s) :
    ∃ u ∈ m.membershipAsChanges env, u.address = a ∧ u.standing = s := by
  cases found : m.membersByAddress.get a with
  | none => cases known.symm.trans (view_eq_none.mpr found)
  | some ref =>
    obtain ⟨here, address⟩ := (w.index a ref).mp found
    have standing := Option.some.inj ((view_of_get found).symm.trans known)
    exact ⟨_, List.mem_map_of_mem here, address, standing⟩

end Membership

/-- Whatever an event performs on the list. -/
theorem Node.summed_performs {env : Env} {node : Node} (summed : node.membership.Summed env)
    (event : NodeEvent) : (node.performs env event).1.Summed env := by
  have updates (changes : List (Update × Tick)) :
      (performs.updates env node changes).1.Summed env := summed.update node.isReady changes
  cases event with
  | setLocalStatus => exact Membership.summed_setLocalStatus env _ _ _
  | update | makeSuspect | makeFaulty | makeTombstone => exact updates _
  | onJoin =>
    rw [performs]
    split
    · exact summed
    · exact summed.set _
  | fire =>
    rw [performs]
    split
    · exact summed
    · split
      · exact updates _
      · exact updates _
      · exact summed.evict _
  | handleJoin =>
    rw [performs]
    split
    · exact summed
    · split
      · exact Membership.summed_setLocalStatus env _ _ _
      · exact summed

theorem Peer.Moved.summed {config : PeerConfig} {each : Prop} {p p' : Peer}
    (moved : p.Moved config each p') (inv : Node.Inv config.members p.node)
    (summed : p.node.membership.Summed config.members) :
    p'.node.membership.Summed config.members := by
  cases moved with
  | kept announced alike => rwa [alike]
  | shuffled order announced alike =>
    rw [alike]
    exact summed.shuffle inv.wellFormed order
  | performed event once announced alike =>
    rw [alike]
    have performed := (Node.apply_performs config.members p.node event).membership
    exact performed.symm ▸ Node.summed_performs summed event
  | restarted announced alike =>
    rw [alike]
    exact fun started => absurd rfl started

namespace Cluster
variable (setup : Setup) (participants : List Address) (c : Cluster)

theorem summed_run (events : List (Address × PeerEvent)) (a : Address) :
    ((run setup events).peer a).node.membership.Summed (setup.config a).members := by
  have both := Runs.foldl_invariant (step setup)
    (fun c => Honest setup c ∧
      ∀ a, (c.peer a).node.membership.Summed (setup.config a).members)
    (fun c event held => ⟨held.1.step event, fun a =>
      (step_moved setup c event a).summed (held.1.sound a).current.inv (held.2 a)⟩)
    ⟨honest_new setup, fun _ started => absurd rfl started⟩ events
  exact both.2 a

/-- The newest belief about a member among the participants. -/
def newest (a : Address) : Option Standing :=
  (participants.filterMap fun b => c.view b a).max?

/-- No newer than what one of the participants believes. -/
def NotNewer (a : Address) (s : Standing) : Prop :=
  ∃ b ∈ participants, ∃ t ∈ c.view b a, s ≤ t

/-- The participants have come up, none is believed to be ahead of itself, and what they have
still to say and what is under way to them is no news to all of them. -/
structure Settled : Prop where
  isReady : ∀ b ∈ participants, (c.peer b).node.isReady = true
  own : ∀ b ∈ participants, ∀ x ∈ participants, ∀ s ∈ c.view x b, ∃ t ∈ c.view b b, s ≤ t
  /-- What is recorded about members of the list is what is believed of them. -/
  evicted : ∀ b ∈ participants, ∀ a r, (c.peer b).node.changes.get a = some r →
    c.view b a = none → NotNewer participants c a r.change.standing
  messages : ∀ e ∈ c.messages, e.receiver ∈ participants → e.Vouched (NotNewer participants c)
  /-- A tombstone is refused for a member that is not known. -/
  tombstones : ∀ x ∈ participants, ∀ a s, c.view x a = some s → s.status = .tombstone →
    ∀ b ∈ participants, c.view b a ≠ none

/-- What arrives at `b` says at least what `x` believed when it was sent. -/
def Hands (sent now : Cluster) (event : Address × PeerEvent) (x b : Address) : Prop :=
  event.1 = b ∧ (∀ e ∈ event.2.receives, e ∈ now.messages ∧ e.receiver = b) ∧
    ∀ u ∈ (sent.peer x).membershipAsChanges (setup.config x), u.address ≠ b →
      ∃ v ∈ (now.peer b).takesIn (setup.config b) event.2,
        v.address = u.address ∧ u.standing ≤ v.standing

variable {setup participants c}

theorem newest_eq_some {a : Address} {s : Standing} :
    newest participants c a = some s ↔
      (∃ b ∈ participants, c.view b a = some s) ∧
        ∀ b ∈ participants, ∀ t, c.view b a = some t → t ≤ s := by
  rw [newest, List.max?_eq_some_iff]
  simp only [List.mem_filterMap, forall_exists_index, and_imp]
  exact and_congr_right fun _ =>
    ⟨fun h b hb t known => h t b hb known, fun h t b hb known => h b hb t known⟩

theorem exists_newest {a b : Address} (hb : b ∈ participants) {s : Standing}
    (known : c.view b a = some s) : ∃ t, newest participants c a = some t ∧ s ≤ t := by
  have listed : s ∈ participants.filterMap fun b => c.view b a :=
    List.mem_filterMap.mpr ⟨b, hb, known⟩
  cases max : newest participants c a with
  | none => exact absurd listed (List.max?_eq_none_iff.mp max ▸ List.not_mem_nil)
  | some t => exact ⟨t, rfl, (newest_eq_some.mp max).2 b hb s known⟩

/-- No newer than a belief that has been fixed. -/
def AtMost (top : Address → Option Standing) (a : Address) (s : Standing) : Prop :=
  ∃ t, top a = some t ∧ s ≤ t

/-- Nothing is newer than `top`, which is what the participants are themselves. -/
structure Bounded (setup : Setup) (participants : List Address) (top : Address → Option Standing)
    (c : Cluster) : Prop where
  honest : Honest setup c
  isReady : ∀ b ∈ participants, (c.peer b).node.isReady = true
  within : ∀ b ∈ participants, (c.peer b).Within (AtMost top)
  own : ∀ b ∈ participants, ∃ t, top b = some t ∧ c.view b b = some t
  messages : ∀ e ∈ c.messages, e.receiver ∈ participants → e.Vouched (AtMost top)
  known : ∀ a t, top a = some t → t.status = .tombstone → ∀ b ∈ participants, c.view b a ≠ none

theorem Settled.bounded (settled : Settled participants c) (honest : Honest setup c) :
    Bounded setup participants (newest participants c) c := by
  have atMost {a : Address} {s : Standing} (old : NotNewer participants c a s) :
      AtMost (newest participants c) a s := by
    obtain ⟨b, hb, t, known, le⟩ := old
    obtain ⟨top, max, le'⟩ := exists_newest hb known
    exact ⟨top, max, le.trans le'⟩
  refine ⟨honest, settled.isReady, fun b hb => ⟨fun a s known => exists_newest hb known,
    fun a r found => ?_⟩, fun b hb => ?_, fun e he receiver u hu =>
      atMost (settled.messages e he receiver u hu), fun a t max status b hb => ?_⟩
  · obtain ⟨rfl, current⟩ := (honest.sound b).current.current a r found
    cases known : c.view b r.change.address with
    | none => exact atMost (settled.evicted b hb _ r found known)
    | some s =>
      rw [Update.Vouched, current s known]
      exact exists_newest hb known
  · have inv := (honest.sound b).current.inv
    obtain ⟨ref, started⟩ := inv.started (settled.isReady b hb)
    have own : c.view b b = some ((c.peer b).node.membership.localStanding ref) := by
      have self := inv.wellFormed.view_whoami started
      rwa [setup.whoami] at self
    refine ⟨_, newest_eq_some.mpr ⟨⟨b, hb, own⟩, fun x hx s known => ?_⟩, own⟩
    obtain ⟨t, self, le⟩ := settled.own b hb x hx s known
    exact le.trans (Option.some.inj (self.symm.trans own)).le
  · obtain ⟨⟨x, hx, known⟩, -⟩ := newest_eq_some.mp max
    exact settled.tombstones x hx a t known status b hb

/-- What an event that says nothing new does to the participant where it happens. -/
theorem Bounded.moves {top : Address → Option Standing}
    (bounded : Bounded setup participants top c) {b : Address} (hb : b ∈ participants)
    {event : PeerEvent} (enabled : ∀ e ∈ event.receives, e ∈ c.messages ∧ e.receiver = b)
    (passesOn : event.passesOn = true) :
    let moved := (c.peer b).step (setup.config b) setup.logarithm event
    moved.1.node.isReady = true ∧ moved.1.Within (AtMost top) ∧
      (∀ e ∈ moved.2, e.Vouched (AtMost top)) ∧ moved.1.node.view b = c.view b b ∧
      (∀ a s, c.view b a = some s → ∃ s', moved.1.node.view a = some s' ∧ s ≤ s') ∧
      ∀ u ∈ (c.peer b).takesIn (setup.config b) event, u.address ≠ b →
        (c.view b u.address = none → u.status ≠ .tombstone) →
        ∃ s, moved.1.node.view u.address = some s ∧ u.standing ≤ s := by
  intro moved
  have current := (bounded.honest.sound b).current
  have ready := bounded.isReady b hb
  have who := setup.whoami b
  obtain ⟨tick, mirrors⟩ := Peer.mirrors_step current ready setup.logarithm passesOn
  obtain ⟨own, max, self⟩ := bounded.own b hb
  have heard : ∀ u ∈ (c.peer b).takesIn (setup.config b) event, u.Vouched (AtMost top) := by
    intro u hu
    obtain ⟨e, he, listed⟩ := Peer.takesIn_received _ _ _ u hu
    obtain ⟨sent, receiver⟩ := enabled e he
    exact bounded.messages e sent (receiver ▸ hb) u listed
  have quiet : ∀ u ∈ (c.peer b).takesIn (setup.config b) event,
      u.address = (setup.config b).members.whoami → u.standing ≤ own := by
    intro u hu about
    obtain ⟨t, found, le⟩ := heard u hu
    rw [about, who, max] at found
    exact le.trans (Option.some.inj found).ge
  obtain ⟨within, same⟩ := (bounded.within b hb).update current.inv ready (who.symm ▸ self) heard
    quiet tick
  obtain ⟨within', sent⟩ := mirrors.within within
  rw [who] at same
  have told := current.inv.heard ready
    (timed tick ((c.peer b).takesIn (setup.config b) event))
  refine ⟨mirrors.isReady.trans told.isReady, within', sent, ?_, fun a s known => ?_,
    fun u hu away live => ?_⟩
  · rw [mirrors.view, self]
    exact same
  · rw [mirrors.view]
    by_cases here : a = b
    · rw [here, self] at known
      exact ⟨own, here ▸ same, (Option.some.inj known).ge⟩
    · exact (told.le (who.symm ▸ here)).1 s known
  · rw [mirrors.view]
    exact (told.le (who.symm ▸ away)).2 u ((map_timed tick _).symm ▸ hu) rfl live

theorem Bounded.step {top : Address → Option Standing}
    (bounded : Bounded setup participants top c) {event : Address × PeerEvent}
    (allowed : event.1 ∈ participants ∧ event.2.passesOn = true) :
    Bounded setup participants top (c.step setup event) := by
  obtain ⟨b, event⟩ := event
  rcases step_cases setup c (b, event) with idle | ⟨enabled, -⟩
  · rwa [idle]
  · obtain ⟨here, others, messages⟩ := peer_step setup enabled
    obtain ⟨ready, within, sent, self, grows, -⟩ := bounded.moves allowed.1 enabled allowed.2
    have everywhere (x : Address) (property : Peer → Prop) (held : property (c.peer x))
        (moved : x = b → property ((c.peer b).step (setup.config b) setup.logarithm event).1) :
        property ((c.step setup (b, event)).peer x) := by
      by_cases same : x = b
      · rw [same, here]
        exact moved same
      · rwa [others x same]
    refine ⟨bounded.honest.step _, fun x hx => ?_, fun x hx => ?_, fun x hx => ?_, ?_,
      fun a t max status x hx => ?_⟩
    · exact everywhere x (fun p => p.node.isReady = true) (bounded.isReady x hx) fun _ => ready
    · exact everywhere x (Peer.Within (AtMost top)) (bounded.within x hx) fun _ => within
    · obtain ⟨t, max, own⟩ := bounded.own x hx
      refine ⟨t, max, everywhere x (fun p => p.node.view x = some t) own fun same => ?_⟩
      subst same
      exact self.trans own
    · rw [messages]
      exact List.forall_mem_append.mpr ⟨bounded.messages, fun e he _ => sent e he⟩
    · have before := bounded.known a t max status x hx
      refine everywhere x (fun p => p.node.view a ≠ none) before fun same => ?_
      obtain ⟨s, known⟩ := Option.ne_none_iff_exists'.mp before
      obtain ⟨s', after, -⟩ := grows a s (same ▸ known)
      exact Option.ne_none_iff_exists'.mpr ⟨s', after⟩

/-- No participant believes less than before. -/
theorem Bounded.grows {top : Address → Option Standing}
    (bounded : Bounded setup participants top c) {events : List (Address × PeerEvent)}
    (passing : ∀ event ∈ events, event.1 ∈ participants ∧ event.2.passesOn = true)
    {a b : Address} {s : Standing} (known : c.view b a = some s) :
    ∃ s', (c.after setup events).view b a = some s' ∧ s ≤ s' := by
  induction events generalizing c s with
  | nil => exact ⟨s, known, le_rfl⟩
  | cons event events ih =>
    obtain ⟨first, rest⟩ := List.forall_mem_cons.mp passing
    have one : ∃ s', (c.step setup event).view b a = some s' ∧ s ≤ s' := by
      obtain ⟨x, event⟩ := event
      rcases step_cases setup c (x, event) with idle | ⟨enabled, -⟩
      · rw [idle]
        exact ⟨s, known, le_rfl⟩
      · obtain ⟨here, others, -⟩ := peer_step setup enabled
        obtain ⟨-, -, -, -, grows, -⟩ := bounded.moves first.1 enabled first.2
        by_cases same : b = x
        · subst same
          rw [Cluster.view, here]
          exact grows a s known
        · rw [Cluster.view, others b same]
          exact ⟨s, known, le_rfl⟩
    obtain ⟨s', after, le⟩ := one
    obtain ⟨s'', final, le'⟩ := ih (bounded.step first) rest after
    exact ⟨s'', final, le.trans le'⟩

/-- The newest belief stays where it is. -/
theorem Bounded.stays {top : Address → Option Standing}
    (bounded : Bounded setup participants top c) {event : Address × PeerEvent}
    (allowed : event.1 ∈ participants ∧ event.2.passesOn = true) {a b : Address} {t : Standing}
    (max : top a = some t) (hb : b ∈ participants) (holds : c.view b a = some t) :
    (c.step setup event).view b a = some t := by
  obtain ⟨s, after, le⟩ := bounded.grows (List.forall_mem_singleton.mpr allowed) holds
  obtain ⟨t', max', le'⟩ := ((bounded.step allowed).within b hb).believes a s after
  obtain rfl : t = t' := Option.some.inj (max.symm.trans max')
  exact after.trans (congrArg some (le_antisymm le' le))

/-- The newest belief goes on to whom it is handed. -/
theorem Bounded.passes {top : Address → Option Standing} {sent : Cluster}
    (bounded : Bounded setup participants top c) {event : Address × PeerEvent}
    (allowed : event.1 ∈ participants ∧ event.2.passesOn = true) {a x b : Address} {t : Standing}
    (hands : Hands setup sent c event x b) (max : top a = some t)
    (w : (sent.peer x).node.membership.Indexed) (holds : sent.view x a = some t) :
    (c.step setup event).view b a = some t := by
  obtain ⟨b', event⟩ := event
  obtain ⟨rfl, enabled, covers⟩ := hands
  obtain ⟨here, -, -⟩ := peer_step setup enabled
  obtain ⟨-, within, -, self, -, takes⟩ := bounded.moves allowed.1 enabled allowed.2
  by_cases own : a = b'
  · subst own
    obtain ⟨t', max', own⟩ := bounded.own a allowed.1
    obtain rfl : t = t' := Option.some.inj (max.symm.trans max')
    rw [Cluster.view, here, self, own]
  · obtain ⟨u, hu, rfl, rfl⟩ := w.listed (setup.config x).members holds
    obtain ⟨v, hv, address, le⟩ := covers u hu own
    -- nothing is newer than what is handed on
    obtain ⟨e, he, listed⟩ := Peer.takesIn_received _ _ _ v hv
    obtain ⟨t, max', le'⟩ :=
      bounded.messages e (enabled e he).1 ((enabled e he).2 ▸ allowed.1) v listed
    rw [address, max] at max'
    obtain rfl : u.standing = t := Option.some.inj max'
    have same : v.standing = u.standing := le_antisymm le' le
    obtain ⟨s, after, grown⟩ := takes v hv (address ▸ own) fun unknown tombstone => by
      have status : u.standing.status = .tombstone := same ▸ tombstone
      exact bounded.known u.address u.standing max status b' allowed.1 (address ▸ unknown)
    rw [address] at after
    obtain ⟨t', max', le'⟩ := within.believes _ s after
    obtain rfl : u.standing = t' := Option.some.inj (max.symm.trans max')
    rw [Cluster.view, here, after, le_antisymm le' (same ▸ grown)]

theorem Bounded.after {top : Address → Option Standing}
    (bounded : Bounded setup participants top c) {events : List (Address × PeerEvent)}
    (passing : ∀ event ∈ events, event.1 ∈ participants ∧ event.2.passesOn = true) :
    Bounded setup participants top (c.after setup events) :=
  holds_foldl _ (fun _ _ allowed held => held.step allowed) passing bounded

/-- Participants that have heard of all others believe the newest of what these did. -/
theorem Settled.agree (settled : Settled participants c) (honest : Honest setup c)
    {more : List (Address × PeerEvent)}
    (passing : ∀ event ∈ more, event.1 ∈ participants ∧ event.2.passesOn = true)
    (spread : ∀ x ∈ participants, ∀ b ∈ participants,
      Reaches (step setup) (Hands setup) c more x b) {b : Address} (hb : b ∈ participants)
    (a : Address) : (c.after setup more).view b a = newest participants c a := by
  have bounded := settled.bounded honest
  cases max : newest participants c a with
  | none =>
    cases known : (c.after setup more).view b a with
    | none => rfl
    | some s =>
      obtain ⟨t, max', -⟩ := ((bounded.after passing).within b hb).believes a s known
      cases max.symm.trans max'
  | some t =>
    obtain ⟨⟨x, hx, holds⟩, -⟩ := newest_eq_some.mp max
    refine ((spread x hx b hb).holds (Bounded setup participants (newest participants c))
      (fun c b => b ∈ participants ∧ c.view b a = some t) ?_ ?_ ?_ bounded passing ⟨hx, holds⟩).2
    · exact fun c event allowed held => held.step allowed
    · exact fun c event b allowed held has => ⟨has.1, held.stays allowed max has.1 has.2⟩
    · intro sent now event x b allowed before held hands has
      exact ⟨hands.1 ▸ allowed.1, held.passes allowed hands max
        (before.honest.sound x).current.inv.wellFormed.toIndexed has.2⟩

/-- While nothing new is said of anybody, and what is under way is no news to all, beliefs
only move up, and no further than to the newest at the start. When what each has believed has
come to all, whole or in whole lists of others, and however often and late, all believe that,
and have the same checksum. -/
theorem run_converges (setup : Setup) (events more : List (Address × PeerEvent))
    {participants : List Address} (settled : Settled participants (run setup events))
    (passing : ∀ event ∈ more, event.1 ∈ participants ∧ event.2.passesOn = true) :
    let c := run setup events
    let c' := c.after setup more
    (∀ b ∈ participants, ∀ a, ∀ s ∈ c.view b a, ∃ s' ∈ c'.view b a, s ≤ s') ∧
      (∀ b ∈ participants, ∀ a, ∀ s ∈ c'.view b a, ∃ t ∈ newest participants c a, s ≤ t) ∧
      ((∀ x ∈ participants, ∀ b ∈ participants, Reaches (step setup) (Hands setup) c more x b) →
        ∀ b ∈ participants, (∀ a, c'.view b a = newest participants c a) ∧
          ∀ b' ∈ participants,
            (setup.config b).members.hashFunc = (setup.config b').members.hashFunc →
            (c'.peer b).node.membership.checksum = (c'.peer b').node.membership.checksum) := by
  intro c c'
  have honest := honest_run setup events
  have bounded := settled.bounded honest
  have after := bounded.after passing
  refine ⟨fun b _ a s known => bounded.grows passing known,
    fun b hb a s known => (after.within b hb).believes a s known, fun spread b hb => ?_⟩
  have agree {b : Address} (hb : b ∈ participants) := settled.agree honest passing spread hb
  refine ⟨agree hb, fun b' hb' same => ?_⟩
  have checksum {b : Address} (hb : b ∈ participants) :
      (c'.peer b).node.membership.checksum = some ((setup.config b).members.hashFunc
        (c'.peer b).node.membership.generateChecksumString) := by
    obtain ⟨ref, started⟩ := (after.honest.sound b).current.inv.started (after.isReady b hb)
    have summed := summed_run setup (events ++ more) b
    rw [← run_after] at summed
    exact summed fun none => by cases started.symm.trans none
  have strings : (c'.peer b).node.membership.generateChecksumString =
      (c'.peer b').node.membership.generateChecksumString :=
    Membership.generateChecksumString_congr
      (after.honest.sound b).current.inv.wellFormed.toIndexed
      (after.honest.sound b').current.inv.wellFormed.toIndexed fun a s _ => by
        have equal : c'.view b a = c'.view b' a := (agree hb a).trans (agree hb' a).symm
        exact (congrArg (· = some s) equal).to_iff
  rw [checksum hb, checksum hb', strings, same]

end Cluster

namespace Cluster.Pair

/-! Two instances, of which one has joined the other and then pings it. -/

def a : Address := .of "a:2" (by decide)

def b : Address := .of "b:2" (by decide)

def setup : Setup where
  config x := ⟨Env.sample x, ⟨none, none, none⟩, str "app", false, false, [], 5⟩
  logarithm _ := 1
  whoami _ := rfl

def join : Envelope := ⟨b, a, .join ⟨some (str "app"), some (str "b:2"), some 2⟩⟩

def joinAnswer : Envelope :=
  ⟨a, b, .joinAnswer ⟨str "app", a, [⟨a, .alive, 1, none, some a, none⟩], some 9⟩⟩

def joining : List (Address × PeerEvent) :=
  let tick (now : ℤ) : Tick := ⟨now, [], 0⟩
  [(a, .setLocalStatus .alive (tick 1)), (a, .onJoin), (b, .setLocalStatus .alive (tick 2)),
    (b, .sendJoin a), (a, .receive join fun _ => tick 3),
    (b, .joined [joinAnswer] fun _ => tick 4), (b, .onJoin)]

def ping : Envelope :=
  ⟨b, a, .ping ⟨some 19, some [⟨b, .alive, 2, some [], some b, some 2⟩], some b, some (str "app"),
    some 2⟩⟩

def pingAnswer : Envelope := ⟨a, b, .pingAnswer [⟨a, .alive, 1, some [], some a, some 1⟩]⟩

def pinging : List (Address × PeerEvent) :=
  [(b, .sendPing a), (a, .receive ping fun _ => ⟨5, [], 0⟩),
    (b, .receive pingAnswer fun _ => ⟨6, [], 0⟩)]

theorem settled : Settled [a, b] (run setup joining) where
  isReady := by decide
  own := by decide
  evicted x hx y r found gone := by
    have known : ∀ x ∈ [a, b], ∀ y ∈ objectKeys ((run setup joining).peer x).node.changes,
        (run setup joining).view x y ≠ none := by decide
    exact absurd gone (known x hx y (mem_objectKeys.mpr (by rw [Dict.has, found]; rfl)))
  messages e he _ := by
    have old : ∀ e ∈ (run setup joining).messages, ∀ u ∈ e.message.updates,
        ∃ x ∈ [a, b], ∃ t ∈ (run setup joining).view x u.address, u.standing ≤ t := by decide
    exact old e he
  tombstones x hx y s known tombstone := by
    have live : ∀ x ∈ [a, b], ∀ u ∈ ((run setup joining).peer x).membershipAsChanges
        (setup.config x), u.standing.status ≠ .tombstone := by decide
    have w := ((honest_run setup joining).sound x).current.inv.wellFormed.toIndexed
    obtain ⟨u, hu, -, rfl⟩ := w.listed (setup.config x).members known
    exact absurd tombstone (live x hx u hu)

theorem mem_a : a ∈ [a, b] := List.mem_cons_self

theorem mem_b : b ∈ [a, b] := List.mem_cons_of_mem _ List.mem_cons_self

theorem passing : ∀ event ∈ pinging, event.1 ∈ [a, b] ∧ event.2.passesOn = true :=
  List.forall_mem_cons.mpr ⟨⟨mem_b, rfl⟩,
    List.forall_mem_cons.mpr ⟨⟨mem_a, rfl⟩, List.forall_mem_singleton.mpr ⟨mem_b, rfl⟩⟩⟩

theorem spread : ∀ x ∈ [a, b], ∀ y ∈ [a, b],
    Reaches (step setup) (Hands setup) (run setup joining) pinging x y := by
  have toA : Reaches (step setup) (Hands setup) (run setup joining) ([] ++ [(b, .sendPing a)] ++
      (a, .receive ping fun _ => ⟨5, [], 0⟩) :: [(b, .receive pingAnswer fun _ => ⟨6, [], 0⟩)])
      b a := .handed (.here [] b) ⟨rfl, by decide, by decide⟩
  have toB : Reaches (step setup) (Hands setup) (run setup joining)
      ([] ++ [(b, .sendPing a), (a, .receive ping fun _ => ⟨5, [], 0⟩)] ++
        (b, .receive pingAnswer fun _ => ⟨6, [], 0⟩) :: []) a b :=
    .handed (.here [] a) ⟨rfl, by decide, by decide⟩
  refine List.forall_mem_cons.mpr ⟨?_, List.forall_mem_singleton.mpr ?_⟩
  · exact List.forall_mem_cons.mpr ⟨.here _ a, List.forall_mem_singleton.mpr toB⟩
  · exact List.forall_mem_cons.mpr ⟨toA, List.forall_mem_singleton.mpr (.here _ b)⟩

end Cluster.Pair

namespace Cluster

theorem run_converges_ping :
    ∃ c, c = (run Pair.setup Pair.joining).after Pair.setup Pair.pinging ∧
      (∀ x, c.view Pair.a x = c.view Pair.b x) ∧
      (c.peer Pair.a).node.membership.checksum = (c.peer Pair.b).node.membership.checksum := by
  obtain ⟨-, -, converges⟩ := run_converges Pair.setup Pair.joining Pair.pinging Pair.settled
    Pair.passing
  obtain ⟨here, sums⟩ := converges Pair.spread Pair.a Pair.mem_a
  obtain ⟨there, -⟩ := converges Pair.spread Pair.b Pair.mem_b
  exact ⟨_, rfl, fun x => (here x).trans (there x).symm, sums Pair.b Pair.mem_b rfl⟩

end Cluster
end Ringpop.Members
