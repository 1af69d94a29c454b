import Ringpop.NodeReports
import Ringpop.MembershipIndex

/-! Where the knowledge of a node comes from. If what reaches a node and what it announces
of itself are vouched for, then so is all that it keeps: the objects of its list, the stash,
the changes to disseminate and the timers. -/
namespace Ringpop.Members
open JsString Dictionary

/-- `P` vouches for what the timers make of an accusation. -/
structure Escalates (P : Address → Standing → Prop) : Prop where
  faulty : ∀ a inc, P a ⟨inc, .suspect⟩ → P a ⟨inc, .faulty⟩
  tombstone : ∀ a inc, P a ⟨inc, .faulty⟩ → P a ⟨inc, .tombstone⟩

variable {P : Address → Standing → Prop}

def Update.Vouched (P : Address → Standing → Prop) (u : Update) : Prop := P u.address u.standing

def Transition.Vouched (P : Address → Standing → Prop) : Transition → Prop
  | suspectToFaulty address incarnationNumber => P address ⟨incarnationNumber, .suspect⟩
  | faultyToTombstone address incarnationNumber => P address ⟨incarnationNumber, .faulty⟩
  | tombstoneToEvict _ => True

/-- The updates that come with an event. -/
def MembershipEvent.updates : MembershipEvent → List Update
  | set updates => updates
  | updated updates => updates
  | _ => []

namespace StateTransitions
variable {st : StateTransitions}

def Sourced (P : Address → Standing → Prop) (st : StateTransitions) : Prop :=
  ∀ timer timeout, st.queue.callback timer = some timeout → timeout.transition.Vouched P

theorem Sourced.cancel (h : Sourced P st) (a : Address) : Sourced P (st.cancel a) := by
  unfold StateTransitions.cancel
  split
  · exact h
  · exact fun timer timeout live => h timer timeout (TimerQueue.callback_of_clearTimeout live).2

theorem Sourced.start (h : Sourced P st) (a : Address) (state : Status) (timeout : ℕ)
    {transition : Transition} (new : transition.Vouched P) :
    Sourced P (st.start a state timeout transition) := by
  intro timer found live
  rcases TimerQueue.callback_of_setTimeout live with ⟨-, rfl⟩ | before
  · exact new
  · exact h timer found before

theorem Sourced.schedule (h : Sourced P st) (whoami a : Address) (state : Status) (timeout : ℕ)
    {transition : Transition} (new : transition.Vouched P) :
    Sourced P (st.schedule whoami a state timeout transition) := by
  unfold StateTransitions.schedule
  split
  · exact h
  · split
    · exact h
    · split
      · split
        · exact h
        · exact (h.cancel a).start a state timeout new
      · exact h.start a state timeout new

theorem Sourced.handleUpdate (h : Sourced P st) (whoami : Address) {update : Update}
    (new : update.Vouched P) : Sourced P (st.handleUpdate whoami update) := by
  obtain ⟨address, status, incarnationNumber, id, source, sourceIncarnationNumber⟩ := update
  cases status with
  | alive | leave => exact h.cancel address
  | suspect | faulty => exact h.schedule whoami address _ _ new
  | tombstone => exact h.schedule whoami address _ _ trivial

theorem Sourced.disable (h : Sourced P st) : Sourced P st.disable :=
  List.foldlRecOn _ _ (show Sourced P { st with enabled := false } from h)
    fun _ held a _ => held.cancel a

theorem Sourced.enable (h : Sourced P st) : Sourced P st.enable := by
  unfold StateTransitions.enable
  split <;> exact h

theorem Sourced.expire (h : Sourced P st) (timer : ℕ) : Sourced P (st.expire timer) :=
  fun other timeout live => h other timeout (TimerQueue.callback_of_clearTimeout live).2

end StateTransitions

namespace Membership
variable {env : Env} {m : Membership}

/-- Every object that has been made, on the list or not, and every stashed change. -/
structure Sourced (P : Address → Standing → Prop) (m : Membership) : Prop where
  heap : ∀ ref < m.next, P (m.heap ref).address (m.heap ref).standing
  stashed : ∀ stash, m.stashedUpdates = some stash → ∀ u ∈ stash.flatten, u.Vouched P

/-- An operation of the list that leaves it and its events vouched for. -/
structure Kept (P : Address → Standing → Prop) (result : Membership × List MembershipEvent) :
    Prop where
  sourced : result.1.Sourced P
  told : ∀ e ∈ result.2, ∀ u ∈ e.updates, u.Vouched P

theorem sourced_new (env : Env) : (new env).Sourced P where
  heap ref made := absurd made (Nat.not_lt_zero ref)
  stashed stash h u hu := by
    obtain rfl : [] = stash := Option.some.inj h
    cases hu

theorem kept_idle (h : m.Sourced P) : Kept P (m, []) := ⟨h, List.forall_mem_nil _⟩

theorem Sourced.view (h : m.Sourced P) (w : m.Indexed) {a : Address} {s : Standing}
    (known : m.view a = some s) : P a s := by
  cases found : m.membersByAddress.get a with
  | none => cases known.symm.trans (view_eq_none.mpr found)
  | some ref =>
    obtain ⟨listed, address⟩ := (w.index a ref).mp found
    have here := h.heap ref (w.fresh ref listed)
    rwa [address, Option.some.inj ((view_of_get found).symm.trans known)] at here

theorem Sourced.write (h : m.Sourced P) {ref : ℕ} {member : Member}
    (new : P member.address member.standing) : (m.write ref member).Sourced P where
  heap other made := by
    by_cases same : other = ref
    · simpa [Membership.write, same] using new
    · simpa [Membership.write, same] using h.heap other made
  stashed := h.stashed

theorem Sourced.insertMember (h : m.Sourced P) (position : ℕ) {member : Member}
    (new : P member.address member.standing) : (m.insertMember position member).Sourced P where
  heap ref made := by
    by_cases same : ref = m.next
    · simpa [Membership.insertMember, same] using new
    · have before := h.heap ref (lt_of_le_of_ne (Nat.le_of_lt_succ made) same)
      simpa [Membership.insertMember, same] using before
  stashed := h.stashed

theorem Sourced.computeChecksum (h : m.Sourced P) : (computeChecksum env m).1.Sourced P :=
  ⟨h.heap, h.stashed⟩

theorem Sourced.reincarnate (h : m.Sourced P) (tick : Tick) (ref : ℕ)
    (new : (reincarnate tick m ref).2.Vouched P) : (reincarnate tick m ref).1.Sourced P := by
  refine h.write ?_
  simpa [Membership.reincarnate, Update.Vouched, Update.new, Membership.write, Update.standing,
    Member.standing] using new

theorem Sourced.processChange (h : m.Sourced P) (w : WellFormed env m) {ref : ℕ}
    (known : m.localMember = some ref) {change : Update} {tick : Tick}
    (told : ∀ u ∈ (processChange env m change tick).2.1, u.Vouched P) :
    (processChange env m change tick).1.Sourced P := by
  cases takes : m.takes change with
  | false => rwa [processChange_skip takes]
  | true =>
    by_cases self : change.address = env.whoami
    · rw [w.processChange_local known tick takes self] at told ⊢
      exact h.reincarnate tick ref (told _ rfl)
    · have other : Membership.processChange env m change tick =
          processChange.applyOther env m change tick := by
        rw [Membership.processChange, shouldProcessGossip_takes, takes, if_pos rfl, known]
        exact if_neg fun same => self (same.trans (w.local_address known))
      rw [other] at told ⊢
      unfold processChange.applyOther at told ⊢
      cases found : m.membersByAddress.get change.address with
      | none =>
        rw [found] at told
        exact h.insertMember _ (told change rfl)
      | some r =>
        rw [found] at told
        refine h.write ?_
        rw [Member.address_applyUpdate, Member.standing_applyUpdate, w.address found]
        exact told change rfl

theorem Sourced.processChanges (h : m.Sourced P) (w : WellFormed env m) {ref : ℕ}
    (known : m.localMember = some ref) {changes : List (Update × Tick)}
    (told : ∀ u ∈ (processChanges env m changes).2.1, u.Vouched P) :
    (processChanges env m changes).1.Sourced P := by
  induction changes generalizing m with
  | nil => exact h
  | cons change rest ih =>
    obtain ⟨change, tick⟩ := change
    rw [Membership.processChanges] at told ⊢
    have one := (processChanges_applied w known [(change, tick)]).1
    simp only [Membership.processChanges] at one
    refine ih (h.processChange w known fun u hu => told u ?_) one.wellFormed one.localMember
      fun u hu => told u ?_
    · exact List.mem_append_left _ (Option.mem_toList.mpr hu)
    · exact List.mem_append_right _ hu

/-- An update that is reported about another member has come in. -/
theorem Applied.reported {ref : ℕ} {changes : List (Update × Tick)} {m' : Membership}
    {updates : List Update} (applied : Applied env m ref changes m' updates) {u : Update}
    (hu : u ∈ updates) (remote : u.address ≠ env.whoami) : u ∈ changes.map Prod.fst := by
  have listed : u ∈ updates.filter fun v => v.address = u.address := by simp [hu]
  rw [applied.taken _ remote] at listed
  exact (List.mem_filter.mp ((GreatestWins.accepted_sublist _ _).mem listed)).1

theorem Sourced.update (h : m.Sourced P) (w : WellFormed env m) {isReady : Bool}
    (started : isReady = true → ∃ ref, m.localMember = some ref) {changes : List (Update × Tick)}
    (brought : ∀ change ∈ changes, change.1.Vouched P)
    (own : ∀ u ∈ reported (Membership.update env isReady m changes).2.2,
      u.address = env.whoami → u.Vouched P) :
    Kept P ((Membership.update env isReady m changes).1,
      (Membership.update env isReady m changes).2.2) := by
  have heard : ∀ u ∈ changes.map Prod.fst, u.Vouched P := List.forall_mem_map.mpr brought
  cases isReady with
  | false =>
    have silent : (Membership.update env false m changes).2.2 = [] := by cases changes <;> rfl
    rw [update_stash, silent]
    refine kept_idle ⟨h.heap, fun stash later u hu => ?_⟩
    obtain ⟨before, was, rfl⟩ := Option.map_eq_some_iff.mp later
    rw [List.flatten_append, List.mem_append] at hu
    rcases hu with old | new
    · exact h.stashed before was u old
    · split at new
      · cases new
      · exact heard u (by simpa using new)
  | true =>
    obtain ⟨ref, known⟩ := started rfl
    obtain ⟨applied, damping, checksum, old, quiet, events⟩ := w.update known changes
    rw [events, reported_append, reported_damping quiet, reported_announce] at own
    have told : ∀ u ∈ (Membership.update env true m changes).2.1, u.Vouched P := by
      intro u hu
      by_cases self : u.address = env.whoami
      · exact own u hu self
      · exact heard u (applied.reported hu self)
    refine ⟨?_, fun e he => ?_⟩
    · by_cases none : changes = []
      · rwa [none]
      · rw [update_ready env m none] at told ⊢
        simp only at told ⊢
        split at told <;> split
        all_goals first | contradiction | skip
        · exact h.processChanges w known told
        · exact (h.processChanges w known told).computeChecksum
    · simp only [events, List.mem_append] at he
      rcases he with damped | announced
      · have damps := quiet e damped
        cases e <;> first | exact List.forall_mem_nil _ | cases damps
      · unfold announce at announced
        split at announced
        · cases announced
        · rcases List.mem_cons.mp announced with rfl | last
          · exact List.forall_mem_nil _
          · rw [List.mem_singleton.mp last]
            exact told

theorem Sourced.setLocalStatus (h : m.Sourced P) (w : WellFormed env m) (tick : Tick)
    (status : Status) (own : P env.whoami ⟨tick.now, status⟩) :
    Kept P (Membership.setLocalStatus env tick m status) := by
  obtain ⟨-, -, -, u, checksum, old, address, standing, events⟩ := w.setLocalStatus tick status
  refine ⟨?_, fun e he => ?_⟩
  · unfold Membership.setLocalStatus
    split
    case h_1 ref known =>
      have final : ((m.write ref { m.heap ref with status := status }).write ref
          { m.heap ref with status := status, incarnationNumber := tick.now }).Sourced P := by
        rw [Membership.write, Membership.write, Function.update_idem]
        refine h.write ?_
        rw [w.local_address known]
        exact own
      simp only [Membership.reincarnate, postLocalUpdate, Membership.write, Function.update_self]
        at final ⊢
      exact final.computeChecksum
    case h_2 =>
      let member := Member.ofUpdate env ⟨env.whoami, status, tick.now, some tick.uuid, none, none⟩
      have made : (m.insertMember m.members.length member).Sourced P := h.insertMember _ own
      have known : Sourced P
          { m.insertMember m.members.length member with localMember := some m.next } :=
        ⟨made.heap, made.stashed⟩
      have reborn : Sourced P (Membership.write
          { m.insertMember m.members.length member with localMember := some m.next } m.next
          { member with incarnationNumber := tick.now }) := known.write own
      simp only [Membership.reincarnate, postLocalUpdate, Membership.insertMember,
        Function.update_self] at reborn ⊢
      exact reborn.computeChecksum
  · rw [events, List.mem_append] at he
    rcases he with left | announced
    · unfold leaving at left
      split at left
      · split at left
        · rw [List.mem_singleton.mp left]
          exact List.forall_mem_nil _
        · cases left
      · cases left
    · rcases List.mem_cons.mp announced with rfl | last
      · exact List.forall_mem_nil _
      · rw [List.mem_singleton.mp last]
        refine List.forall_mem_singleton.mpr ?_
        rwa [Update.Vouched, address, standing]

theorem Sourced.createMembers (h : m.Sourced P) {updates : List Update}
    (new : ∀ u ∈ updates, u.Vouched P) : (updates.foldl (createMember env) m).Sourced P := by
  refine List.foldlRecOn updates _ h fun m held u hu => ?_
  unfold createMember
  split
  · exact held
  · exact held.insertMember _ (new u hu)

theorem Sourced.set (h : m.Sourced P) (isReady : Bool) :
    Kept P (Membership.set env isReady m) := by
  unfold Membership.set
  split
  · exact kept_idle h
  · split
    · exact kept_idle h
    · exact kept_idle h
    case h_3 stashed _ stash =>
      have merged : ∀ u ∈ mergeMembershipChangesets env.whoami stashed, u.Vouched P := by
        intro u hu
        refine h.stashed stashed stash u ?_
        have found := mem_mergeMembershipChangesets.mp hu
        by_cases remote : u.address = env.whoami
        · exact absurd remote (merge_address _ found).2
        · exact (List.mem_filter.mp ((newest_iff_merged remote _ u).mpr found).mem).1
      have made : (List.foldl (createMember env) m _).Sourced P := h.createMembers merged
      refine ⟨Sourced.computeChecksum ⟨made.heap, fun _ gone => by cases gone⟩, fun e he => ?_⟩
      rcases List.mem_append.mp he with computed | last
      · rw [List.mem_singleton.mp computed]
        exact List.forall_mem_nil _
      · rw [List.mem_singleton.mp last]
        exact merged

theorem Sourced.evict (h : m.Sourced P) (a : Address) : Kept P (Membership.evict env m a) := by
  unfold Membership.evict Membership.removeMember
  split
  · exact kept_idle h
  · split
    · exact kept_idle h
    · refine ⟨Sourced.computeChecksum ⟨h.heap, h.stashed⟩, fun e he => ?_⟩
      rw [List.mem_singleton.mp he]
      exact List.forall_mem_nil _

theorem Sourced.shuffle (h : m.Sourced P) (order : List ℕ) : (m.shuffle order).Sourced P := by
  unfold Membership.shuffle
  split
  · exact ⟨h.heap, h.stashed⟩
  · exact h

end Membership

/-- The standings that an event brings in from outside. -/
def NodeEvent.brings : NodeEvent → List (Address × Standing)
  | update changes => changes.map fun change => (change.1.address, change.1.standing)
  | makeSuspect address incarnationNumber _ _ => [(address, ⟨incarnationNumber, .suspect⟩)]
  | makeFaulty address incarnationNumber _ _ => [(address, ⟨incarnationNumber, .faulty⟩)]
  | makeTombstone address incarnationNumber _ _ => [(address, ⟨incarnationNumber, .tombstone⟩)]
  | _ => []

namespace Node
variable {env : Env} {node : Node}

/-- What a node says of itself in an event. -/
def announces (env : Env) (node : Node) (event : NodeEvent) : List Standing :=
  (reportedAbout env.whoami (node.performs env event).2).map Update.standing

structure Sourced (P : Address → Standing → Prop) (node : Node) : Prop where
  membership : node.membership.Sourced P
  recorded : ∀ a r, node.changes.get a = some r → r.change.Vouched P
  timers : node.stateTransitions.Sourced P

theorem sourced_new (env : Env) (periods : Periods) : (new env periods).Sourced P where
  membership := Membership.sourced_new env
  recorded _ _ h := by cases h
  timers _ _ live := by cases live

theorem Sourced.handle (h : node.Sourced P) {e : MembershipEvent}
    (told : ∀ u ∈ e.updates, u.Vouched P) : (node.handle env e).Sourced P := by
  have kept := handle_keeps env node e
  have timers (updates : List Update) (new : ∀ u ∈ updates, u.Vouched P) :
      (updates.foldl (StateTransitions.handleUpdate env.whoami) node.stateTransitions).Sourced P :=
    List.foldlRecOn updates _ h.timers fun _ held u hu => held.handleUpdate _ (new u hu)
  refine ⟨kept.membership ▸ h.membership, fun a r found => ?_, ?_⟩
  · rw [kept.changes, get_recorded] at found
    cases last : ((reported [e]).filter fun u => u.address = a).getLast? with
    | none =>
      rw [last] at found
      exact h.recorded a r found
    | some u =>
      obtain rfl : (⟨u, 0⟩ : RecordedChange) = r := by simpa [last] using found
      have here := (List.mem_filter.mp (List.mem_of_getLast? last)).1
      cases e with
      | updated updates =>
        simp only [reported, List.flatMap_singleton] at here
        exact told u here
      | _ => cases here
  · cases e with
    | updated updates =>
      rw [(told_updated env node updates).stateTransitions]
      exact timers updates told
    | set updates =>
      rw [Node.handle, onMembershipSet, foldl_handleUpdate_eq,
        (addRemoveServers_keeps env _ _ _).2.2]
      exact timers updates told
    | localMemberLeave => exact h.timers.disable
    | checksumComputed | memberReusable | memberSuppressLimitExceeded => exact h.timers

theorem Sourced.emit (h : node.Sourced P) {result : Membership × List MembershipEvent}
    (kept : Membership.Kept P result) : (node.emit env result).Sourced P :=
  List.foldlRecOn result.2 _ (show Sourced P { node with membership := result.1 } from
    { h with membership := kept.sourced }) fun _ held e he => held.handle (kept.told e he)

/-- Every operation that an event performs on the list. -/
theorem Sourced.performs (h : node.Sourced P) (inv : Inv env node) (escalates : Escalates P)
    {event : NodeEvent} (brought : ∀ x ∈ event.brings, P x.1 x.2)
    (own : ∀ s ∈ node.announces env event, P env.whoami s) :
    Membership.Kept P (node.performs env event) := by
  have own' : ∀ u ∈ reported (node.performs env event).2, u.address = env.whoami →
      u.Vouched P := by
    intro u hu self
    rw [Update.Vouched, self]
    exact own _ (List.mem_map_of_mem (List.mem_filter.mpr ⟨hu, by simpa using self⟩))
  have updates (changes : List (Update × Tick)) (performed : node.performs env event =
      performs.updates env node changes) (new : ∀ change ∈ changes, change.1.Vouched P) :
      Membership.Kept P (node.performs env event) := by
    rw [performed] at own' ⊢
    exact h.membership.update inv.wellFormed inv.started new own'
  have made (a : Address) (inc : ℤ) (status : Status) (id : Str) (tick : Tick)
      (performed : node.performs env event =
        performs.updates env node (node.made a inc status id tick)) (new : P a ⟨inc, status⟩) :
      Membership.Kept P (node.performs env event) :=
    updates _ performed (List.forall_mem_singleton.mpr new)
  have spoke (status : Status) (tick : Tick) (performed : node.performs env event =
      node.membership.setLocalStatus env tick status) :
      Membership.Kept P (node.performs env event) := by
    obtain ⟨-, -, -, u, checksum, old, address, standing, events⟩ :=
      inv.wellFormed.setLocalStatus tick status
    rw [performed] at own' ⊢
    have here := own' u (by rw [events, reported_append]; simp [reported]) address
    rw [Update.Vouched, address, standing] at here
    exact h.membership.setLocalStatus inv.wellFormed tick status here
  cases event with
  | setLocalStatus status tick => exact spoke status tick rfl
  | update changes => exact updates changes rfl fun change hc => brought _ (List.mem_map_of_mem hc)
  | makeSuspect a inc id tick =>
    exact made a inc .suspect id tick rfl <|
      brought (a, ⟨inc, .suspect⟩) (List.mem_singleton.mpr rfl)
  | makeFaulty a inc id tick =>
    exact made a inc .faulty id tick rfl <|
      brought (a, ⟨inc, .faulty⟩) (List.mem_singleton.mpr rfl)
  | makeTombstone a inc id tick =>
    exact made a inc .tombstone id tick rfl <|
      brought (a, ⟨inc, .tombstone⟩) (List.mem_singleton.mpr rfl)
  | onJoin =>
    rw [Node.performs]
    cases node.membership.localMember with
    | none => exact Membership.kept_idle h.membership
    | some ref => exact h.membership.set _
  | fire timer id tick =>
    cases live : node.stateTransitions.queue.callback timer with
    | none =>
      rw [Node.performs, live]
      exact Membership.kept_idle h.membership
    | some timeout =>
      have vouched := h.timers timer timeout live
      cases transition : timeout.transition with
      | suspectToFaulty a inc =>
        rw [transition] at vouched
        exact made a inc .faulty id tick (by simp [Node.performs, live, transition])
          (escalates.faulty a _ vouched)
      | faultyToTombstone a inc =>
        rw [transition] at vouched
        exact made a inc .tombstone id tick (by simp [Node.performs, live, transition])
          (escalates.tombstone a _ vouched)
      | tombstoneToEvict a =>
        simp only [Node.performs, live, transition]
        exact h.membership.evict a
  | handleJoin tick =>
    cases known : node.membership.localMember with
    | none =>
      rw [Node.performs, known]
      exact Membership.kept_idle h.membership
    | some ref =>
      by_cases left : (node.membership.heap ref).status = .leave
      · exact spoke .alive tick (by simp [Node.performs, known, left, Membership.makeLocalAlive])
      · simp only [Node.performs, known, if_neg left]
        exact Membership.kept_idle h.membership

/-- No event makes a node keep anything that nobody vouches for. -/
theorem Sourced.apply (h : node.Sourced P) (inv : Inv env node) (escalates : Escalates P)
    {event : NodeEvent} (brought : ∀ x ∈ event.brings, P x.1 x.2)
    (own : ∀ s ∈ node.announces env event, P env.whoami s) : (node.apply env event).Sourced P := by
  have kept := h.performs inv escalates brought own
  have after : (node.emit env _).Sourced P := h.emit kept
  cases event with
  | setLocalStatus | update | makeSuspect | makeFaulty | makeTombstone => exact after
  | onJoin =>
    rw [Node.apply, Node.onJoin]
    rw [Node.performs] at after
    cases known : node.membership.localMember with
    | none => exact h
    | some ref =>
      rw [known] at after
      exact ⟨after.membership, after.recorded, after.timers⟩
  | fire timer id tick =>
    rw [Node.apply]
    cases live : node.stateTransitions.queue.callback timer with
    | none => rwa [Node.fire, live]
    | some timeout =>
      have left : Sourced P { node with stateTransitions := node.stateTransitions.expire timer } :=
        ⟨h.membership, h.recorded, h.timers.expire timer⟩
      rw [fire_of_live live]
      simp only [Node.performs, live] at kept
      cases transition : timeout.transition <;> rw [transition] at kept <;> exact left.emit kept
  | handleJoin tick =>
    rw [Node.apply, Node.handleJoin]
    rw [Node.performs] at after
    cases known : node.membership.localMember with
    | none => exact h
    | some ref =>
      rw [known] at after
      simp only at after ⊢
      split
      case isTrue left =>
        rw [if_pos left] at after
        exact ⟨after.membership, after.recorded, after.timers.enable⟩
      case isFalse => exact h

end Node
end Ringpop.Members
