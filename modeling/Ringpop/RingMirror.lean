import Ringpop.NodeInvariant

/-! The hash ring against the member list. A batch of updates is applied to the list
one by one, but to the ring with all additions before all removals, so a member that
comes back within a batch is lost from the ring. -/
namespace Ringpop.Members
open JsString Dictionary Ringpop.Ring

namespace Node
variable {env : Env} {node : Node}

/-- The servers of the ring are the members that are alive or suspect. -/
def Mirrors (node : Node) : Prop :=
  ∀ s, node.ring.servers.has s = true ↔ ∃ r ∈ node.membership.members,
    (node.membership.heap r).address.name = s ∧
      ((node.membership.heap r).status = .alive ∨ (node.membership.heap r).status = .suspect)

/-- The last of the updates is pingable and an earlier one is not. -/
def returns (updates : List Update) : Bool :=
  (updates.getLast?.any fun u => isStatusPingable u.status) &&
    !updates.all fun u => isStatusPingable u.status

/-- In no batch does another member return. -/
def NoneReturns (env : Env) (node : Node) : NodeEvent → Prop
  | .update changes => node.isReady = true → ∀ change ∈ changes,
      change.1.address ≠ env.whoami → returns (node.taken changes change.1.address) = false
  | _ => True

theorem pingable_iff {s : Standing} :
    isStatusPingable s.status = true ↔ s.status = .alive ∨ s.status = .suspect := by
  cases s.status <;> simp [isStatusPingable]

theorem Inv.pingable_view (inv : Inv env node) (a : Address) :
    pingable (node.view a) = true ↔ ∃ r ∈ node.membership.members,
      (node.membership.heap r).address.name = a.name ∧
        ((node.membership.heap r).status = .alive ∨
          (node.membership.heap r).status = .suspect) := by
  have w := inv.wellFormed
  constructor
  · intro h
    cases found : node.membership.membersByAddress.get a with
    | none =>
      rw [Node.view, Membership.view_eq_none.mpr found] at h
      cases h
    | some r =>
      rw [Node.view, Membership.view_of_get found] at h
      obtain ⟨member, address⟩ := (w.index a r).mp found
      exact ⟨r, member, congrArg Address.name address, pingable_iff.mp h⟩
  · rintro ⟨r, member, name, status⟩
    have found := (w.index a r).mpr ⟨member, Address.name_injective name⟩
    rw [Node.view, Membership.view_of_get found]
    exact pingable_iff.mpr status

/-- The invariant behind `Mirrors`, by addresses. -/
theorem Inv.mirrors_iff (inv : Inv env node) :
    Mirrors node ↔ (∀ a : Address, node.inRing a.name = pingable (node.view a)) ∧
      ∀ s ∈ objectPrototype, node.inRing s = false := by
  constructor
  · intro mirrors
    refine ⟨fun a => ?_, fun s foreign => ?_⟩
    · rw [Bool.eq_iff_iff, inv.pingable_view]
      exact mirrors a.name
    · rw [← Bool.not_eq_true]
      intro h
      obtain ⟨r, -, rfl, -⟩ := (mirrors s).mp h
      exact (node.membership.heap r).address.own foreign
  · rintro ⟨mirrored, foreign⟩ s
    by_cases own : s ∈ objectPrototype
    · constructor
      · intro h
        cases (foreign s own).symm.trans h
      · rintro ⟨r, -, rfl, -⟩
        exact absurd own (node.membership.heap r).address.own
    · have at_address := mirrored ⟨s, own⟩
      rw [← inv.pingable_view ⟨s, own⟩, ← at_address]
      rfl

/-- A batch leaves its mark on the ring unless the member returns within it. -/
theorem enlisted_iff (s : Option Standing) (updates : List Update) :
    enlisted (pingable s) updates = pingable ((updates.getLast?.map Update.standing).or s) ↔
      returns updates = false := by
  cases updates using List.reverseRecOn with
  | nil => simp [returns]
  | append_singleton updates u =>
    have last : pingable (((updates ++ [u]).getLast?.map Update.standing).or s) =
        isStatusPingable u.status := by
      rw [List.getLast?_concat]
      rfl
    rw [last, returns, enlisted, List.getLast?_concat]
    cases status : isStatusPingable u.status <;> simp [status]

theorem Heard.mirrors_iff {node' : Node} {changes : List (Update × Tick)} (inv : Inv env node)
    (heard : Heard env node node' changes) (mirrors : Mirrors node) :
    Mirrors node' ↔ ∀ change ∈ changes, change.1.address ≠ env.whoami →
      returns (node.taken changes change.1.address) = false := by
  obtain ⟨mirrored, foreign⟩ := inv.mirrors_iff.mp mirrors
  have other (a : Address) (ha : a ≠ env.whoami) :
      node'.inRing a.name = pingable (node'.view a) ↔ returns (node.taken changes a) = false := by
    rw [heard.inRing a ha, heard.view a ha, mirrored, enlisted_iff]
  rw [(heard.inv inv).mirrors_iff]
  constructor
  · rintro ⟨mirrored', -⟩ change - ha
    exact (other _ ha).mp (mirrored' _)
  · intro none
    refine ⟨fun a => ?_, fun s hs => (heard.foreign s hs).trans (foreign s hs)⟩
    by_cases self : a = env.whoami
    · rw [self]
      exact heard.inRing_whoami (mirrored _)
    · rw [other a self]
      by_cases absent : ∀ change ∈ changes, change.1.address ≠ a
      · rw [taken_eq_nil absent]
        rfl
      · push Not at absent
        obtain ⟨change, member, rfl⟩ := absent
        exact none change member self

theorem mirrors_update (inv : Inv env node) (mirrors : Mirrors node)
    {changes : List (Update × Tick)} (calm : NoneReturns env node (.update changes)) :
    Mirrors (node.update env changes) := by
  cases ready : node.isReady with
  | true => exact ((inv.heard ready changes).mirrors_iff inv mirrors).mpr (calm ready)
  | false =>
    obtain ⟨stashed, run⟩ := update_joining env ready changes
    rw [run]
    exact mirrors

/-- One change cannot take a member away and bring it back. -/
theorem noneReturns_made (node : Node) (address : Address) (inc : ℤ) (status : Status) (id : Str)
    (tick : Tick) : NoneReturns env node (.update (node.made address inc status id tick)) := by
  intro _ change hc _
  obtain rfl := List.mem_singleton.mp hc
  change returns (node.taken _ address) = false
  rw [taken_made]
  split
  · simp [returns]
  · rfl

theorem mirrors_onJoin (inv : Inv env node) (mirrors : Mirrors node) :
    Mirrors (node.onJoin env) := by
  obtain ⟨mirrored, foreign⟩ := inv.mirrors_iff.mp mirrors
  cases known : node.membership.localMember with
  | none =>
    rw [Node.onJoin, known]
    exact mirrors
  | some ref =>
    cases ready : node.isReady with
    | true =>
      rw [onJoin_ready ready]
      exact mirrors
    | false =>
      obtain ⟨index, joined⟩ := joined_onJoin inv.wellFormed inv.sound ready
        (fun a ha => (inv.joining ready a ha).1) known
      refine (joined.inv inv ready known).mirrors_iff.mpr ⟨fun a => ?_, fun s hs => ?_⟩
      · rw [joined.inRing, joined.view, mirrored]
        cases found : index a with
        | none => simp
        | some u =>
          have unknown := (inv.joining ready a (joined.remote a u found).2).1
          by_cases tombstone : u.status = .tombstone
          · simp [Option.filter, tombstone, unknown, pingable, isStatusPingable]
          · simp [Option.filter, tombstone, unknown, pingable, Update.standing]
      · exact (joined.foreign s hs).trans (foreign s hs)

theorem mirrors_setLocalStatus (inv : Inv env node) (mirrors : Mirrors node) (status : Status)
    (tick : Tick) : Mirrors (node.setLocalStatus env status tick) := by
  obtain ⟨mirrored, foreign⟩ := inv.mirrors_iff.mp mirrors
  have spoke := inv.spoke status tick
  refine (spoke.inv inv).mirrors_iff.mpr ⟨fun a => ?_, fun s hs => ?_⟩
  · rw [spoke.inRing, spoke.view, mirrored]
    split <;> rfl
  · exact (spoke.foreign s hs).trans (foreign s hs)

/-- A member is only evicted when it is off the ring. -/
theorem mirrors_evict (inv : Inv env node) (mirrors : Mirrors node) (ready : node.isReady = true)
    {a : Address} (other : a ≠ env.whoami) {callback : Option Transition}
    (alarm : node.alarm a = some (.tombstone, callback)) :
    Mirrors (node.emit env (node.membership.evict env a)) := by
  obtain ⟨mirrored, foreign⟩ := inv.mirrors_iff.mp mirrors
  obtain ⟨ref, known⟩ := inv.started ready
  have gone (state : Status) (callback : Option Transition)
      (h : node.alarm a = some (state, callback)) : state = .tombstone := by
    obtain ⟨rfl, -⟩ := Prod.mk.inj (Option.some.inj (h.symm.trans alarm))
    rfl
  have inv' := inv.evict ready other gone
  obtain ⟨m, w, -, view, run⟩ := evicted inv.wellFormed known other
  rw [run] at inv' ⊢
  refine inv'.mirrors_iff.mpr ⟨fun b => ?_, foreign⟩
  change node.inRing b.name = pingable (m.view b)
  rw [mirrored, view]
  split
  case isTrue same =>
    subst same
    rcases inv.tracks b _ _ alarm with ⟨unknown, -⟩ | ⟨s, known, status⟩
    · rw [unknown]
    · rw [known]
      simp [pingable, status, isStatusPingable]
  case isFalse => rfl

theorem mirrors_fire (inv : Inv env node) (mirrors : Mirrors node) (timer : ℕ) (id : Str)
    (tick : Tick) : Mirrors (node.fire env timer id tick) := by
  cases live : node.stateTransitions.queue.callback timer with
  | none =>
    rw [Node.fire, live]
    exact mirrors
  | some timeout =>
    obtain ⟨remote, ready⟩ := inv.live live
    have left := inv.expire live
    have alarm := (inv.sound.alarm_expire live timeout.transition.address).2
    rw [if_pos rfl] at alarm
    rw [fire_of_live live]
    generalize timeout.transition = transition at *
    cases transition with
    | suspectToFaulty address inc =>
      rw [transit, makeFaulty_eq]
      exact mirrors_update left mirrors (noneReturns_made _ _ _ _ _ _)
    | faultyToTombstone address inc =>
      rw [transit, makeTombstone_eq]
      exact mirrors_update left mirrors (noneReturns_made _ _ _ _ _ _)
    | tombstoneToEvict address => exact mirrors_evict left mirrors ready remote alarm

theorem mirrors_apply (inv : Inv env node) (mirrors : Mirrors node) {event : NodeEvent}
    (calm : NoneReturns env node event) : Mirrors (node.apply env event) := by
  cases event with
  | setLocalStatus status tick => exact mirrors_setLocalStatus inv mirrors status tick
  | update changes => exact mirrors_update inv mirrors calm
  | makeSuspect address inc id tick =>
    rw [Node.apply, makeSuspect_eq]
    exact mirrors_update inv mirrors (noneReturns_made _ _ _ _ _ _)
  | makeFaulty address inc id tick =>
    rw [Node.apply, makeFaulty_eq]
    exact mirrors_update inv mirrors (noneReturns_made _ _ _ _ _ _)
  | makeTombstone address inc id tick =>
    rw [Node.apply, makeTombstone_eq]
    exact mirrors_update inv mirrors (noneReturns_made _ _ _ _ _ _)
  | onJoin => exact mirrors_onJoin inv mirrors
  | fire timer id tick => exact mirrors_fire inv mirrors timer id tick
  | handleJoin tick =>
    rw [Node.apply, Node.handleJoin]
    split
    · exact mirrors
    · split
      · exact mirrors_setLocalStatus inv mirrors .alive tick
      · exact mirrors

theorem mirrors_new (env : Env) (periods : Periods) : Mirrors (new env periods) := by
  intro s
  simp [new, HashRing.new, Membership.new]

/-- Batches in which no member returns keep the ring in step with the list. -/
theorem run_mirrors (env : Env) (periods : Periods) {events : List NodeEvent}
    (calm : Throughout env (NoneReturns env) (new env periods) events) {reached : List NodeEvent}
    (h : reached <+: events) : Mirrors (run env periods reached) :=
  (calm.of_prefix h).run_induction (mirrors_new env periods) fun _ _ inv mirrors none =>
    mirrors_apply inv mirrors none

theorem run_mirrors_faulty :
    let env := Env.sample (.of "a:1" (by decide))
    let b := Address.of "b:1" (by decide)
    let tick : Tick := ⟨7, [], 0⟩
    let faulty : Update × Tick := (⟨b, .faulty, 3, none, none, none⟩, tick)
    let suspect : Update × Tick := (⟨b, .suspect, 3, none, none, none⟩, tick)
    Mirrors (run env ⟨none, none, none⟩
      [.setLocalStatus .alive tick, .onJoin, .update [suspect, faulty], .fire 0 [] tick]) := by
  intro env b tick faulty suspect
  have calm : Throughout env (NoneReturns env) (new env ⟨none, none, none⟩)
      [.setLocalStatus .alive tick, .onJoin, .update [suspect, faulty], .fire 0 [] tick] :=
    ⟨trivial, trivial, fun _ => by decide, trivial, trivial⟩
  exact run_mirrors env ⟨none, none, none⟩ calm (List.prefix_refl _)

/-- A batch that first calls a server faulty and then alive leaves it off the ring. -/
theorem run_not_mirrors :
    let env := Env.sample (.of "a:1" (by decide))
    let b := Address.of "b:1" (by decide)
    let tick : Tick := ⟨7, [], 0⟩
    let faulty : Update × Tick := (⟨b, .faulty, 1, none, none, none⟩, tick)
    let alive : Update × Tick := (⟨b, .alive, 2, none, none, none⟩, tick)
    ¬ Mirrors (run env ⟨none, none, none⟩
      [.setLocalStatus .alive tick, .onJoin, .update [faulty, alive]]) := by
  intro env b tick faulty alive mirrors
  have member := (mirrors b.name).mpr (by decide)
  revert member
  decide

end Node
end Ringpop.Members
