import Ringpop.NodeReports
import Ringpop.Runs

/-! `lib/gossip/dissemination.js`: the changes that a node piggybacks on its pings and on
its answers. What it hands out about a member is what it believes of it. -/
namespace Ringpop.Members
open JsString Dictionary GreatestWins

namespace RecordedChange

/-- One pass of the loop of `_issueAs`, over what is recorded and what is handed out. -/
def issueChange (maxPiggybackCount : ℕ) (filterChange : Update → Bool)
    (issued : Dict Address RecordedChange × List Update) (address : Address) :
    Dict Address RecordedChange × List Update :=
  match issued.1.get address with
  | none => issued
  | some change =>
    if filterChange change.change then issued
    else if change.piggybackCount ≥ maxPiggybackCount then (issued.1.delete address, issued.2)
    else (issued.1, issued.2 ++ [change.change])

def issueAs (maxPiggybackCount : ℕ) (filterChange : Update → Bool)
    (changes : Dict Address RecordedChange) : Dict Address RecordedChange × List Update :=
  (objectKeys changes).foldl (issueChange maxPiggybackCount filterChange) (changes, [])

/-- One pass of the loops that raise the counters; only the identifiers are compared, and
two missing ones are equal. -/
def bump (changes : Dict Address RecordedChange) (issuedChange : Update) :
    Dict Address RecordedChange :=
  match changes.get issuedChange.address with
  | none => changes
  | some localChange =>
    if localChange.change.id = issuedChange.id then
      changes.set issuedChange.address
        { localChange with piggybackCount := localChange.piggybackCount + 1 }
    else changes

/-- The empty string, a missing number and `0` count as false. -/
def filterChange (senderAddr : Address) (senderIncarnationNumber : Option ℤ) (change : Update) :
    Bool :=
  decide (senderAddr.name ≠ [] ∧ senderIncarnationNumber.getD 0 ≠ 0 ∧
    change.sourceIncarnationNumber.getD 0 ≠ 0 ∧ change.source = some senderAddr ∧
    senderIncarnationNumber = change.sourceIncarnationNumber)

variable {maxPiggybackCount : ℕ} {filterChange : Update → Bool}

/-- The changes that stay recorded. -/
def kept (maxPiggybackCount : ℕ) (filterChange : Update → Bool) (r : RecordedChange) : Bool :=
  filterChange r.change || decide (r.piggybackCount < maxPiggybackCount)

theorem issueChange_get (issued : Dict Address RecordedChange × List Update)
    (address a : Address) :
    (issueChange maxPiggybackCount filterChange issued address).1.get a =
      if a = address then (issued.1.get a).filter (kept maxPiggybackCount filterChange)
      else issued.1.get a := by
  unfold issueChange
  by_cases same : a = address
  · subst same
    cases found : issued.1.get a with
    | none => simp [found]
    | some r =>
      rw [if_pos rfl, Option.filter_some, kept]
      by_cases filtered : filterChange r.change = true
      · simp [filtered, found]
      · by_cases exhausted : r.piggybackCount ≥ maxPiggybackCount
        · simp [filtered, exhausted]
        · simp [filtered, exhausted, found, Nat.lt_of_not_le exhausted]
  · rw [if_neg same]
    split
    · rfl
    · split
      · rfl
      · split
        · exact (Dict.get_delete _ _ _).trans (if_neg same)
        · rfl

theorem get_issueAs (changes : Dict Address RecordedChange) (a : Address) :
    (issueAs maxPiggybackCount filterChange changes).1.get a =
      (changes.get a).filter (kept maxPiggybackCount filterChange) := by
  have along (keys : List Address) (issued : Dict Address RecordedChange × List Update) :
      (keys.foldl (issueChange maxPiggybackCount filterChange) issued).1.get a =
        if a ∈ keys then (issued.1.get a).filter (kept maxPiggybackCount filterChange)
        else issued.1.get a := by
    induction keys generalizing issued with
    | nil => rfl
    | cons address keys ih =>
      rw [List.foldl_cons, ih, issueChange_get]
      by_cases here : a = address <;> by_cases later : a ∈ keys <;> simp [here, later]
  rw [issueAs, along]
  split
  case isTrue => rfl
  case isFalse missing =>
    have none : changes.get a = none := by
      rw [mem_objectKeys, Dict.has, Option.isSome_iff_ne_none, not_not] at missing
      exact missing
    rw [none]
    rfl

/-- What is handed out is recorded. -/
theorem mem_issueAs {changes : Dict Address RecordedChange} {u : Update}
    (h : u ∈ (issueAs maxPiggybackCount filterChange changes).2) :
    ∃ a r, changes.get a = some r ∧ r.change = u := by
  have along (keys : List Address) (issued : Dict Address RecordedChange × List Update)
      (sub : ∀ a r, issued.1.get a = some r → changes.get a = some r)
      (out : ∀ u ∈ issued.2, ∃ a r, changes.get a = some r ∧ r.change = u) :
      ∀ u ∈ (keys.foldl (issueChange maxPiggybackCount filterChange) issued).2,
        ∃ a r, changes.get a = some r ∧ r.change = u := by
    induction keys generalizing issued with
    | nil => exact out
    | cons address keys ih =>
      refine ih _ (fun a r h => ?_) fun u hu => ?_
      · rw [issueChange_get] at h
        split at h
        · exact sub a r (Option.filter_eq_some_iff.mp h).1
        · exact sub a r h
      · unfold issueChange at hu
        split at hu
        case h_1 => exact out u hu
        case h_2 r found =>
          split at hu
          case isTrue => exact out u hu
          case isFalse =>
            split at hu
            case isTrue => exact out u hu
            case isFalse =>
              rcases List.mem_append.mp hu with old | new
              · exact out u old
              · exact ⟨address, r, sub _ _ found, (List.mem_singleton.mp new).symm⟩
  exact along _ (changes, []) (fun _ _ => id) (fun _ h => by cases h) u h

/-- A counter goes up once for each change with its address and identifier. -/
theorem get_foldl_bump (changes : Dict Address RecordedChange) (issued : List Update)
    (a : Address) :
    (issued.foldl bump changes).get a = (changes.get a).map fun r =>
      { r with piggybackCount := r.piggybackCount +
          issued.countP fun u => u.address = a ∧ r.change.id = u.id } := by
  induction issued generalizing changes with
  | nil => simp
  | cons u issued ih =>
    rw [List.foldl_cons, ih]
    unfold bump
    by_cases same : u.address = a
    · subst same
      cases found : changes.get u.address with
      | none => simp [found]
      | some r =>
        by_cases equal : r.change.id = u.id
        · simp only [equal, if_true, Dict.get_set, Option.map_some, List.countP_cons, and_self,
            decide_true]
          simp [Nat.add_assoc, Nat.add_comm]
        · simp [equal, found]
    · have other : a ≠ u.address := Ne.symm same
      cases found : changes.get u.address with
      | none => simp [same]
      | some r =>
        by_cases equal : r.change.id = u.id <;> simp [equal, same, other]

end RecordedChange

/-- A node whose pings are under way. `inFlight` holds what each issue handed out until its
callback comes, and `handedOut` is a history of everything handed out. -/
structure Dissemination where
  node : Node
  maxPiggybackCount : ℕ
  inFlight : List (List Update)
  handedOut : List Update

inductive DisseminationEvent where
  | node (event : NodeEvent)
  | issueAsSender
  | onIssue (issue : ℕ) (err : Bool)
  | issueAsReceiver (senderAddr : Address) (senderIncarnationNumber senderChecksum : Option ℤ)
  | onRingChanged
  | resetMaxPiggybackCount
  | clearChanges

namespace Dissemination
open RecordedChange

def maxPiggybackCountDefault : ℕ := 1

def piggybackFactor : ℕ := 15

def new (env : Env) (periods : Periods) : Dissemination where
  node := .new env periods
  maxPiggybackCount := maxPiggybackCountDefault
  inFlight := []
  handedOut := []

def withChanges (d : Dissemination) (changes : Dict Address RecordedChange) : Dissemination :=
  { d with node := { d.node with changes := changes } }

/-- `logarithm n` stands for `Math.ceil(Math.log(n) / LOG_10)`, a floating-point number. -/
def adjustMaxPiggybackCount (logarithm : ℕ → ℕ) (d : Dissemination) : Dissemination :=
  let serverCount := d.node.ring.getServerCount
  let newPiggybackCount := piggybackFactor * logarithm (serverCount + 1)
  if d.maxPiggybackCount ≠ newPiggybackCount then
    { d with maxPiggybackCount := newPiggybackCount }
  else d

def clearChanges (d : Dissemination) : Dissemination := d.withChanges .empty

def issueAsSender (d : Dissemination) : Dissemination :=
  let (changes, membershipChanges) :=
    issueAs d.maxPiggybackCount (fun _ => false) d.node.changes
  { d.withChanges changes with
    inFlight := d.inFlight ++ [membershipChanges]
    handedOut := d.handedOut ++ membershipChanges }

/-- The callback that `issueAsSender` passes to the request. -/
def onIssue (d : Dissemination) (issue : ℕ) (err : Bool) : Dissemination :=
  match d.inFlight[issue]? with
  | none => d
  | some membershipChanges =>
    let d := { d with inFlight := d.inFlight.eraseIdx issue }
    if err then d else d.withChanges (membershipChanges.foldl bump d.node.changes)

/-- What `issueAsReceiver` leaves recorded, and the `changes` and `fullSync` of its result. -/
def issueAsReceiver (env : Env) (d : Dissemination) (senderAddr : Address)
    (senderIncarnationNumber senderChecksum : Option ℤ) :
    Dict Address RecordedChange × List Update × Bool :=
  let (changes, membershipChanges) :=
    issueAs d.maxPiggybackCount (filterChange senderAddr senderIncarnationNumber) d.node.changes
  let fullSync :=
    decide (membershipChanges.length = 0 ∧ d.node.membership.checksum ≠ senderChecksum)
  let membershipChanges :=
    if fullSync then d.node.membership.membershipAsChanges env else membershipChanges
  (membershipChanges.foldl bump changes, membershipChanges, fullSync)

variable (logarithm : ℕ → ℕ) (env : Env)

def step (d : Dissemination) : DisseminationEvent → Dissemination
  | .node event => { d with node := d.node.apply env event }
  | .issueAsSender => d.issueAsSender
  | .onIssue issue err => d.onIssue issue err
  | .issueAsReceiver senderAddr senderIncarnationNumber senderChecksum =>
    let (changes, membershipChanges, _) :=
      d.issueAsReceiver env senderAddr senderIncarnationNumber senderChecksum
    { d.withChanges changes with handedOut := d.handedOut ++ membershipChanges }
  | .onRingChanged => d.adjustMaxPiggybackCount logarithm
  | .resetMaxPiggybackCount => { d with maxPiggybackCount := maxPiggybackCountDefault }
  | .clearChanges => d.clearChanges

def run (periods : Periods) (events : List DisseminationEvent) : Dissemination :=
  events.foldl (step logarithm env) (new env periods)

/-- What is recorded about a member is what its list says, and a node that is not ready
has recorded nothing about others. -/
structure Current (env : Env) (node : Node) : Prop where
  inv : node.Inv env
  current : ∀ a r, node.changes.get a = some r →
    r.change.address = a ∧ ∀ s, node.view a = some s → r.change.standing = s
  joining : node.isReady = false → ∀ a ≠ env.whoami, node.changes.get a = none

variable {logarithm env} {node : Node} {d : Dissemination}

theorem current_new (env : Env) (periods : Periods) : Current env (.new env periods) where
  inv := Node.inv_new env periods
  current _ _ h := by cases h
  joining _ _ _ := rfl

theorem Current.apply (current : Current env node) (event : NodeEvent) :
    Current env (node.apply env event) := by
  obtain ⟨inv, recorded, joining⟩ := current
  have emitted := Node.apply_performs env node event
  have get (a : Address) : (node.apply env event).changes.get a =
      ((reportedAbout a (node.performs env event).2).getLast?.map fun u => ⟨u, 0⟩).or
        (node.changes.get a) := by
    rw [emitted.changes, get_recorded]
    rfl
  have before (ready : (node.apply env event).isReady = false) : node.isReady = false :=
    Bool.eq_false_iff.mpr fun was => by cases ready.symm.trans (emitted.stays was)
  refine ⟨inv.apply event, fun a r h => ?_, fun ready a other => ?_⟩
  · have accounts := inv.accounts event a
    rw [get] at h
    cases last : (reportedAbout a (node.performs env event).2).getLast? with
    | some u =>
      obtain rfl : (⟨u, 0⟩ : RecordedChange) = r := by simpa [last] using h
      have about := List.mem_of_getLast? last
      refine ⟨by simpa using (List.mem_filter.mp about).2, fun s known => ?_⟩
      cases accounts with
      | told belief => simpa [belief.last, last] using known
      | evicted _ silent _ | joined _ silent _ _ => rw [silent] at about; cases about
    | none =>
      replace h : node.changes.get a = some r := by simpa [last] using h
      refine ⟨(recorded a r h).1, fun s known => ?_⟩
      cases accounts with
      | told belief =>
        rw [belief.last, last] at known
        exact (recorded a r h).2 s known
      | evicted _ _ gone => cases known.symm.trans gone
      | joined remote _ joins _ => cases h.symm.trans (joining joins a remote)
  · rw [get, joining (before ready) a other]
    have unknown := ((inv.apply event).joining ready a other).1
    cases inv.accounts event a with
    | told belief =>
      rw [belief.last] at unknown
      have none := Option.map_eq_none_iff.mp (Option.or_eq_none_iff.mp unknown).1
      rw [none]
      rfl
    | evicted _ silent _ | joined _ silent _ _ => rw [silent]; rfl

/-- Counters do not matter, and entries may go. -/
theorem Current.weaken (current : Current env node) {changes : Dict Address RecordedChange}
    (sub : ∀ a r, changes.get a = some r → ∃ r', node.changes.get a = some r' ∧
      r'.change = r.change) : Current env { node with changes := changes } where
  inv :=
    { wellFormed := current.inv.wellFormed
      sound := current.inv.sound
      started := current.inv.started
      joining := current.inv.joining
      tracks := current.inv.tracks }
  current a r h := by
    obtain ⟨r', h', same⟩ := sub a r h
    rw [← same]
    exact current.current a r' h'
  joining ready a other := by
    by_contra some
    obtain ⟨r, h⟩ := Option.ne_none_iff_exists'.mp some
    obtain ⟨r', h', -⟩ := sub a r h
    cases h'.symm.trans (current.joining ready a other)

theorem view_membershipAsChanges {m : Membership} (w : Membership.WellFormed env m) {u : Update}
    (h : u ∈ m.membershipAsChanges env) : u.id = none ∧ m.view u.address = some u.standing := by
  obtain ⟨ref, listed, rfl⟩ := List.mem_map.mp h
  exact ⟨rfl, Membership.view_of_get ((w.index _ _).mpr ⟨listed, rfl⟩)⟩

theorem Current.issueAs (current : Current env node) (maxPiggybackCount : ℕ)
    (filterChange : Update → Bool) :
    let issued := RecordedChange.issueAs maxPiggybackCount filterChange node.changes
    Current env { node with changes := issued.1 } ∧
      ∀ u ∈ issued.2, ∀ s, node.view u.address = some s → u.standing = s := by
  refine ⟨current.weaken fun a r h => ?_, fun u hu s known => ?_⟩
  · rw [get_issueAs] at h
    exact ⟨r, (Option.filter_eq_some_iff.mp h).1, rfl⟩
  · obtain ⟨a, r, recorded, rfl⟩ := mem_issueAs hu
    obtain ⟨address, standing⟩ := current.current a r recorded
    exact standing s (address ▸ known)

theorem Current.bumps (current : Current env node) (issued : List Update) :
    Current env { node with changes := issued.foldl bump node.changes } := by
  refine current.weaken fun a r h => ?_
  rw [get_foldl_bump] at h
  obtain ⟨r', h', rfl⟩ := Option.map_eq_some_iff.mp h
  exact ⟨r', h', rfl⟩

theorem Current.issueAsReceiver (current : Current env d.node) (senderAddr : Address)
    (senderIncarnationNumber senderChecksum : Option ℤ) :
    let answer := d.issueAsReceiver env senderAddr senderIncarnationNumber senderChecksum
    Current env { d.node with changes := answer.1 } ∧
      ∀ u ∈ answer.2.1, ∀ s, d.node.view u.address = some s → u.standing = s := by
  obtain ⟨issued, handed⟩ := current.issueAs d.maxPiggybackCount
    (filterChange senderAddr senderIncarnationNumber)
  simp only [Dissemination.issueAsReceiver]
  refine ⟨issued.bumps _, ?_⟩
  split
  case isTrue =>
    intro u hu s known
    have listed := (view_membershipAsChanges current.inv.wellFormed hu).2
    exact Option.some.inj (listed.symm.trans known)
  case isFalse => exact handed

theorem Current.step (current : Current env d.node) (event : DisseminationEvent) :
    Current env (d.step logarithm env event).node := by
  cases event with
  | node event => exact current.apply event
  | issueAsSender => exact (current.issueAs _ _).1
  | onIssue issue err =>
    simp only [Dissemination.step, onIssue]
    split
    case h_1 => exact current
    case h_2 issued found =>
      split
      case isTrue => exact current
      case isFalse => exact current.bumps issued
  | issueAsReceiver senderAddr inc checksum => exact (current.issueAsReceiver _ _ _).1
  | onRingChanged =>
    simp only [Dissemination.step, adjustMaxPiggybackCount]
    split <;> exact current
  | resetMaxPiggybackCount => exact current
  | clearChanges => exact current.weaken fun a r h => by cases h

theorem current_run (logarithm : ℕ → ℕ) (env : Env) (periods : Periods)
    (events : List DisseminationEvent) :
    Current env (run logarithm env periods events).node :=
  Runs.foldl_invariant (step logarithm env) (fun d => Current env d.node)
    (fun _ event current => current.step event) (current_new env periods) events

/-- What an event hands out to another node. -/
def handsOut (env : Env) (d : Dissemination) : DisseminationEvent → List Update
  | .issueAsSender => (issueAs d.maxPiggybackCount (fun _ => false) d.node.changes).2
  | .issueAsReceiver senderAddr senderIncarnationNumber senderChecksum =>
    (d.issueAsReceiver env senderAddr senderIncarnationNumber senderChecksum).2.1
  | _ => []

/-- What is recorded about a member of the list, and what is handed out about one, is what
the node believes of it. -/
theorem run_current (logarithm : ℕ → ℕ) (env : Env) (periods : Periods)
    (events : List DisseminationEvent) :
    let d := run logarithm env periods events
    (∀ a change, d.node.changes.get a = some change →
      change.change.address = a ∧ ∀ s, d.node.view a = some s → change.change.standing = s) ∧
    ∀ event, ∀ u ∈ d.handsOut env event, ∀ s, d.node.view u.address = some s → u.standing = s := by
  intro d
  have current : Current env d.node := current_run logarithm env periods events
  refine ⟨current.current, fun event => ?_⟩
  cases event with
  | issueAsSender => exact (current.issueAs _ _).2
  | issueAsReceiver senderAddr inc checksum => exact (current.issueAsReceiver _ _ _).2
  | node | onIssue | onRingChanged | resetMaxPiggybackCount | clearChanges =>
    intro u hu
    cases hu

end Dissemination
end Ringpop.Members
