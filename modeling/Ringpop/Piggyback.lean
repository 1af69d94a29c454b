import Ringpop.Dissemination

/-! The piggyback counters: what has been charged to a recorded change, against how often
that change was handed out. -/
namespace Ringpop.Members
open JsString Dictionary

/-- A handed out change is the recorded one. -/
def Update.Repeats (r u : Update) : Prop :=
  u.address = r.address ∧ u.id = r.id ∧ u.standing = r.standing

instance (r u : Update) : Decidable (r.Repeats u) :=
  inferInstanceAs (Decidable (u.address = r.address ∧ u.id = r.id ∧ u.standing = r.standing))

namespace Dissemination
open RecordedChange
variable {logarithm : ℕ → ℕ} {env : Env} {d : Dissemination}

/-- How often a change has been handed out. -/
def timesHandedOut (d : Dissemination) (change : Update) : ℕ :=
  d.handedOut.countP fun u => change.Repeats u

/-- How often a change has been handed out by issues whose callback is still to come. -/
def outstanding (d : Dissemination) (change : Update) : ℕ :=
  d.inFlight.flatten.countP fun u => change.Repeats u

/-- When an issue succeeds, no change that it handed out finds another one with the same
identifier, or also without any, recorded for its address. -/
def ChargesSent (d : Dissemination) : DisseminationEvent → Prop
  | .onIssue issue false => ∀ u ∈ d.inFlight[issue]?.getD [], ∀ r ∈ d.node.changes.get u.address,
      r.change.id = u.id → r.change.standing = u.standing
  | _ => True

instance (d : Dissemination) : DecidablePred d.ChargesSent
  | .onIssue _ false => inferInstanceAs (Decidable (∀ u ∈ _, ∀ r ∈ _, _ → _))
  | .onIssue _ true | .node _ | .issueAsSender | .issueAsReceiver _ _ _ | .onRingChanged
  | .resetMaxPiggybackCount | .clearChanges => inferInstanceAs (Decidable True)

/-- What is outstanding can still be charged. -/
structure Covered (env : Env) (d : Dissemination) : Prop where
  current : Current env d.node
  sent : ∀ change, d.outstanding change ≤ d.timesHandedOut change
  charged : ∀ a r, d.node.changes.get a = some r →
    r.piggybackCount + d.outstanding r.change ≤ d.timesHandedOut r.change

theorem covered_new (env : Env) (periods : Periods) : Covered env (new env periods) where
  current := current_new env periods
  sent _ := le_rfl
  charged _ _ h := by cases h

theorem handedOut_step (d : Dissemination) (event : DisseminationEvent) :
    (d.step logarithm env event).handedOut = d.handedOut ++ d.handsOut env event := by
  cases event with
  | issueAsSender | issueAsReceiver => rfl
  | node | resetMaxPiggybackCount | clearChanges => exact (List.append_nil _).symm
  | onIssue issue err =>
    simp only [step, onIssue, handsOut, List.append_nil]
    split
    · rfl
    · split <;> rfl
  | onRingChanged =>
    simp only [step, adjustMaxPiggybackCount, handsOut, List.append_nil]
    split <;> rfl

theorem timesHandedOut_step (d : Dissemination) (event : DisseminationEvent) (change : Update) :
    (d.step logarithm env event).timesHandedOut change = d.timesHandedOut change +
      (d.handsOut env event).countP fun u => change.Repeats u := by
  rw [timesHandedOut, handedOut_step, List.countP_append]
  rfl

theorem outstanding_issueAsSender (env : Env) (d : Dissemination) (change : Update) :
    d.issueAsSender.outstanding change = d.outstanding change +
      (d.handsOut env .issueAsSender).countP fun u => change.Repeats u := by
  simp only [outstanding, issueAsSender, List.flatten_append, List.countP_append,
    List.flatten_singleton]
  rfl

theorem outstanding_eraseIdx {issue : ℕ} {issued : List Update}
    (found : d.inFlight[issue]? = some issued) (change : Update) :
    (d.inFlight.eraseIdx issue).flatten.countP (fun u => change.Repeats u) +
      issued.countP (fun u => change.Repeats u) = d.outstanding change := by
  obtain ⟨inside, rfl⟩ := List.getElem?_eq_some_iff.mp found
  rw [outstanding, ← (List.getElem_cons_eraseIdx_perm inside).flatten.countP_eq,
    List.flatten_cons, List.countP_append, Nat.add_comm]

/-- A counter is raised once for each time its change was among the issued ones. -/
theorem raised_le {r : RecordedChange} {a : Address} {issued : List Update}
    (address : r.change.address = a)
    (matching : ∀ u ∈ issued, u.address = a → r.change.id = u.id →
      r.change.standing = u.standing) :
    (issued.countP fun u => u.address = a ∧ r.change.id = u.id) ≤
      issued.countP fun u => r.change.Repeats u := by
  refine List.countP_mono_left fun u hu found => ?_
  obtain ⟨here, id⟩ := of_decide_eq_true found
  exact decide_eq_true ⟨here.trans address.symm, id.symm, (matching u hu here id).symm⟩

theorem Covered.node (covered : Covered env d) (event : NodeEvent) :
    Covered env (d.step logarithm env (.node event)) where
  current := covered.current.apply event
  sent := covered.sent
  charged a r h := by
    have emitted := Node.apply_performs env d.node event
    simp only [step] at h
    rw [emitted.changes, get_recorded] at h
    cases last : ((reported (d.node.performs env event).2).filter
        fun u => u.address = a).getLast? with
    | some u =>
      obtain rfl : (⟨u, 0⟩ : RecordedChange) = r := by simpa [last] using h
      exact (Nat.zero_add _).trans_le (covered.sent u)
    | none => exact covered.charged a r (by simpa [last] using h)

theorem Covered.issueAsSender (covered : Covered env d) :
    Covered env (d.step logarithm env .issueAsSender) where
  current := covered.current.step .issueAsSender
  sent change := by
    rw [timesHandedOut_step, step, outstanding_issueAsSender env]
    exact Nat.add_le_add_right (covered.sent change) _
  charged a r h := by
    rw [timesHandedOut_step, step, outstanding_issueAsSender env, ← Nat.add_assoc]
    simp only [step, Dissemination.issueAsSender, withChanges] at h
    rw [get_issueAs] at h
    exact Nat.add_le_add_right (covered.charged a r (Option.filter_eq_some_iff.mp h).1) _

theorem Covered.onIssue (covered : Covered env d) (issue : ℕ) (err : Bool)
    (sent : d.ChargesSent (.onIssue issue err)) :
    Covered env (d.step logarithm env (.onIssue issue err)) := by
  simp only [step, Dissemination.onIssue]
  split
  case h_1 => exact covered
  case h_2 issued found =>
    have still := outstanding_eraseIdx found
    have less (change : Update) := Nat.le.intro (still change)
    cases err with
    | true =>
      exact ⟨covered.current, fun change => (less change).trans (covered.sent change),
        fun a r h => (Nat.add_le_add_left (less r.change) _).trans (covered.charged a r h)⟩
    | false =>
      refine ⟨covered.current.bumps issued, fun change => (less change).trans (covered.sent change),
        fun a r h => ?_⟩
      simp only [withChanges, Bool.false_eq_true, if_false] at h
      rw [get_foldl_bump] at h
      obtain ⟨r, recorded, rfl⟩ := Option.map_eq_some_iff.mp h
      have raised := raised_le (covered.current.current a r recorded).1 fun u hu here id =>
        sent u (by rwa [found]) r (here ▸ recorded) id
      have charged := covered.charged a r recorded
      rw [← still r.change] at charged
      have total : r.piggybackCount + (issued.countP fun u => r.change.Repeats u) +
          ((d.inFlight.eraseIdx issue).flatten.countP fun u => r.change.Repeats u) ≤
          d.timesHandedOut r.change := by omega
      exact (Nat.add_le_add_right (Nat.add_le_add_left raised _) _).trans total

/-- An answer raises the counters of changes that it hands out itself; in a full sync these
are the beliefs that were recorded. -/
theorem Covered.issueAsReceiver (covered : Covered env d) (senderAddr : Address)
    (senderIncarnationNumber senderChecksum : Option ℤ) :
    Covered env (d.step logarithm env
      (.issueAsReceiver senderAddr senderIncarnationNumber senderChecksum)) where
  current := covered.current.step _
  sent change := by
    rw [timesHandedOut_step]
    exact (covered.sent change).trans (Nat.le_add_right _ _)
  charged a r h := by
    rw [timesHandedOut_step]
    simp only [step, handsOut, Dissemination.issueAsReceiver, withChanges] at h ⊢
    rw [get_foldl_bump, get_issueAs] at h
    obtain ⟨r, kept, rfl⟩ := Option.map_eq_some_iff.mp h
    have recorded := (Option.filter_eq_some_iff.mp kept).1
    obtain ⟨address, standing⟩ := covered.current.current a r recorded
    have charged := covered.charged a r recorded
    rw [Nat.add_right_comm]
    refine Nat.add_le_add charged (raised_le address fun u hu here _ => ?_)
    split at hu
    case isTrue =>
      have listed := (view_membershipAsChanges covered.current.inv.wellFormed hu).2
      exact standing _ (here ▸ listed)
    case isFalse =>
      obtain ⟨b, r', recorded', rfl⟩ := mem_issueAs hu
      obtain rfl : b = a := (covered.current.current b r' recorded').1.symm.trans here
      rw [Option.some.inj (recorded.symm.trans recorded')]

theorem Covered.step (covered : Covered env d) (event : DisseminationEvent)
    (sent : d.ChargesSent event) : Covered env (d.step logarithm env event) := by
  cases event with
  | node event => exact covered.node event
  | issueAsSender => exact covered.issueAsSender
  | onIssue issue err => exact covered.onIssue issue err sent
  | issueAsReceiver senderAddr inc checksum => exact covered.issueAsReceiver senderAddr inc checksum
  | onRingChanged =>
    simp only [Dissemination.step, adjustMaxPiggybackCount]
    split
    · exact { covered with }
    · exact covered
  | resetMaxPiggybackCount => exact { covered with }
  | clearChanges =>
    exact ⟨covered.current.step .clearChanges, covered.sent, fun a r h => by cases h⟩

/-- What `_issueAs` drops has used up its counter. -/
theorem exhausted_of_dropped {maxPiggybackCount : ℕ} {filterChange : Update → Bool}
    {changes : Dict Address RecordedChange} {a : Address} {r : RecordedChange}
    (recorded : changes.get a = some r)
    (dropped : (issueAs maxPiggybackCount filterChange changes).1.get a = none) :
    maxPiggybackCount ≤ r.piggybackCount := by
  rw [get_issueAs, recorded, Option.filter_some] at dropped
  by_contra less
  simp [kept, Nat.lt_of_not_le less] at dropped

/-- An event in which changes are handed out. -/
def Issues : DisseminationEvent → Prop
  | .issueAsSender | .issueAsReceiver _ _ _ => True
  | _ => False

theorem dropped_of_issues {event : DisseminationEvent} (issues : Issues event) {a : Address}
    {r : RecordedChange} (recorded : d.node.changes.get a = some r)
    (dropped : (d.step logarithm env event).node.changes.get a = none) :
    d.maxPiggybackCount ≤ r.piggybackCount := by
  cases event with
  | issueAsSender => exact exhausted_of_dropped recorded dropped
  | issueAsReceiver senderAddr inc checksum =>
    simp only [step, issueAsReceiver, withChanges] at dropped
    rw [get_foldl_bump, Option.map_eq_none_iff] at dropped
    exact exhausted_of_dropped recorded dropped
  | node | onIssue | onRingChanged | resetMaxPiggybackCount | clearChanges => cases issues

/-- No more is charged to a recorded change than it was handed out, and none is dropped
before it was handed out often enough, if every success finds the changes it was about. -/
theorem run_charged (logarithm : ℕ → ℕ) (env : Env) (periods : Periods)
    {events : List DisseminationEvent}
    (sent : Runs.Throughout (step logarithm env) ChargesSent (new env periods) events)
    {reached : List DisseminationEvent} (upTo : reached <+: events) :
    let d := run logarithm env periods reached
    ∀ a change, d.node.changes.get a = some change →
      change.piggybackCount ≤ d.timesHandedOut change.change ∧
      ∀ event, Issues event → (d.step logarithm env event).node.changes.get a = none →
        d.maxPiggybackCount ≤ d.timesHandedOut change.change := by
  intro d a change recorded
  have covered : Covered env d := (sent.of_prefix upTo).foldl_invariant (Covered env)
    (fun _ event covered sent => covered.step event sent) (covered_new env periods)
  have charged := (Nat.le_add_right _ _).trans (covered.charged a change recorded)
  exact ⟨charged, fun event issues dropped =>
    (dropped_of_issues issues recorded dropped).trans charged⟩

theorem run_charged_identified :
    let env := Env.sample (.of "a:1" (by decide))
    let b := Address.of "b:1" (by decide)
    let tick : Tick := ⟨7, [], 0⟩
    let change (status : Status) (id : String) : Update × Tick :=
      (⟨b, status, 1, some (str id), none, none⟩, tick)
    let d := run (fun _ => 1) env ⟨none, none, none⟩ [.node (.setLocalStatus .alive tick),
      .node .onJoin, .node (.update [change .alive "1"]), .onRingChanged, .issueAsSender,
      .node (.update [change .suspect "2"]), .issueAsSender, .onIssue 0 false, .onIssue 0 false]
    d.node.changes.get b = some ⟨(change .suspect "2").1, 1⟩ ∧
      1 ≤ d.timesHandedOut (change .suspect "2").1 := by
  intro env b tick change d
  have sent : Runs.Throughout (step (fun _ => 1) env) ChargesSent (new env ⟨none, none, none⟩)
      [.node (.setLocalStatus .alive tick), .node .onJoin, .node (.update [change .alive "1"]),
        .onRingChanged, .issueAsSender, .node (.update [change .suspect "2"]), .issueAsSender,
        .onIssue 0 false, .onIssue 0 false] := by decide
  obtain ⟨charged, -⟩ := run_charged (fun _ => 1) env ⟨none, none, none⟩ sent (List.prefix_refl _)
    b ⟨(change .suspect "2").1, 1⟩ (by decide)
  exact ⟨by decide, charged⟩

/-- An issue succeeds after another change without an identifier has been recorded. -/
theorem run_overcharged :
    let env := Env.sample (.of "a:1" (by decide))
    let b := Address.of "b:1" (by decide)
    let tick : Tick := ⟨7, [], 0⟩
    let change (status : Status) : Update × Tick := (⟨b, status, 1, none, none, none⟩, tick)
    let d := run (fun _ => 1) env ⟨none, none, none⟩ [.node (.setLocalStatus .alive tick),
      .node .onJoin, .node (.update [change .alive]), .onRingChanged, .issueAsSender,
      .node (.update [change .suspect]), .onIssue 0 false]
    ¬ ∀ a change, d.node.changes.get a = some change →
      change.piggybackCount ≤ d.timesHandedOut change.change := by
  intro env b tick change d charged
  have recorded : d.node.changes.get b = some ⟨(change .suspect).1, 1⟩ := by decide
  have never : d.timesHandedOut (change .suspect).1 = 0 := by decide
  have := charged b _ recorded
  rw [never] at this
  cases this

end Dissemination
end Ringpop.Members
