import Ringpop.Membership
import Ringpop.TimerQueue
import Ringpop.Runs

/-! `lib/gossip/damper.js`: flapping members, the requests that ask others about them, and
the members that have been damped. -/
namespace Ringpop.Members
open JsString Dictionary

/-- What the damper reads from the configuration. -/
structure DamperConfig where
  dampedMaxPercentage : ℤ
  dampReqRVal : ℤ
  dampScoringSuppressDuration : ℤ
  dampScoringSuppressLimit : ℤ

/-- A damp score of a response; `dampScore` may be missing. -/
structure DampScore where
  member : Address
  dampScore : Option ℤ

/-- The body of a response; `scores` may be no array. -/
structure DampReqResult where
  scores : Option (List DampScore)

/-- The callbacks of the timers. -/
inductive DamperTimeout where
  | damp
  | expiration
deriving DecidableEq

/-- One fan-out of `_fanoutDampReqs`. Its callback becomes `null` once it has been called. -/
structure Fanout where
  flapperAddrs : List Address
  rVal : ℤ
  outstanding : List Address
  numPendingReqs : ℤ
  results : List DampReqResult
  calledBack : Bool

structure Damper where
  flappers : Dict Address Unit
  /-- the times at which they were damped -/
  dampedMembers : Dict Address ℤ
  dampTimer : Option ℕ
  expirationTimer : Option ℕ
  queue : TimerQueue DamperTimeout
  /-- the fan-outs that the damp timer has started -/
  fanouts : Dict ℕ Fanout
  nextFanout : ℕ

def groupDampScoresByFlapper (allResponses : List DampReqResult) :
    Dict Address (List (Option ℤ)) :=
  (allResponses.flatMap fun response => response.scores.getD []).foldl
    (fun grouped score => grouped.set score.member
      ((grouped.get score.member).getD [] ++ [score.dampScore]))
    .empty

def haveAllScoresExceededLimit (suppressLimit : ℤ) (scores : List (Option ℤ)) : Bool :=
  scores.all fun score => score.any fun dampScore => dampScore ≥ suppressLimit

def findFlappersToDamp (dampScoresByFlapper : Dict Address (List (Option ℤ))) (rVal : ℤ)
    (suppressLimit : ℤ) : List Address :=
  (objectKeys dampScoresByFlapper).filter fun flapperAddr =>
    let flapperScores := (dampScoresByFlapper.get flapperAddr).getD []
    decide (flapperScores.length ≥ rVal) && haveAllScoresExceededLimit suppressLimit flapperScores

def getMembersToDamp (allResponses : List DampReqResult) (rVal : ℤ) (config : DamperConfig) :
    List Address :=
  findFlappersToDamp (groupDampScoresByFlapper allResponses) rVal config.dampScoringSuppressLimit

namespace Damper

def new : Damper where
  flappers := .empty
  dampedMembers := .empty
  dampTimer := none
  expirationTimer := none
  queue := .empty
  fanouts := .empty
  nextFanout := 0

def getFlapperAddrs (d : Damper) : List Address := objectKeys d.flappers

def flapperCount (d : Damper) : ℕ := (objectKeys d.flappers).length

def scheduleDamp (d : Damper) : Damper :=
  { d with dampTimer := some d.queue.next, queue := d.queue.setTimeout .damp }

def startDampTimer (d : Damper) : Damper := if d.dampTimer.isSome then d else d.scheduleDamp

def stopDampTimer (d : Damper) : Damper :=
  match d.dampTimer with
  | none => d
  | some timer => { d with queue := d.queue.clearTimeout timer, dampTimer := none }

def scheduleExpiration (d : Damper) : Damper :=
  { d with expirationTimer := some d.queue.next, queue := d.queue.setTimeout .expiration }

def startExpirationTimer (d : Damper) : Damper :=
  if d.expirationTimer.isSome then d else d.scheduleExpiration

def stopExpirationTimer (d : Damper) : Damper :=
  match d.expirationTimer with
  | none => d
  | some timer => { d with queue := d.queue.clearTimeout timer, expirationTimer := none }

def addFlapper (d : Damper) (flapper : Address) : Damper :=
  if d.dampedMembers.has flapper then d
  else if d.flappers.has flapper then d
  else
    let d := { d with flappers := d.flappers.set flapper () }
    if d.flapperCount = 1 then d.startDampTimer else d

def removeFlapper (d : Damper) (address : Address) : Damper :=
  if !d.flappers.has address then d
  else
    let d := { d with flappers := d.flappers.delete address }
    if d.flapperCount = 0 then d.stopDampTimer else d

def addDampedMember (d : Damper) (now : ℤ) (memberAddr : Address) : Damper :=
  { d with dampedMembers := d.dampedMembers.set memberAddr now }

/-- A quotient by a member count of zero is not less than any limit. -/
def validateDampedClusterLimits (config : DamperConfig) (m : Membership) (d : Damper) : Bool :=
  let dampedCount := (objectKeys d.dampedMembers).length
  decide (m.members.length ≠ 0 ∧
    (dampedCount : ℤ) * 100 < config.dampedMaxPercentage * m.members.length)

/-- `makeDamped` only logs, so the member list is not changed. -/
def dampMember (config : DamperConfig) (m : Membership) (now : ℤ) (d : Damper) (addr : Address) :
    Damper :=
  match m.findMemberByAddress addr with
  | none => d
  | some member =>
    if !d.flappers.has member.address then d
    else if !d.validateDampedClusterLimits config m then d
    else
      let d := (d.removeFlapper member.address).addDampedMember now member.address
      if d.expirationTimer.isNone then d.startExpirationTimer else d

/-- `clock` is what the pass of the loop over an address reads. -/
def expireDampedMembers (config : DamperConfig) (clock : Address → ℤ) (d : Damper) : Damper :=
  let undampedMembers := (objectKeys d.dampedMembers).filter fun key =>
    decide (clock key - (d.dampedMembers.get key).getD 0 ≥ config.dampScoringSuppressDuration)
  if undampedMembers.length = 0 then d
  else
    let d := { d with dampedMembers := undampedMembers.foldl Dict.delete d.dampedMembers }
    if (objectKeys d.dampedMembers).length = 0 then d.stopExpirationTimer else d

/-- The callback that the damp timer passes to `initiateSubprotocol`. -/
def onSubprotocol (d : Damper) : Damper := if d.dampTimer.isSome then d.scheduleDamp else d

/-- `dampReqMembers` is the sample of pingable members that `getRandomPingableMembers`
returns for the flappers. -/
def initiateSubprotocol (config : DamperConfig) (m : Membership) (dampReqMembers : List Address)
    (d : Damper) : Damper :=
  if !d.validateDampedClusterLimits config m then d.onSubprotocol
  else
    let rVal := min config.dampReqRVal dampReqMembers.length
    if rVal = 0 then d.onSubprotocol
    else
      { d with
        fanouts := d.fanouts.set d.nextFanout
          ⟨d.getFlapperAddrs, rVal, dampReqMembers, dampReqMembers.length, [], false⟩
        nextFanout := d.nextFanout + 1 }

/-- `none` is the error of a fan-out that cannot attain its r-value. -/
def onFanout (config : DamperConfig) (m : Membership) (now : ℤ) (rVal : ℤ) (d : Damper)
    (res : Option (List DampReqResult)) : Damper :=
  match res with
  | none => d.onSubprotocol
  | some res =>
    let membersToDamp := getMembersToDamp res rVal config
    if membersToDamp.length = 0 then d.onSubprotocol
    else (membersToDamp.foldl (dampMember config m now) d).onSubprotocol

/-- `onDampReq`: the fan-out after a response, and what its callback is called with. -/
def onDampReq (fanout : Fanout) (addr : Address) (res : Option DampReqResult) :
    Fanout × Option (Option (List DampReqResult)) :=
  let fanout := { fanout with outstanding := fanout.outstanding.erase addr }
  if fanout.calledBack then (fanout, none)
  else
    let fanout :=
      { fanout with
        numPendingReqs := fanout.numPendingReqs - 1
        results := fanout.results ++ res.toList }
    if fanout.results.length ≥ fanout.rVal then
      ({ fanout with calledBack := true }, some (some fanout.results))
    else if fanout.numPendingReqs < fanout.rVal - fanout.results.length then
      ({ fanout with calledBack := true }, some none)
    else (fanout, none)

/-- Responses come once from each member asked; `none` is an error. -/
def dampReqResponse (config : DamperConfig) (m : Membership) (now : ℤ) (d : Damper) (id : ℕ)
    (addr : Address) (res : Option DampReqResult) : Damper :=
  match d.fanouts.get id with
  | none => d
  | some fanout =>
    if addr ∈ fanout.outstanding then
      let (fanout, result) := onDampReq fanout addr res
      let d := { d with fanouts := d.fanouts.set id fanout }
      match result with
      | none => d
      | some result => d.onFanout config m now fanout.rVal result
    else d

/-- A timer fires; nothing happens when it has fired before or has been cleared. -/
def fire (config : DamperConfig) (m : Membership) (dampReqMembers : List Address)
    (clock : Address → ℤ) (d : Damper) (timer : ℕ) : Damper :=
  match d.queue.callback timer with
  | none => d
  | some timeout =>
    let d := { d with queue := d.queue.clearTimeout timer }
    match timeout with
    | .damp => d.initiateSubprotocol config m dampReqMembers
    | .expiration =>
      let d := d.expireDampedMembers config clock
      if d.expirationTimer.isSome then d.scheduleExpiration else d

end Damper

/-- What happens to a damper, each time with the member list at that time. -/
inductive DamperEvent where
  | addFlapper (flapper : Address)
  | removeFlapper (address : Address)
  | dampMember (m : Membership) (now : ℤ) (addr : Address)
  | fire (m : Membership) (dampReqMembers : List Address) (clock : Address → ℤ) (timer : ℕ)
  | dampReqResponse (m : Membership) (now : ℤ) (id : ℕ) (addr : Address)
      (res : Option DampReqResult)

namespace Damper

def step (config : DamperConfig) (d : Damper) : DamperEvent → Damper
  | .addFlapper flapper => d.addFlapper flapper
  | .removeFlapper address => d.removeFlapper address
  | .dampMember m now addr => d.dampMember config m now addr
  | .fire m dampReqMembers clock timer => d.fire config m dampReqMembers clock timer
  | .dampReqResponse m now id addr res => d.dampReqResponse config m now id addr res

def run (config : DamperConfig) (events : List DamperEvent) : Damper :=
  events.foldl (step config) new

@[simp] theorem flappers_startDampTimer (d : Damper) : d.startDampTimer.flappers = d.flappers := by
  unfold startDampTimer
  split <;> rfl

@[simp] theorem flappers_stopDampTimer (d : Damper) : d.stopDampTimer.flappers = d.flappers := by
  unfold stopDampTimer
  split <;> rfl

theorem has_flappers_addFlapper {d : Damper} {a b : Address}
    (h : (d.addFlapper b).flappers.has a = true) : d.flappers.has a = true ∨ a = b := by
  unfold addFlapper at h
  split at h
  · exact .inl h
  · split at h
    · exact .inl h
    · simp only [apply_ite flappers, flappers_startDampTimer, ite_self, Dict.has_set,
        Bool.or_eq_true, decide_eq_true_eq] at h
      exact h.symm

theorem has_flappers_removeFlapper (d : Damper) (a b : Address) :
    (d.removeFlapper b).flappers.has a = (!decide (a = b) && d.flappers.has a) := by
  unfold removeFlapper
  split
  case isTrue missing =>
    by_cases same : a = b
    · simpa [same] using missing
    · simp [same]
  case isFalse =>
    simp only [apply_ite flappers, flappers_stopDampTimer, ite_self]
    exact Dict.has_delete _ _ _

end Damper
end Ringpop.Members
