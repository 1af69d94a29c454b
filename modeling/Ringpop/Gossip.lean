import Ringpop.PingReqSender
import Ringpop.TimerQueue
import Ringpop.Runs

/-! `lib/gossip/index.js` and `ping-sender.js`: the gossip loop and the rounds of probing
that it and the admin endpoint begin. The delays of the loop and the measurements that
they come from are left out. -/
namespace Ringpop.Members
open JsString Dictionary

/-- A call of `tick`, by the loop or by somebody else; `stops` counts how often gossip had
been stopped before. -/
structure TickCall where
  id : ℕ
  fromLoop : Bool
  stops : ℕ
deriving DecidableEq

/-- The requests of a round: the ping, or the ping-reqs of which some are outstanding. The
round is broken when the changes in the answer to its ping make `membership.update` throw. -/
inductive Stage where
  | ping
  | broken
  | pingReq (reqs : PingReqs) (outstanding : List Address)

structure Round where
  call : TickCall
  member : Address
  stage : Stage

/-- The last four fields are a history: how often `tick` was called and `stop` took effect,
the ticks whose callback has been called, in that order, and the ticks that kept the loop
going although gossip had been stopped since. -/
structure Gossip where
  isPinging : Bool
  isStopped : Bool
  protocolPeriodTimer : Option ℕ
  queue : TimerQueue Unit
  rounds : Dict ℕ Round
  ticks : ℕ
  stops : ℕ
  calledBack : List ℕ
  late : List ℕ

/-- What a round reads when it begins: whether the node is ready, and the member that the
iterator returns. -/
structure Target where
  isReady : Bool
  member : Option Address

inductive GossipEvent where
  | start
  | stop
  | fire (timer : ℕ) (target : Target)
  | tick (target : Target)
  | pingResponse (id : ℕ) (res : Response) (listed : ListedMembers)
      (pingReqMembers : List Address) (incarnationNumber : ℤ)
  | pingReqResponse (id : ℕ) (a : PingReqAnswer)

/-- `PingSender.onPing`: what its callback is called with, and the changes that
`membership.update` is called with. -/
def PingSender.onPing (listed : ListedMembers) : Response → Handled Str × Option Json
  | .error message => (.callsBack (some message), none)
  | .body res =>
    let changes := Json.field (str "changes") res
    if !Json.truthy res || !Json.truthy changes then
      (.callsBack (some (str "Ping failed: no response")), none)
    else if !listed.returns (Json.asChanges changes) then (.throws, changes)
    else (.callsBack none, changes)

/-- `membership.update` is called with changes at which it throws. -/
def PingSender.breaks (listed : ListedMembers) : Response → Bool
  | .error _ => false
  | .body res => Json.truthy res && Json.truthy (Json.field (str "changes") res) &&
      !listed.returns (Json.asChanges (Json.field (str "changes") res))

theorem PingSender.breaks_iff (listed : ListedMembers) (res : Response) :
    PingSender.breaks listed res = true ↔ (PingSender.onPing listed res).1 = .throws := by
  cases res with
  | error message => exact iff_of_false Bool.false_ne_true fun same => by cases same
  | body res =>
    simp only [PingSender.breaks, PingSender.onPing]
    cases Json.truthy res <;> cases Json.truthy (Json.field (str "changes") res) <;>
      cases listed.returns _ <;> simp

namespace Gossip

def new : Gossip where
  isPinging := false
  isStopped := true
  protocolPeriodTimer := none
  queue := .empty
  rounds := .empty
  ticks := 0
  stops := 0
  calledBack := []
  late := []

def run (g : Gossip) : Gossip :=
  { g with protocolPeriodTimer := some g.queue.next, queue := g.queue.setTimeout () }

/-- The callback that the loop passes to `tick`. -/
def onMemberPinged (g : Gossip) (call : TickCall) : Gossip :=
  if g.isStopped then g
  else { g.run with late := if call.stops < g.stops then g.late ++ [call.id] else g.late }

def callBack (g : Gossip) (call : TickCall) : Gossip :=
  let g := { g with calledBack := g.calledBack ++ [call.id] }
  if call.fromLoop then g.onMemberPinged call else g

def start (g : Gossip) : Gossip :=
  if !g.isStopped then g else { g.run with isStopped := false }

def stop (g : Gossip) : Gossip :=
  if g.isStopped then g
  else
    { g with
      queue := match g.protocolPeriodTimer with
        | none => g.queue
        | some timer => g.queue.clearTimeout timer
      protocolPeriodTimer := none
      isStopped := true
      stops := g.stops + 1 }

def tick (g : Gossip) (fromLoop : Bool) (target : Target) : Gossip :=
  let call : TickCall := ⟨g.ticks, fromLoop, g.stops⟩
  let g := { g with ticks := g.ticks + 1 }
  if g.isPinging then g.callBack call
  else if !target.isReady then g.callBack call
  else
    match target.member with
    | none => g.callBack call
    | some member =>
      { g with isPinging := true, rounds := g.rounds.set call.id ⟨call, member, .ping⟩ }

/-- `onGossipTimer`; nothing happens when the timer has fired before or has been cleared. -/
def fire (g : Gossip) (timer : ℕ) (target : Target) : Gossip :=
  match g.queue.callback timer with
  | none => g
  | some _ => { g with queue := g.queue.clearTimeout timer }.tick true target

/-- The end of a round. -/
def finish (g : Gossip) (call : TickCall) : Gossip := { g with isPinging := false }.callBack call

/-- `onPingReq`, once for each call that `sendPingReqs` makes. -/
def onPingReq (g : Gossip) (call : TickCall) (results : List PingReqResult) : Gossip :=
  results.foldl (fun g _ => g.finish call) g

def pingResponse (g : Gossip) (id : ℕ) (res : Response) (listed : ListedMembers)
    (pingReqMembers : List Address) (incarnationNumber : ℤ) : Gossip :=
  match g.rounds.get id with
  | some ⟨call, member, .ping⟩ =>
    match (PingSender.onPing listed res).1 with
    | .throws => { g with rounds := g.rounds.set id ⟨call, member, .broken⟩ }
    | .callsBack (some _) =>
      let reqs := sendPingReqs member incarnationNumber pingReqMembers
      let g := { g with rounds := g.rounds.set id ⟨call, member, .pingReq reqs pingReqMembers⟩ }
      g.onPingReq call reqs.results
    | .callsBack none => { g with rounds := g.rounds.delete id }.finish call
  | _ => g

def pingReqResponse (g : Gossip) (id : ℕ) (a : PingReqAnswer) : Gossip :=
  match g.rounds.get id with
  | some ⟨call, member, .pingReq reqs outstanding⟩ =>
    if a.selected ∈ outstanding then
      let after := reqs.answer a
      let stage := Stage.pingReq after (outstanding.erase a.selected)
      let g := { g with rounds := g.rounds.set id ⟨call, member, stage⟩ }
      g.onPingReq call (after.results.drop reqs.results.length)
    else g
  | _ => g

def step (g : Gossip) : GossipEvent → Gossip
  | .start => g.start
  | .stop => g.stop
  | .fire timer target => g.fire timer target
  | .tick target => g.tick false target
  | .pingResponse id res listed pingReqMembers incarnationNumber =>
    g.pingResponse id res listed pingReqMembers incarnationNumber
  | .pingReqResponse id a => g.pingReqResponse id a

def after (events : List GossipEvent) : Gossip := events.foldl step new

end Gossip

namespace Round

/-- The callback of the round is still to be called. -/
def inFlight (r : Round) : Bool :=
  match r.stage with
  | .ping | .broken => true
  | .pingReq reqs _ => reqs.results.isEmpty

/-- A request of the round has not called back. -/
def outstanding (r : Round) : Bool :=
  match r.stage with
  | .ping => true
  | .broken => false
  | .pingReq _ outstanding => !outstanding.isEmpty

/-- The ping-reqs of a round in flight have no verdict yet, and others have one. -/
def Sound (r : Round) : Prop :=
  match r.stage with
  | .ping | .broken => True
  | .pingReq reqs outstanding => reqs.Pending outstanding ∨ (∃ suspects, reqs.Called suspects) ∨
      reqs.results.length = 1 ∧ outstanding = []

end Round

namespace Gossip
variable {g : Gossip}

theorem onMemberPinged_keeps (g : Gossip) (call : TickCall) :
    (g.onMemberPinged call).isPinging = g.isPinging ∧ (g.onMemberPinged call).rounds = g.rounds ∧
      (g.onMemberPinged call).ticks = g.ticks ∧
      (g.onMemberPinged call).calledBack = g.calledBack := by
  unfold onMemberPinged
  split <;> exact ⟨rfl, rfl, rfl, rfl⟩

@[simp] theorem isPinging_callBack (g : Gossip) (call : TickCall) :
    (g.callBack call).isPinging = g.isPinging := by
  unfold callBack
  split
  · exact (onMemberPinged_keeps _ call).1
  · rfl

@[simp] theorem rounds_callBack (g : Gossip) (call : TickCall) :
    (g.callBack call).rounds = g.rounds := by
  unfold callBack
  split
  · exact (onMemberPinged_keeps _ call).2.1
  · rfl

@[simp] theorem ticks_callBack (g : Gossip) (call : TickCall) :
    (g.callBack call).ticks = g.ticks := by
  unfold callBack
  split
  · exact (onMemberPinged_keeps _ call).2.2.1
  · rfl

@[simp] theorem calledBack_callBack (g : Gossip) (call : TickCall) :
    (g.callBack call).calledBack = g.calledBack ++ [call.id] := by
  unfold callBack
  split
  · exact (onMemberPinged_keeps _ call).2.2.2
  · rfl

@[simp] theorem rounds_start (g : Gossip) : g.start.rounds = g.rounds := by
  unfold start
  split <;> rfl

@[simp] theorem rounds_stop (g : Gossip) : g.stop.rounds = g.rounds := by
  unfold stop
  split <;> rfl

@[simp] theorem rounds_onPingReq (g : Gossip) (call : TickCall) (results : List PingReqResult) :
    (g.onPingReq call results).rounds = g.rounds := by
  unfold onPingReq
  induction results generalizing g with
  | nil => rfl
  | cons result rest ih => exact (ih _).trans (rounds_callBack _ call)

/-- A tick that is turned away begins no round. -/
theorem rounds_tick {target : Target} (g : Gossip) (fromLoop : Bool)
    (aborted : g.isPinging = true ∨ target.isReady = false) :
    (g.tick fromLoop target).rounds = g.rounds := by
  unfold tick
  rcases aborted with pinging | joining
  · simp only [pinging, if_true, rounds_callBack]
  · simp only [joining, Bool.not_false, if_true]
    split <;> exact rounds_callBack _ _

/-- A tick that is let through begins a round about its target. -/
theorem get_tick (g : Gossip) (fromLoop : Bool) (member : Address) (idle : g.isPinging = false) :
    (g.tick fromLoop ⟨true, some member⟩).rounds.get g.ticks =
      some ⟨⟨g.ticks, fromLoop, g.stops⟩, member, .ping⟩ := by
  rw [tick, idle]
  exact (Dict.get_set _ _ _ _).trans (if_pos rfl)

/-- The tick whose round is in flight under a number. -/
def flying (rounds : Dict ℕ Round) (id : ℕ) : Option TickCall :=
  ((rounds.get id).filter Round.inFlight).map Round.call

theorem flying_set (rounds : Dict ℕ Round) (id other : ℕ) (r : Round) :
    flying (rounds.set id r) other =
      if other = id then (if r.inFlight then some r.call else none) else flying rounds other := by
  rw [flying, Dict.get_set]
  split
  · cases landed : r.inFlight <;> simp [landed]
  · rfl

/-- Where a round changes only what it waits for, the same ticks fly. -/
theorem flying_set_same {rounds : Dict ℕ Round} {id : ℕ} {r : Round}
    (same : flying rounds id = if r.inFlight then some r.call else none) (other : ℕ) :
    flying (rounds.set id r) other = flying rounds other := by
  rw [flying_set]
  split
  case isTrue here => rw [here, same]
  case isFalse => rfl

theorem flying_delete (rounds : Dict ℕ Round) (id other : ℕ) :
    flying (rounds.delete id) other = if other = id then none else flying rounds other := by
  rw [flying, Dict.get_delete]
  split <;> rfl

/-- The tick whose round an answer brings to its end. -/
def ending (g : Gossip) : GossipEvent → Option TickCall
  | .pingResponse id res listed pingReqMembers _ =>
    match g.rounds.get id with
    | some ⟨call, _, .ping⟩ =>
      match (PingSender.onPing listed res).1 with
      | .throws => none
      | .callsBack (some _) => if pingReqMembers.isEmpty then some call else none
      | .callsBack none => some call
    | _ => none
  | .pingReqResponse id a =>
    match g.rounds.get id with
    | some ⟨call, _, .pingReq reqs outstanding⟩ =>
      if a.selected ∈ outstanding ∧ reqs.results.length < (reqs.answer a).results.length then
        some call
      else none
    | _ => none
  | _ => none

/-- The rounds are numbered by their ticks. -/
def Listed (ticks : ℕ) (rounds : Dict ℕ Round) : Prop :=
  ∀ id r, rounds.get id = some r → r.call.id = id ∧ id < ticks ∧ r.Sound

/-- An answer either leaves its round in flight or ends it. -/
inductive Answered (g : Gossip) (event : GossipEvent) (next : Gossip) : Prop
  | waits (rounds : Dict ℕ Round) (next_eq : next = { g with rounds := rounds })
      (ending : g.ending event = none) (listed : Listed g.ticks rounds)
      (same : ∀ id, flying rounds id = flying g.rounds id)
  | ends (rounds : Dict ℕ Round) (call : TickCall)
      (next_eq : next = ({ g with rounds := rounds } : Gossip).finish call)
      (ending : g.ending event = some call) (listed : Listed g.ticks rounds)
      (was : flying g.rounds call.id = some call)
      (same : ∀ id, flying rounds id = if id = call.id then none else flying g.rounds id)

theorem answered_none {event : GossipEvent} (listed : Listed g.ticks g.rounds)
    (ending : g.ending event = none) : Answered g event g :=
  .waits g.rounds rfl ending listed fun _ => rfl

theorem Listed.set {ticks id : ℕ} {rounds : Dict ℕ Round} (listed : Listed ticks rounds) {r : Round}
    (call : r.call.id = id) (begun : id < ticks) (sound : r.Sound) :
    Listed ticks (rounds.set id r) := by
  intro other r' h
  rw [Dict.get_set] at h
  split at h
  case isTrue same =>
    obtain rfl := Option.some.inj h
    exact ⟨call.trans same.symm, same ▸ begun, sound⟩
  case isFalse => exact listed other r' h

theorem Listed.delete {ticks id : ℕ} {rounds : Dict ℕ Round} (listed : Listed ticks rounds) :
    Listed ticks (rounds.delete id) := by
  intro other r h
  rw [Dict.get_delete] at h
  split at h
  · cases h
  · exact listed other r h

theorem answered_pingResponse (listed : Listed g.ticks g.rounds) (id : ℕ) (res : Response)
    (known : ListedMembers) (pingReqMembers : List Address) (incarnationNumber : ℤ) :
    Answered g (.pingResponse id res known pingReqMembers incarnationNumber)
      (g.pingResponse id res known pingReqMembers incarnationNumber) := by
  rw [pingResponse]
  rcases found : g.rounds.get id with _ | ⟨call, member, _ | _ | ⟨reqs, outstanding⟩⟩
  case none => exact answered_none listed (by simp [ending, found])
  case some.broken => exact answered_none listed (by simp [ending, found])
  case some.pingReq => exact answered_none listed (by simp [ending, found])
  case some.ping =>
    obtain ⟨key, begun, -⟩ := listed id _ found
    subst key
    have was : flying g.rounds call.id = some call := by simp [flying, found, Round.inFlight]
    rcases handled : (PingSender.onPing known res).1 with _ | _ | message
    case throws =>
      refine .waits _ rfl ?_ (listed.set rfl begun trivial) (flying_set_same ?_)
      · simp [ending, found, handled]
      · simp [Round.inFlight, was]
    case callsBack.none =>
      refine .ends _ call rfl ?_ listed.delete was (flying_delete g.rounds call.id)
      simp [ending, found, handled]
    case callsBack.some =>
      cases pingReqMembers with
      | nil =>
        refine .ends _ call rfl ?_ (listed.set rfl begun (.inr (.inr ⟨rfl, rfl⟩))) was
          fun other => ?_
        · simp [ending, found, handled]
        · exact flying_set g.rounds call.id other _
      | cons first rest =>
        obtain ⟨waiting, -, members, errors⟩ :=
          PingReqs.waiting_sendPingReqs member incarnationNumber (List.cons_ne_nil first rest)
        have pending : (sendPingReqs member incarnationNumber (first :: rest)).Pending
            (first :: rest) :=
          ⟨waiting, by rw [errors, members]; exact (Nat.zero_add _).le,
            by rw [errors, members]; exact Nat.succ_pos _⟩
        simp only [waiting.results, onPingReq, List.foldl_nil]
        refine .waits _ rfl ?_ (listed.set rfl begun (.inl pending)) (flying_set_same ?_)
        · simp [ending, found, handled]
        · simp [Round.inFlight, waiting.results, was]

theorem answered_pingReqResponse (listed : Listed g.ticks g.rounds) (id : ℕ)
    (a : PingReqAnswer) :
    Answered g (.pingReqResponse id a) (g.pingReqResponse id a) := by
  rw [pingReqResponse]
  rcases found : g.rounds.get id with _ | ⟨call, member, _ | _ | ⟨reqs, outstanding⟩⟩
  case none => exact answered_none listed (by simp [ending, found])
  case some.broken => exact answered_none listed (by simp [ending, found])
  case some.ping => exact answered_none listed (by simp [ending, found])
  case some.pingReq =>
    obtain ⟨key, begun, sound⟩ := listed id _ found
    subst key
    simp only
    by_cases asked : a.selected ∈ outstanding
    case neg =>
      rw [if_neg asked]
      exact answered_none listed (by simp [ending, found, asked])
    case pos =>
      rw [if_pos asked]
      rcases sound with pending | ⟨suspects, called⟩ | ⟨-, none⟩
      · have was : flying g.rounds call.id = some call := by
          simp [flying, found, Round.inFlight, pending.waiting.results]
        rw [pending.waiting.results]
        rcases pending.answer asked with still | ⟨suspects, called⟩
        · rw [still.waiting.results]
          refine .waits _ rfl ?_ (listed.set rfl begun (.inl still)) (flying_set_same ?_)
          · simp [ending, found, asked, pending.waiting.results, still.waiting.results]
          · simp [Round.inFlight, still.waiting.results, was]
        · obtain ⟨result, results⟩ := List.length_eq_one_iff.mp called.results
          rw [results]
          refine .ends _ call rfl ?_ (listed.set rfl begun (.inr (.inl ⟨_, called⟩))) was
            fun other => ?_
          · simp [ending, found, asked, pending.waiting.results, results]
          · rw [flying_set]
            simp [Round.inFlight, results]
      · have next := called.answer a
        have ended (reqs : PingReqs) (called : reqs.Called suspects) :
            reqs.results.isEmpty = false :=
          List.isEmpty_eq_false_iff.mpr (List.ne_nil_of_length_pos (by rw [called.results]; decide))
        rw [List.drop_of_length_le (by rw [next.results, called.results])]
        refine .waits _ rfl ?_ (listed.set rfl begun (.inr (.inl ⟨_, next⟩))) (flying_set_same ?_)
        · simp [ending, found, next.results, called.results]
        · simp [Round.inFlight, ended _ next, flying, found, ended _ called]
      · rw [none] at asked
        cases asked

/-- Rounds exclude each other, and a tick without a round in flight has called back. -/
structure Exclusive (g : Gossip) : Prop where
  listed : Listed g.ticks g.rounds
  single : ∀ id id', (flying g.rounds id).isSome → (flying g.rounds id').isSome → id = id'
  pinging : g.isPinging = true ↔ ∃ id, (flying g.rounds id).isSome
  called : ∀ id, g.calledBack.count id = if id < g.ticks ∧ flying g.rounds id = none then 1 else 0

theorem exclusive_new : Exclusive new where
  listed id r h := by cases h
  single id id' h := by cases h
  pinging := iff_of_false Bool.false_ne_true fun ⟨_, h⟩ => by cases h
  called id := by
    rw [if_neg fun h => Nat.not_lt_zero id h.1]
    rfl

/-- The loop does not touch the rounds. -/
theorem Exclusive.of_same (exclusive : g.Exclusive) {next : Gossip}
    (isPinging : next.isPinging = g.isPinging) (rounds : next.rounds = g.rounds)
    (ticks : next.ticks = g.ticks) (calledBack : next.calledBack = g.calledBack) :
    next.Exclusive := by
  obtain ⟨listed, single, pinging, called⟩ := exclusive
  exact ⟨by rwa [ticks, rounds], by rwa [rounds], by rwa [isPinging, rounds],
    by rwa [ticks, rounds, calledBack]⟩

theorem Exclusive.flying_ticks (exclusive : g.Exclusive) : flying g.rounds g.ticks = none := by
  rw [flying]
  cases found : g.rounds.get g.ticks with
  | none => rfl
  | some r => exact absurd (exclusive.listed _ r found).2.1 (Nat.lt_irrefl _)

/-- A tick that begins no round calls back at once. -/
theorem Exclusive.abort (exclusive : g.Exclusive) (call : TickCall) (number : call.id = g.ticks) :
    (({ g with ticks := g.ticks + 1 } : Gossip).callBack call).Exclusive where
  listed id r h := by
    rw [rounds_callBack] at h
    rw [ticks_callBack]
    obtain ⟨key, begun, sound⟩ := exclusive.listed id r h
    exact ⟨key, Nat.lt_succ_of_lt begun, sound⟩
  single := by
    rw [rounds_callBack]
    exact exclusive.single
  pinging := by
    rw [isPinging_callBack, rounds_callBack]
    exact exclusive.pinging
  called id := by
    rw [calledBack_callBack, rounds_callBack, ticks_callBack, List.count_append,
      List.count_singleton, exclusive.called, number]
    by_cases this : id = g.ticks
    · subst this
      simp [exclusive.flying_ticks]
    · have other : ¬ g.ticks = id := Ne.symm this
      have before : id < g.ticks + 1 ↔ id < g.ticks := by omega
      simp [before, other]

/-- A tick calls back at once or begins a round. -/
theorem tick_cases (g : Gossip) (fromLoop : Bool) (target : Target) :
    let call : TickCall := ⟨g.ticks, fromLoop, g.stops⟩
    g.tick fromLoop target = ({ g with ticks := g.ticks + 1 } : Gossip).callBack call ∨
      ∃ member, g.isPinging = false ∧ g.tick fromLoop target =
        { g with
          ticks := g.ticks + 1
          isPinging := true
          rounds := g.rounds.set g.ticks ⟨call, member, .ping⟩ } := by
  rw [Gossip.tick]
  cases pinging : g.isPinging with
  | true => exact .inl rfl
  | false =>
    cases target.isReady with
    | false => exact .inl rfl
    | true =>
      cases target.member with
      | none => exact .inl rfl
      | some member => exact .inr ⟨member, rfl, rfl⟩

theorem flying_begin (rounds : Dict ℕ Round) (call : TickCall) (member : Address) (id other : ℕ) :
    flying (rounds.set id ⟨call, member, .ping⟩) other =
      if other = id then some call else flying rounds other :=
  flying_set rounds id other _

theorem Exclusive.tick (exclusive : g.Exclusive) (fromLoop : Bool) (target : Target) :
    (g.tick fromLoop target).Exclusive := by
  rcases g.tick_cases fromLoop target with same | ⟨member, idle, same⟩
  · rw [same]
    exact exclusive.abort _ rfl
  · rw [same]
    have landed (id : ℕ) : flying g.rounds id = none :=
      Option.not_isSome_iff_eq_none.mp fun flies =>
        Bool.eq_false_iff.mp idle (exclusive.pinging.mpr ⟨id, flies⟩)
    refine ⟨?_, fun id id' => ?_, iff_of_true rfl ⟨g.ticks, ?_⟩, fun id => ?_⟩
    · have more : Listed (g.ticks + 1) g.rounds := fun id r h => by
        obtain ⟨key, begun, sound⟩ := exclusive.listed id r h
        exact ⟨key, Nat.lt_succ_of_lt begun, sound⟩
      exact more.set rfl (Nat.lt_succ_self _) trivial
    · simp only [flying_begin, landed]
      intro here there
      split at here <;> split at there <;> simp_all
    · simp [flying_begin]
    · simp only [flying_begin, landed, exclusive.called]
      by_cases this : id = g.ticks
      · simp [this]
      · have before : id < g.ticks + 1 ↔ id < g.ticks := by omega
        simp [this, before]

/-- The round that ends was the only one. -/
theorem Exclusive.ended (exclusive : g.Exclusive) {rounds : Dict ℕ Round} {call : TickCall}
    (was : flying g.rounds call.id = some call)
    (same : ∀ id, flying rounds id = if id = call.id then none else flying g.rounds id) (id : ℕ) :
    flying rounds id = none := by
  rw [same]
  split
  case isTrue => rfl
  case isFalse other =>
    refine Option.not_isSome_iff_eq_none.mp fun flies => other ?_
    exact exclusive.single _ _ flies (by rw [was]; rfl)

theorem Exclusive.answered (exclusive : g.Exclusive) {event : GossipEvent} {next : Gossip}
    (answered : Answered g event next) : next.Exclusive := by
  cases answered with
  | waits rounds next_eq _ listed same =>
    subst next_eq
    refine ⟨listed, ?_, ?_, ?_⟩
    · simpa only [same] using exclusive.single
    · simpa only [same] using exclusive.pinging
    · simpa only [same] using exclusive.called
  | ends rounds call next_eq _ listed was same =>
    subst next_eq
    have ended := exclusive.ended was same
    have begun : call.id < g.ticks := by
      obtain ⟨r, found, -⟩ := Option.map_eq_some_iff.mp was
      exact (exclusive.listed _ r (Option.filter_eq_some_iff.mp found).1).2.1
    refine ⟨?_, fun id id' here => ?_, ?_, fun id => ?_⟩
    · rw [finish, ticks_callBack, rounds_callBack]
      exact listed
    · rw [finish, rounds_callBack] at here
      rw [ended] at here
      cases here
    · rw [finish, isPinging_callBack, rounds_callBack]
      refine iff_of_false Bool.false_ne_true fun ⟨id, flies⟩ => ?_
      rw [ended] at flies
      cases flies
    · rw [finish, calledBack_callBack, rounds_callBack, ticks_callBack, List.count_append,
        List.count_singleton, exclusive.called, ended]
      by_cases this : call.id = id
      · subst this
        simp [was, begun]
      · have still : flying g.rounds id = none := by
          rw [← ended id, same, if_neg (Ne.symm this)]
        simp [still, this]

theorem Exclusive.step (exclusive : g.Exclusive) (event : GossipEvent) :
    (g.step event).Exclusive := by
  cases event with
  | start =>
    rw [Gossip.step, start]
    split
    · exact exclusive
    · exact exclusive.of_same rfl rfl rfl rfl
  | stop =>
    rw [Gossip.step, stop]
    split
    · exact exclusive
    · exact exclusive.of_same rfl rfl rfl rfl
  | fire timer target =>
    rw [Gossip.step, fire]
    split
    · exact exclusive
    · have cleared : ({ g with queue := g.queue.clearTimeout timer } : Gossip).Exclusive :=
        exclusive.of_same rfl rfl rfl rfl
      exact cleared.tick true target
  | tick target => exact exclusive.tick false target
  | pingResponse => exact exclusive.answered (answered_pingResponse exclusive.listed _ _ _ _ _)
  | pingReqResponse => exact exclusive.answered (answered_pingReqResponse exclusive.listed _ _)

/-- Whatever the answers are, rounds exclude each other. -/
theorem exclusive_after (events : List GossipEvent) : (after events).Exclusive :=
  Runs.foldl_invariant step Exclusive (fun _ event exclusive => exclusive.step event)
    exclusive_new events

/-- The round of a tick is in flight. -/
def InFlight (g : Gossip) (id : ℕ) : Prop := ∃ r, g.rounds.get id = some r ∧ r.inFlight = true

theorem flying_isSome {id : ℕ} : (flying g.rounds id).isSome ↔ g.InFlight id := by
  rw [flying, Option.isSome_map, Option.isSome_iff_exists]
  simp only [Option.filter_eq_some_iff, InFlight]

/-- A round that is in flight waits for one of its requests. -/
def Waits (rounds : Dict ℕ Round) : Prop :=
  ∀ id r, rounds.get id = some r → r.inFlight = true → r.outstanding = true

/-- At most one round is in flight; `isPinging` says whether one is; a tick calls back once,
when its round ends or at once; and a round in flight has a request outstanding, so that
every tick has called back when all requests have. -/
structure Probes (g : Gossip) : Prop where
  single : ∀ id id', g.InFlight id → g.InFlight id' → id = id'
  pinging : g.isPinging = true ↔ ∃ id, g.InFlight id
  called : ∀ id < g.ticks, (g.InFlight id → g.calledBack.count id = 0) ∧
    (¬ g.InFlight id → g.calledBack.count id = 1)
  waits : Waits g.rounds
  reported : (∀ id r, g.rounds.get id = some r → r.outstanding = false) →
    g.isPinging = false ∧ ∀ id < g.ticks, g.calledBack.count id = 1

/-- The answer to a ping does not make `membership.update` throw; nor does the last one to the
ping-reqs of a round without a verdict, which reaches the member or is an error as all others
were. -/
def Reports (g : Gossip) : GossipEvent → Prop
  | .pingResponse id res listed _ _ => ∀ call member,
    g.rounds.get id = some ⟨call, member, .ping⟩ → PingSender.breaks listed res = false
  | .pingReqResponse id a => ∀ call member reqs,
    g.rounds.get id = some ⟨call, member, .pingReq reqs [a.selected]⟩ → reqs.results = [] →
      a.breaks = false ∧ (a.response.confirms = true ∨
        reqs.errors.length + 1 = reqs.pingReqMembers.length)
  | _ => True

theorem Exclusive.probes (exclusive : g.Exclusive) (waits : Waits g.rounds) : g.Probes := by
  have called (id : ℕ) (begun : id < g.ticks) : (g.InFlight id → g.calledBack.count id = 0) ∧
      (¬ g.InFlight id → g.calledBack.count id = 1) := by
    rw [exclusive.called, ← flying_isSome, Option.not_isSome_iff_eq_none]
    refine ⟨fun flies => if_neg fun h => ?_, fun landed => if_pos ⟨begun, landed⟩⟩
    rw [h.2] at flies
    cases flies
  have pinging : g.isPinging = true ↔ ∃ id, g.InFlight id := by
    simpa only [flying_isSome] using exclusive.pinging
  refine ⟨fun id id' here there => ?_, pinging, called, waits, fun answered => ?_⟩
  · exact exclusive.single id id' (flying_isSome.mpr here) (flying_isSome.mpr there)
  · have landed (id : ℕ) : ¬ g.InFlight id := fun ⟨r, found, flies⟩ => by
      cases (waits id r found flies).symm.trans (answered id r found)
    refine ⟨Bool.eq_false_iff.mpr fun busy => ?_, fun id begun => (called id begun).2 (landed id)⟩
    obtain ⟨id, flies⟩ := pinging.mp busy
    exact landed id flies

theorem waits_set {rounds : Dict ℕ Round} (waits : Waits rounds) {id : ℕ} {r : Round}
    (some : r.inFlight = true → r.outstanding = true) : Waits (rounds.set id r) := by
  intro other r' h
  rw [Dict.get_set] at h
  split at h
  case isTrue =>
    obtain rfl := Option.some.inj h
    exact some
  case isFalse => exact waits other r' h

theorem waits_delete {rounds : Dict ℕ Round} (waits : Waits rounds) (id : ℕ) :
    Waits (rounds.delete id) := by
  intro other r h
  rw [Dict.get_delete] at h
  split at h
  · cases h
  · exact waits other r h

theorem not_waits_set {rounds : Dict ℕ Round} {id : ℕ} {r : Round} (flies : r.inFlight = true)
    (none : r.outstanding = false) : ¬ Waits (rounds.set id r) := fun waits => by
  have found : (rounds.set id r).get id = some r := (Dict.get_set _ _ _ _).trans (if_pos rfl)
  cases none.symm.trans (waits id r found flies)

/-- The answer to a ping leaves something to wait for exactly when its handler does not throw. -/
theorem waits_pingResponse (waits : Waits g.rounds) (id : ℕ) (res : Response)
    (listed : ListedMembers) (pingReqMembers : List Address) (incarnationNumber : ℤ) :
    Waits (g.pingResponse id res listed pingReqMembers incarnationNumber).rounds ↔
      g.Reports (.pingResponse id res listed pingReqMembers incarnationNumber) := by
  rw [pingResponse, Reports]
  rcases found : g.rounds.get id with _ | ⟨call, member, _ | _ | ⟨reqs, outstanding⟩⟩
  case none => exact iff_of_true waits fun _ _ h => by cases h
  case some.broken => exact iff_of_true waits fun _ _ h => by cases h
  case some.pingReq => exact iff_of_true waits fun _ _ h => by cases h
  case some.ping =>
    have whole : (∀ call' member', some (Round.mk call member .ping) =
        some ⟨call', member', .ping⟩ → PingSender.breaks listed res = false) ↔
        ¬ (PingSender.onPing listed res).1 = .throws := by
      rw [← PingSender.breaks_iff, Bool.not_eq_true]
      exact ⟨fun h => h call member rfl, fun h _ _ _ => h⟩
    rw [whole]
    rcases (PingSender.onPing listed res).1 with _ | _ | message
    case throws => exact iff_of_false (not_waits_set rfl rfl) fun h => h rfl
    case callsBack.none =>
      refine iff_of_true ?_ fun h => by cases h
      simpa only [finish, rounds_callBack] using waits_delete waits id
    case callsBack.some =>
      refine iff_of_true ?_ fun h => by cases h
      simp only [rounds_onPingReq]
      refine waits_set waits fun flies => ?_
      cases pingReqMembers with
      | nil => cases flies
      | cons first rest => rfl

/-- So does an answer to a ping-req. -/
theorem waits_pingReqResponse (listed : Listed g.ticks g.rounds) (waits : Waits g.rounds) (id : ℕ)
    (a : PingReqAnswer) :
    Waits (g.pingReqResponse id a).rounds ↔ g.Reports (.pingReqResponse id a) := by
  rw [pingReqResponse, Reports]
  rcases found : g.rounds.get id with _ | ⟨call, member, _ | _ | ⟨reqs, outstanding⟩⟩
  case none => exact iff_of_true waits fun _ _ _ h => by cases h
  case some.ping => exact iff_of_true waits fun _ _ _ h => by cases h
  case some.broken => exact iff_of_true waits fun _ _ _ h => by cases h
  case some.pingReq =>
    have last : (∀ call' member' reqs', some (Round.mk call member (.pingReq reqs outstanding)) =
        some ⟨call', member', .pingReq reqs' [a.selected]⟩ → reqs'.results = [] →
          a.breaks = false ∧ (a.response.confirms = true ∨
            reqs'.errors.length + 1 = reqs'.pingReqMembers.length)) ↔
        (outstanding = [a.selected] → reqs.results = [] →
          a.breaks = false ∧ (a.response.confirms = true ∨
            reqs.errors.length + 1 = reqs.pingReqMembers.length)) := by
      constructor
      · rintro h rfl
        exact h call member reqs rfl
      · rintro h _ _ _ ⟨⟩
        exact h rfl
    rw [last]
    simp only
    by_cases asked : a.selected ∈ outstanding
    case neg =>
      rw [if_neg asked]
      refine iff_of_true waits fun one => ?_
      rw [one] at asked
      exact absurd List.mem_cons_self asked
    case pos =>
      rw [if_pos asked]
      simp only [rounds_onPingReq]
      have landed {after : PingReqs} {suspects : List Address} (called : after.Called suspects) :
          after.results.isEmpty = false :=
        List.isEmpty_eq_false_iff.mpr (List.ne_nil_of_length_pos (by rw [called.results]; decide))
      rcases (listed id _ found).2.2 with pending | ⟨suspects, called⟩ | ⟨-, none⟩
      · by_cases one : outstanding = [a.selected]
        case neg =>
          refine iff_of_true (waits_set waits fun _ => ?_) fun h => absurd h one
          have left := List.length_erase_of_mem asked
          have more : outstanding.erase a.selected ≠ [] := fun none => by
            rw [none, List.length_nil] at left
            have single : outstanding.length = 1 := by
              have positive := List.length_pos_of_mem asked
              omega
            obtain ⟨b, rfl⟩ := List.length_eq_one_iff.mp single
            exact one (congrArg (fun b => [b]) (List.mem_singleton.mp asked).symm)
          simpa [Round.outstanding] using more
        case pos =>
          subst one
          simp only [pending.waiting.results, true_implies, List.erase_cons_head,
            ← pending.waiting.decided_iff pending.undecided]
          constructor
          · intro after
            refine (pending.answer asked).resolve_left fun still => ?_
            refine not_waits_set ?_ rfl after
            simp [Round.inFlight, still.waiting.results]
          · rintro ⟨suspects, called⟩
            refine waits_set waits fun flies => ?_
            cases (landed called).symm.trans flies
      · refine iff_of_true (waits_set waits fun flies => ?_) fun _ none => ?_
        · cases (landed (called.answer a)).symm.trans flies
        · have once := called.results
          rw [none] at once
          cases once
      · rw [none] at asked
        cases asked

/-- Ticks begin rounds that wait for their pings. -/
theorem waits_tick (waits : Waits g.rounds) (fromLoop : Bool) (target : Target) :
    Waits (g.tick fromLoop target).rounds := by
  rcases g.tick_cases fromLoop target with same | ⟨member, -, same⟩
  · rw [same, rounds_callBack]
    exact waits
  · rw [same]
    exact waits_set waits fun _ => rfl

theorem waits_step (listed : Listed g.ticks g.rounds) (waits : Waits g.rounds)
    (event : GossipEvent) : Waits (g.step event).rounds ↔ g.Reports event := by
  cases event with
  | start => exact iff_of_true (by rwa [step, rounds_start]) trivial
  | stop => exact iff_of_true (by rwa [step, rounds_stop]) trivial
  | fire timer target =>
    refine iff_of_true ?_ trivial
    rw [step, fire]
    split
    · exact waits
    · exact waits_tick (g := { g with queue := g.queue.clearTimeout timer }) waits true target
  | tick target => exact iff_of_true (waits_tick waits false target) trivial
  | pingResponse id res known pingReqMembers incarnationNumber =>
    exact waits_pingResponse waits id res known pingReqMembers incarnationNumber
  | pingReqResponse id a => exact waits_pingReqResponse listed waits id a

/-- Probing goes well in every state of a run exactly when no answer breaks its round off. -/
theorem after_probes_iff (events : List GossipEvent) :
    (∀ reached, reached <+: events → (after reached).Probes) ↔
      Runs.Throughout step Reports new events :=
  Runs.always_iff_throughout (fun g => g.Exclusive ∧ Waits g.rounds) Probes
    (fun _ inv => inv.1.probes inv.2)
    (fun _ event inv reports =>
      ⟨inv.1.step event, (waits_step inv.1.listed inv.2 event).mpr reports⟩)
    (fun _ event inv missed probes =>
      missed ((waits_step inv.1.listed inv.2 event).mp probes.waits))
    ⟨exclusive_new, fun _ _ h => by cases h⟩ events

/-- A ping is answered with a number for `changes`. -/
theorem after_not_probes :
    let b := Address.of "b:1" (by decide)
    let body : Json := .object [(str "changes", .number 5)]
    let answered : GossipEvent := .pingResponse 0 (.body (some body)) ⟨false, true, true⟩ [] 0
    let g := after [.tick ⟨true, some b⟩, answered]
    g.isPinging = true ∧ g.calledBack.count 0 = 0 ∧
      (∀ id r, g.rounds.get id = some r → r.outstanding = false) ∧ ¬ g.Probes := by
  intro b body answered g
  have pinging : g.isPinging = true := by decide
  have uncalled : g.calledBack.count 0 = 0 := by decide
  have none : ∀ entry ∈ g.rounds.entries, entry.2.outstanding = false := by decide
  have answered (id : ℕ) (r : Round) (found : g.rounds.get id = some r) : r.outstanding = false :=
    none _ (Dict.get_eq_some.mp found)
  refine ⟨pinging, uncalled, answered, fun probes => ?_⟩
  cases pinging.symm.trans (probes.reported answered).1

end Gossip
end Ringpop.Members
