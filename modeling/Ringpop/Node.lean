import Ringpop.StateTransitions
import Ringpop.HashRing

/-! A node: the member list with what `lib/on_membership_event.js` keeps in step with
it, the hash ring, the state transitions and the changes to disseminate. -/
namespace Ringpop.Members
open JsString Dictionary Ringpop.Ring

/-- An entry of `dissemination.changes`. -/
structure RecordedChange where
  change : Update
  piggybackCount : ℕ
deriving DecidableEq

structure Node where
  isReady : Bool
  membership : Membership
  ring : HashRing
  stateTransitions : StateTransitions
  changes : Dict Address RecordedChange

/-- `new Ring({hashFunc})`; the number of replica points is left to its default. -/
def Env.ringOptions (env : Env) : Options := ⟨0, env.hashFunc⟩

namespace Node

def new (env : Env) (periods : Periods) : Node where
  isReady := false
  membership := .new env
  ring := .new
  stateTransitions := .new periods
  changes := .empty

variable (env : Env)

/-- `Dissemination.recordChange`. -/
def recordChange (node : Node) (change : Update) : Node :=
  { node with changes := node.changes.set change.address ⟨change, 0⟩ }

def handleUpdate (node : Node) (update : Update) : Node :=
  { node with stateTransitions := node.stateTransitions.handleUpdate env.whoami update }

def addRemoveServers (node : Node) (serversToAdd serversToRemove : List Str) : Node :=
  if serversToAdd.length > 0 ∨ serversToRemove.length > 0 then
    { node with
      ring := (node.ring.addRemoveServers env.ringOptions serversToAdd serversToRemove).1 }
  else node

def serversToAdd (updates : List Update) : List Str :=
  (updates.filter fun u => u.status = .alive ∨ u.status = .suspect).map fun u => u.address.name

def serversToRemove (updates : List Update) : List Str :=
  (updates.filter fun u => u.status = .faulty ∨ u.status = .leave ∨ u.status = .tombstone).map
    fun u => u.address.name

def onMembershipSet (node : Node) (updates : List Update) : Node :=
  (updates.foldl (handleUpdate env) node).addRemoveServers env (serversToAdd updates) []

/-- `createUpdatedHandlerForGossip`. -/
def onUpdatedForGossip (node : Node) (updates : List Update) : Node :=
  updates.foldl (fun node update => (node.handleUpdate env update).recordChange update) node

/-- `createUpdatedHandlerForRing`. -/
def onUpdatedForRing (node : Node) (updates : List Update) : Node :=
  node.addRemoveServers env (serversToAdd updates) (serversToRemove updates)

/-- The handlers in the order in which `register` attaches them. -/
def handle (node : Node) : MembershipEvent → Node
  | .checksumComputed _ _ => node
  | .localMemberLeave _ => { node with stateTransitions := node.stateTransitions.disable }
  | .memberReusable _ _ => node
  | .memberSuppressLimitExceeded _ => node
  | .set updates => node.onMembershipSet env updates
  | .updated updates => (node.onUpdatedForGossip env updates).onUpdatedForRing env updates

/-- An operation of the member list, and the handlers of the events it emits. -/
def emit (node : Node) (result : Membership × List MembershipEvent) : Node :=
  result.2.foldl (handle env) { node with membership := result.1 }

def setLocalStatus (node : Node) (status : Status) (tick : Tick) : Node :=
  node.emit env (node.membership.setLocalStatus env tick status)

def update (node : Node) (changes : List (Update × Tick)) : Node :=
  let (m, _, events) := node.membership.update env node.isReady changes
  node.emit env (m, events)

def makeSuspect (node : Node) (address : Address) (incarnationNumber : ℤ) (id : Str)
    (tick : Tick) : Node :=
  let (m, _, events) :=
    Membership.makeSuspect env node.isReady node.membership address incarnationNumber id tick
  node.emit env (m, events)

def makeFaulty (node : Node) (address : Address) (incarnationNumber : ℤ) (id : Str)
    (tick : Tick) : Node :=
  let (m, _, events) :=
    Membership.makeFaulty env node.isReady node.membership address incarnationNumber id tick
  node.emit env (m, events)

def makeTombstone (node : Node) (address : Address) (incarnationNumber : ℤ) (id : Str)
    (tick : Tick) : Node :=
  let (m, _, events) :=
    Membership.makeTombstone env node.isReady node.membership address incarnationNumber id tick
  node.emit env (m, events)

/-- The end of `bootstrap`, which has made the local member alive at its start. -/
def onJoin (node : Node) : Node :=
  match node.membership.localMember with
  | none => node
  | some _ => { node.emit env (node.membership.set env node.isReady) with isReady := true }

/-- A timer fires; nothing happens when it has fired before or has been cleared. -/
def fire (node : Node) (timer : ℕ) (id : Str) (tick : Tick) : Node :=
  match node.stateTransitions.queue.callback timer with
  | none => node
  | some timeout =>
    let node := { node with stateTransitions := node.stateTransitions.expire timer }
    match timeout.transition with
    | .suspectToFaulty address incarnationNumber =>
      node.makeFaulty env address incarnationNumber id tick
    | .faultyToTombstone address incarnationNumber =>
      node.makeTombstone env address incarnationNumber id tick
    | .tombstoneToEvict address => node.emit env (node.membership.evict env address)

/-- `handleJoin` of `server/admin/member.js`. -/
def handleJoin (node : Node) (tick : Tick) : Node :=
  match node.membership.localMember with
  | none => node
  | some ref =>
    if (node.membership.heap ref).status = .leave then
      let node := node.emit env (node.membership.makeLocalAlive env tick)
      { node with stateTransitions := node.stateTransitions.enable }
    else node

end Node

inductive NodeEvent where
  | setLocalStatus (status : Status) (tick : Tick)
  | update (changes : List (Update × Tick))
  | makeSuspect (address : Address) (incarnationNumber : ℤ) (id : Str) (tick : Tick)
  | makeFaulty (address : Address) (incarnationNumber : ℤ) (id : Str) (tick : Tick)
  | makeTombstone (address : Address) (incarnationNumber : ℤ) (id : Str) (tick : Tick)
  | onJoin
  | fire (timer : ℕ) (id : Str) (tick : Tick)
  | handleJoin (tick : Tick)

namespace Node
variable (env : Env)

def apply (node : Node) : NodeEvent → Node
  | .setLocalStatus status tick => node.setLocalStatus env status tick
  | .update changes => node.update env changes
  | .makeSuspect address inc id tick => node.makeSuspect env address inc id tick
  | .makeFaulty address inc id tick => node.makeFaulty env address inc id tick
  | .makeTombstone address inc id tick => node.makeTombstone env address inc id tick
  | .onJoin => node.onJoin env
  | .fire timer id tick => node.fire env timer id tick
  | .handleJoin tick => node.handleJoin env tick

/-- A node after a sequence of events. -/
def run (periods : Periods) (events : List NodeEvent) : Node :=
  events.foldl (apply env) (new env periods)

end Node
end Ringpop.Members
