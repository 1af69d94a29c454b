import Ringpop.JoinBodies
import Ringpop.TimerQueue
import Mathlib.Data.Rat.Cast.Order

/-! `lib/gossip/joiner.js`: a node joins other hosts of its bootstrap list, group by group,
until it has joined enough of them or has tried for too long. -/
namespace Ringpop.Members
open JsString Dictionary

/-- `\d+` with the separator that ends it: the digits, and what comes after the separator. -/
def digitsBefore (separator s : Str) : Option (Str × Str) :=
  let digits := s.takeWhile isDigit
  let rest := s.dropWhile isDigit
  if digits ≠ [] ∧ rest.take 1 = separator then some (digits, rest.drop 1) else none

/-- `HOST_CAPTURE` at the start of a string. -/
def captureHostHere (s : Str) : Option Str := do
  let (first, s) ← digitsBefore (str ".") s
  let (second, s) ← digitsBefore (str ".") s
  let (third, s) ← digitsBefore (str ".") s
  let (fourth, s) ← digitsBefore (str ":") s
  if (s.take 1).any isDigit then some (join (str ".") [first, second, third, fourth]) else none

def captureHost : Str → Option Str
  | [] => none
  | c :: s => (captureHostHere (c :: s)).or (captureHost s)

/-- What a joiner takes from its ringpop instance and the configuration. -/
structure JoinEnv where
  hostPort : Address
  app : Str
  bootstrapHosts : List Str
  joinDelayMin : ℕ
  joinDelayMax : ℕ
  maxJoinDuration : ℤ
  tchannelRetryLimit : ℕ

structure JoinerOptions where
  joinSize : Option ℕ
  parallelismFactor : Option ℚ
  joinTimeout : Option ℕ

/-- What a pass of the code reads from outside: the clock, `Math.random` as often as it is
called, and the incarnation number of the local member; the list, if the node has become ready
in the meantime; and what a merge comes to where objects describe no member. -/
structure JoinDraw where
  now : ℤ
  random : ℕ → ℕ
  incarnationNumber : ℤ
  listed : Option ListedMembers
  otherwise : Option (List Change)

/-- `membership.update` returns; it only stashes the changes of a node that is not ready. -/
def JoinDraw.updates (draw : JoinDraw) (changes : List Change) : Bool :=
  match draw.listed with
  | none => true
  | some listed => listed.returns changes

structure JoinRequest where
  host : Str
  retryLimit : ℕ
  timeout : ℕ
  app : Str
  source : Str
  incarnationNumber : ℤ

/-- How a request ends; `safeParse` makes `null` of an empty body. -/
inductive JoinAnswer where
  | error
  | response (res : Json)

/-- What is kept of an answer. -/
def JoinAnswer.body : JoinAnswer → Option JoinBody
  | .error => none
  | .response res =>
    if Json.truthy (some res) then
      some { checksum := Json.field (str "membershipChecksum") (some res)
             members := Json.field (str "membership") (some res) }
    else none

/-- What `join` calls back with; `single` is the empty call in a cluster of one node. -/
inductive JoinResult where
  | aborted (reason : Str)
  | durationExceeded (joinDuration maxJoinDuration : ℤ)
  | single
  | joined (nodesJoined : List Str)

/-- What the constructor throws. -/
structure InvalidOptionError where
  option : Str
  reason : Str

/-- The lists are `null` in the source before the first round. -/
structure Joiner where
  joinTimeout : ℕ
  parallelismFactor : ℚ
  potentialNodes : List Str
  preferredNodes : List Str
  nonPreferredNodes : List Str
  joinSize : ℕ
  roundPreferredNodes : List Str
  roundNonPreferredNodes : List Str
  joinResponses : Option (List JoinBody)
  joinDelay : ℕ
  joinRetries : ℕ

/-- The host that is taken, and the hosts that are left. -/
def takeNode (random : ℕ) (hosts : List Str) : Option Str × List Str :=
  let index := random % hosts.length
  (hosts[index]?, hosts.eraseIdx index)

/-- The loop of `selectGroup`; a pass takes one of the nodes that are available, which
bounds the passes. -/
def selectNodes (limit : ℚ) (random : ℕ → ℕ) :
    ℕ → List Str → List Str → List Str → List Str × List Str × List Str
  | 0, group, preferredNodes, nonPreferredNodes => (group, preferredNodes, nonPreferredNodes)
  | available + 1, group, preferredNodes, nonPreferredNodes =>
    if (group.length : ℚ) = limit then (group, preferredNodes, nonPreferredNodes)
    else if preferredNodes.length > 0 then
      let (host, preferredNodes) := takeNode (random group.length) preferredNodes
      selectNodes limit random available (group ++ host.toList) preferredNodes nonPreferredNodes
    else if nonPreferredNodes.length > 0 then
      let (host, nonPreferredNodes) := takeNode (random group.length) nonPreferredNodes
      selectNodes limit random available (group ++ host.toList) preferredNodes nonPreferredNodes
    else (group, preferredNodes, nonPreferredNodes)

def isSingleNodeCluster (env : JoinEnv) : Bool := env.bootstrapHosts = [env.hostPort.name]

namespace Joiner
variable (env : JoinEnv)

def collectPotentialNodes (nodesJoined : List Str) : List Str :=
  env.bootstrapHosts.filter fun hostPort =>
    env.hostPort.name != hostPort && !nodesJoined.contains hostPort

def collectPreferredNodes (j : Joiner) : List Str :=
  j.potentialNodes.filter fun hostPort => captureHost env.hostPort.name ≠ captureHost hostPort

def collectNonPreferredNodes (j : Joiner) : List Str :=
  if j.preferredNodes = [] then j.potentialNodes
  else j.potentialNodes.filter fun hostPort => !j.preferredNodes.contains hostPort

def init (j : Joiner) (nodesJoined : List Str) : Joiner :=
  let j := { j with potentialNodes := collectPotentialNodes env nodesJoined }
  let j := { j with preferredNodes := j.collectPreferredNodes env }
  let j := { j with nonPreferredNodes := j.collectNonPreferredNodes }
  { j with
    roundPreferredNodes := j.preferredNodes
    roundNonPreferredNodes := j.nonPreferredNodes }

def new (options : JoinerOptions) : Except InvalidOptionError Joiner :=
  if env.bootstrapHosts = [] then
    .error ⟨str "ringpop", str "`bootstrapHosts` is expected to be an array of size 1 or more"⟩
  else
    let potentialNodes := collectPotentialNodes env []
    .ok
      { joinTimeout := options.joinTimeout.getD 1000
        parallelismFactor := options.parallelismFactor.getD 2
        potentialNodes := potentialNodes
        preferredNodes := []
        nonPreferredNodes := []
        joinSize := min (options.joinSize.getD 3) potentialNodes.length
        roundPreferredNodes := []
        roundNonPreferredNodes := []
        joinResponses := some []
        joinDelay := env.joinDelayMin
        joinRetries := 0 }

def numNodesLeft (j : Joiner) (nodesJoined : List Str) : ℤ := j.joinSize - nodesJoined.length

/-- `selectGroup` from the nodes of the current round. -/
def select (j : Joiner) (draw : JoinDraw) (nodesJoined : List Str) : List Str × Joiner :=
  let (group, preferredNodes, nonPreferredNodes) :=
    selectNodes (j.numNodesLeft nodesJoined * j.parallelismFactor) draw.random
      (j.roundPreferredNodes.length + j.roundNonPreferredNodes.length) []
      j.roundPreferredNodes j.roundNonPreferredNodes
  (group, { j with
    roundPreferredNodes := preferredNodes, roundNonPreferredNodes := nonPreferredNodes })

def selectGroup (j : Joiner) (draw : JoinDraw) (nodesJoined : List Str) : List Str × Joiner :=
  if j.roundPreferredNodes = [] ∧ j.roundNonPreferredNodes = [] then
    (j.init env nodesJoined).select draw nodesJoined
  else j.select draw nodesJoined

/-- The request of `joinNode`. -/
def request (j : Joiner) (draw : JoinDraw) (node : Str) : JoinRequest where
  host := node
  retryLimit := env.tchannelRetryLimit
  timeout := j.joinTimeout
  app := env.app
  source := env.hostPort.name
  incarnationNumber := draw.incarnationNumber

/-- The exponential delay with its fuzz, half of it at most. -/
def backOff (j : Joiner) (draw : JoinDraw) : Joiner :=
  let newDelay := env.joinDelayMin * 2 ^ j.joinRetries
  let withFuzz := (if newDelay = 0 then 0 else draw.random 0 % ((newDelay + 1) / 2)) + newDelay
  { j with joinDelay := min env.joinDelayMax withFuzz }

/-- What `joinNode` does with a response before it calls back. -/
def keepResponse (j : Joiner) (answer : JoinAnswer) : Joiner :=
  { j with joinResponses := j.joinResponses.map (· ++ answer.body.toList) }

end Joiner

/-- One call of `joinGroup`, with the requests that have not been answered and the number
of times that it has called back. -/
structure JoinGroup where
  totalNodesJoined : List Str
  group : List Str
  numNodesLeft : ℤ
  nodesJoined : List Str
  nodesFailed : List Str
  outstanding : List JoinRequest
  calledBack : Bool
  callbacks : ℕ

def JoinGroup.push (g : JoinGroup) (node : Str) : JoinAnswer → JoinGroup
  | .error => { g with nodesFailed := g.nodesFailed ++ [node] }
  | .response _ => { g with nodesJoined := g.nodesJoined ++ [node] }

/-- The `onJoin` of `joinGroup`, and whether it calls back. -/
def JoinGroup.onJoin (g : JoinGroup) (node : Str) (answer : JoinAnswer) : JoinGroup × Bool :=
  if g.calledBack then (g, false)
  else
    let g := g.push node answer
    let numCompleted := g.nodesJoined.length + g.nodesFailed.length
    if (g.nodesJoined.length : ℤ) ≥ g.numNodesLeft ∨ numCompleted ≥ g.group.length then
      ({ g with calledBack := true, callbacks := g.callbacks + 1 }, true)
    else (g, false)

/-- A call of `join`: its variables, the groups, the retry timer, the changes that it hands
to `membership.update`, and what it has called back with. -/
structure Joining where
  joiner : Joiner
  destroyed : Bool
  nodesJoined : List Str
  numGroups : ℕ
  numJoined : ℕ
  numFailed : ℕ
  startTime : ℤ
  calledBack : Bool
  groups : List JoinGroup
  queue : TimerQueue Unit
  updates : List Change
  results : List JoinResult

namespace Joining
variable (env : JoinEnv)

def callBack (p : Joining) (result : JoinResult) : Joining :=
  { p with calledBack := true, results := p.results ++ [result] }

def joinGroup (p : Joining) (draw : JoinDraw) : Joining :=
  let (group, joiner) := p.joiner.selectGroup env draw p.nodesJoined
  { p with
    joiner := joiner
    groups := p.groups ++ [
      { totalNodesJoined := p.nodesJoined
        group := group
        numNodesLeft := joiner.numNodesLeft p.nodesJoined
        nodesJoined := []
        nodesFailed := []
        outstanding := group.map (joiner.request env draw)
        calledBack := false
        callbacks := 0 }] }

/-- The `onJoin` of `join`; a group never calls back with an error. -/
def onJoin (p : Joining) (draw : JoinDraw) (successes failures : List Str) : Joining :=
  if p.calledBack then p
  else if p.destroyed then p.callBack (.aborted (str "joiner was destroyed"))
  else
    let p := { p with
      nodesJoined := p.nodesJoined ++ successes
      numJoined := p.numJoined + successes.length
      numFailed := p.numFailed + failures.length
      numGroups := p.numGroups + 1 }
    if p.numJoined ≥ p.joiner.joinSize then
      match JoinBody.mergeJoinResponses env.hostPort draw.otherwise p.joiner.joinResponses with
      -- it throws, and so may the update
      | none => p
      | some updates =>
        let p := { p with updates := updates }
        if draw.updates updates then
          callBack { p with joiner := { p.joiner with joinResponses := none } }
            (.joined p.nodesJoined)
        else p
    else
      let joinDuration := draw.now - p.startTime
      if joinDuration > env.maxJoinDuration then
        p.callBack (.durationExceeded joinDuration env.maxJoinDuration)
      else { p with joiner := p.joiner.backOff env draw, queue := p.queue.setTimeout () }

/-- The request at a position of a group is answered; it is not outstanding any more. -/
def answer (p : Joining) (draw : JoinDraw) (group request : ℕ) (answer : JoinAnswer) : Joining :=
  match p.groups[group]? with
  | none => p
  | some g =>
    match g.outstanding[request]? with
    | none => p
    | some asked =>
      let (g, calls) :=
        { g with outstanding := g.outstanding.eraseIdx request }.onJoin asked.host answer
      let p := { p with
        joiner := p.joiner.keepResponse answer
        groups := p.groups.set group g }
      if calls then p.onJoin env draw g.nodesJoined g.nodesFailed else p

/-- The retry timer fires; nothing happens when it has fired before. -/
def onTimeout (p : Joining) (draw : JoinDraw) (timer : ℕ) : Joining :=
  match p.queue.callback timer with
  | none => p
  | some () =>
    joinGroup env { p with
      queue := p.queue.clearTimeout timer
      joiner := { p.joiner with joinRetries := p.joiner.joinRetries + 1 } } draw

/-- The start of `join`. A callback on the next tick counts as called. -/
def join (joiner : Joiner) (destroyed : Bool) (draw : JoinDraw) : Joining :=
  let p : Joining :=
    { joiner := joiner
      destroyed := destroyed
      nodesJoined := []
      numGroups := 0
      numJoined := 0
      numFailed := 0
      startTime := draw.now
      calledBack := false
      groups := []
      queue := .empty
      updates := []
      results := [] }
  if destroyed then p.callBack (.aborted (str "joiner was destroyed"))
  else if isSingleNodeCluster env then p.callBack .single
  else p.joinGroup env draw

end Joining

inductive JoinEvent where
  | destroy
  | answer (draw : JoinDraw) (group request : ℕ) (answer : JoinAnswer)
  | onTimeout (draw : JoinDraw) (timer : ℕ)

namespace Joining

def step (env : JoinEnv) (p : Joining) : JoinEvent → Joining
  | .destroy => { p with destroyed := true }
  | .answer draw group request answer => p.answer env draw group request answer
  | .onTimeout draw timer => p.onTimeout env draw timer

/-- `joinCluster`, and what happens after it. -/
def run (env : JoinEnv) (options : JoinerOptions) (destroyed : Bool) (draw : JoinDraw)
    (events : List JoinEvent) : Except InvalidOptionError Joining := do
  let joiner ← Joiner.new env options
  return events.foldl (step env) (join env joiner destroyed draw)

end Joining
end Ringpop.Members
