import Ringpop.Dissemination
import Ringpop.Provenance
import Ringpop.Healer
import Ringpop.Joiner
import Ringpop.Client

/-! `server/protocol` with the senders of its requests: a ringpop instance among others.
Requests and answers are envelopes; what a request calls back with comes in like the
answer it is. -/
namespace Ringpop.Members
open JsString Dictionary

/-- What the handlers take from their ringpop instance. A pattern of the blacklist is its
text and its test. -/
structure PeerConfig where
  members : Env
  periods : Periods
  app : Str
  requiresAppInPing : Bool
  isDenyingJoins : Bool
  memberBlacklist : List (Str × (Str → Bool))
  maxReverseFullSyncJobs : ℕ

/-- The body of `/protocol/ping`. What is missing or `null` is `none`. -/
structure PingBody where
  checksum : Option ℤ
  changes : Option (List Update)
  source : Option Address
  app : Option Str
  sourceIncarnationNumber : Option ℤ
deriving DecidableEq

/-- The body of `/protocol/ping-req`. -/
structure PingReqBody where
  checksum : Option ℤ
  changes : Option (List Update)
  source : Option Address
  sourceIncarnationNumber : Option ℤ
  target : Option Address
deriving DecidableEq

/-- The body of `/protocol/join`. -/
structure JoinRequestBody where
  app : Option Str
  source : Option Str
  incarnationNumber : Option ℤ
deriving DecidableEq

inductive ProtocolError where
  | ringpopIsNotReady
  | badPingBody
  | differentApp
  | appRequired
  | badPingReqBody
  | bodyRequired
  | badJoinBody
  | denyJoin
  | selfJoin (actual : Str)
  | invalidJoinSource (actual : Str)
  | blacklisted (joiner : Str) (blacklist : List Str)
  | invalidJoinApp (expected actual : Str)
deriving DecidableEq

def ProtocolError.message : ProtocolError → Str
  | ringpopIsNotReady => str "Ringpop is not ready"
  | badPingBody => str "need req body with source, changes, and checksum"
  | differentApp => str "Pinged ringpop has a different app name"
  | appRequired => str "Pinged ringpop requires app name"
  | badPingReqBody => str "need req body with source, target, changes, and checksum"
  | bodyRequired => str "need JSON req body with source and incarnationNumber"
  | badJoinBody => str "need req body with app, source and incarnationNumber"
  | denyJoin => str "Node is currently configured to deny joins"
  | selfJoin actual =>
    str "A node tried joining a cluster by attempting to join itself. The joiner (" ++ actual ++
      str ") must join someone else."
  | invalidJoinSource actual =>
    str "A node tried joining a cluster with an invalid host-port (" ++ actual ++ str ")"
  | blacklisted joiner blacklist =>
    joiner ++ str " tried joining a cluster, but its host is part of the blacklist: " ++
      join (str ",") blacklist
  | invalidJoinApp expected actual =>
    str "A node tried joining a different app cluster. The expected app (" ++ expected ++
      str ") did not match the actual app (" ++ actual ++ str ")."

/-- The answer to `/protocol/join`. -/
structure JoinAnswerBody where
  app : Str
  coordinator : Address
  membership : List Update
  membershipChecksum : Option ℤ
deriving DecidableEq

inductive Message where
  | ping (body : PingBody)
  | pingAnswer (changes : List Update)
  | pingReq (body : PingReqBody)
  | pingReqAnswer (changes : List Update) (pingStatus : Bool) (target : Address)
  | join (body : JoinRequestBody)
  | joinAnswer (body : JoinAnswerBody)
deriving DecidableEq

/-- A message on its way. The sender of a request is where its answer goes. -/
structure Envelope where
  sender : Address
  receiver : Address
  message : Message
deriving DecidableEq

/-- A ping-req whose target is being pinged. -/
structure PendingPingReq where
  requester : Address
  source : Address
  sourceIncarnationNumber : Option ℤ
  checksum : ℤ
  target : Address

/-- A ringpop instance. The last two fields are histories: the targets of the reverse full
syncs that have not called back, and what it has said of itself, restarts included. -/
structure Peer where
  dissemination : Dissemination
  reverseFullSyncJobs : ℕ
  pingReqs : List PendingPingReq
  reverseFullSyncs : List Address
  announced : List Standing

inductive PeerEvent where
  | setLocalStatus (status : Status) (tick : Tick)
  | rejoin (tick : Tick)
  | onJoin
  | fire (timer : ℕ) (id : Str) (tick : Tick)
  | makeSuspect (ref : ℕ) (id : Str) (tick : Tick)
  | reapMember (ref : ℕ) (id : Str) (tick : Tick)
  | shuffle (order : List ℕ)
  | sendPing (target : Address)
  | sendPingReq (member target : Address)
  | sendJoin (target : Address)
  | onIssue (issue : ℕ) (err : Bool)
  | answerPingReq (pending : ℕ) (isOk : Bool)
  | onRingChanged
  | clearChanges
  | receive (envelope : Envelope) (tick : ℕ → Tick)
  | joined (answers : List Envelope) (tick : ℕ → Tick)
  | onReverseFullSync (job : ℕ) (answer : Option Envelope) (tick : ℕ → Tick)
  | heal (answer : Envelope) (tick : ℕ → Tick)
  | restart

namespace Peer
variable (config : PeerConfig)

def new : Peer := ⟨.new config.members config.periods, 0, [], [], []⟩

def node (p : Peer) : Node := p.dissemination.node

/-- Something happens to the member list, and all that hangs on it. -/
def perform (p : Peer) (event : NodeEvent) : Peer :=
  { p with
    dissemination := { p.dissemination with node := p.node.apply config.members event }
    announced := p.announced ++ p.node.announces config.members event }

def update (p : Peer) (changes : List Update) (tick : ℕ → Tick) : Peer :=
  p.perform config (.update (timed tick changes))

def getIncarnationNumber (p : Peer) : Option ℤ :=
  p.node.membership.localMember.map fun ref => (p.node.membership.heap ref).incarnationNumber

def membershipAsChanges (p : Peer) : List Update :=
  p.node.membership.membershipAsChanges config.members

/-- `PingSender.prototype.sendChanges`. -/
def sendChanges (p : Peer) (target : Address) (changes : List Update) : Envelope where
  sender := config.members.whoami
  receiver := target
  message := .ping
    { checksum := p.node.membership.checksum
      changes := some changes
      source := some config.members.whoami
      app := some config.app
      sourceIncarnationNumber := p.getIncarnationNumber }

/-- `PingSender.prototype.send`. -/
def sendPing (p : Peer) (target : Address) : Peer × List Envelope :=
  let changes := p.dissemination.handsOut config.members .issueAsSender
  let p := { p with dissemination := p.dissemination.issueAsSender }
  (p, [p.sendChanges config target changes])

/-- `PingReqSender.prototype.send`. -/
def sendPingReq (p : Peer) (member target : Address) : Peer × List Envelope :=
  let changes := p.dissemination.handsOut config.members .issueAsSender
  let p := { p with dissemination := p.dissemination.issueAsSender }
  let body : PingReqBody :=
    { checksum := p.node.membership.checksum
      changes := some changes
      source := some config.members.whoami
      sourceIncarnationNumber := p.getIncarnationNumber
      target := some target }
  (p, [⟨config.members.whoami, member, .pingReq body⟩])

/-- The join request of a bootstrap, of a reverse full sync and of a heal. -/
def sendJoin (p : Peer) (target : Address) : Envelope where
  sender := config.members.whoami
  receiver := target
  message := .join
    { app := some config.app
      source := some config.members.whoami.name
      incarnationNumber := p.getIncarnationNumber }

def tryStartReverseFullSync (p : Peer) (target : Address) : Peer × List Envelope :=
  if p.reverseFullSyncJobs ≥ config.maxReverseFullSyncJobs then (p, [])
  else
    ({ p with
        reverseFullSyncJobs := p.reverseFullSyncJobs + 1
        reverseFullSyncs := p.reverseFullSyncs ++ [target] },
      [p.sendJoin config target])

/-- `issueAsReceiver`, with the `changes` and the `fullSync` of its result. -/
def issueAsReceiver (p : Peer) (senderAddr : Address)
    (senderIncarnationNumber senderChecksum : Option ℤ) : Peer × List Update × Bool :=
  let (changes, issued, fullSync) :=
    p.dissemination.issueAsReceiver config.members senderAddr senderIncarnationNumber senderChecksum
  ({ p with
      dissemination :=
        { p.dissemination.withChanges changes with
          handedOut := p.dissemination.handedOut ++ issued } },
    issued, fullSync)

/-- The checks of `handlePing`, with what it reads from the body. -/
def checkPing (p : Peer) (body : Option PingBody) :
    Except ProtocolError (Address × List Update × ℤ × Option ℤ) :=
  if !p.node.isReady then .error .ringpopIsNotReady
  else
    match body with
    | none => .error .badPingBody
    | some body =>
      match body.source, body.changes, body.checksum with
      | some source, some changes, some checksum =>
        if source.name = [] ∨ checksum = 0 then .error .badPingBody
        else
          match body.app with
          | some app =>
            if app ≠ config.app then .error .differentApp
            else .ok (source, changes, checksum, body.sourceIncarnationNumber)
          | none =>
            if config.requiresAppInPing then .error .appRequired
            else .ok (source, changes, checksum, body.sourceIncarnationNumber)
      | _, _, _ => .error .badPingBody

/-- The requests that a handler sends come with its answer. -/
def handlePing (p : Peer) (body : Option PingBody) (tick : ℕ → Tick) :
    Peer × Except ProtocolError (List Update) × List Envelope :=
  match p.checkPing config body with
  | .error error => (p, .error error, [])
  | .ok (source, changes, checksum, sourceIncarnationNumber) =>
    let p := p.update config changes tick
    let (p, issued, fullSync) := p.issueAsReceiver config source sourceIncarnationNumber checksum
    if fullSync then
      let (p, sent) := p.tryStartReverseFullSync config source
      (p, .ok issued, sent)
    else (p, .ok issued, [])

/-- The checks of `handlePingReq`. -/
def checkPingReq (p : Peer) (requester : Address) (body : Option PingReqBody) :
    Except ProtocolError (PendingPingReq × List Update) :=
  if !p.node.isReady then .error .ringpopIsNotReady
  else
    match body with
    | none => .error .badPingReqBody
    | some body =>
      match body.source, body.target, body.changes, body.checksum with
      | some source, some target, some changes, some checksum =>
        if source.name = [] ∨ target.name = [] ∨ checksum = 0 then .error .badPingReqBody
        else .ok (⟨requester, source, body.sourceIncarnationNumber, checksum, target⟩, changes)
      | _, _, _, _ => .error .badPingReqBody

/-- The answer waits for the ping of the target. -/
def handlePingReq (p : Peer) (requester : Address) (body : Option PingReqBody)
    (tick : ℕ → Tick) : Peer × Option ProtocolError × List Envelope :=
  match p.checkPingReq requester body with
  | .error error => (p, some error, [])
  | .ok (pending, changes) =>
    let p := p.update config changes tick
    let (p, sent) := { p with pingReqs := p.pingReqs ++ [pending] }.sendPing config pending.target
    (p, none, sent)

/-- The callback of the ping that a ping-req asks for. -/
def answerPingReq (p : Peer) (pending : ℕ) (isOk : Bool) : Peer × List Envelope :=
  match p.pingReqs[pending]? with
  | none => (p, [])
  | some pingReq =>
    let (p, issued, _) := { p with pingReqs := p.pingReqs.eraseIdx pending }.issueAsReceiver config
      pingReq.source pingReq.sourceIncarnationNumber pingReq.checksum
    (p, [⟨config.members.whoami, pingReq.requester, .pingReqAnswer issued isOk pingReq.target⟩])

def validateDenyingJoins : Except ProtocolError Unit :=
  if config.isDenyingJoins then .error .denyJoin else .ok ()

def validateJoinerAddress (joiner : Str) : Except ProtocolError Unit :=
  if joiner = config.members.whoami.name then .error (.selfJoin joiner)
  else if !validateHostPort (.string joiner) then .error (.invalidJoinSource joiner)
  else if config.memberBlacklist.any fun pattern => pattern.2 joiner then
    .error (.blacklisted joiner (config.memberBlacklist.map Prod.fst))
  else .ok ()

def validateJoinerApp (app : Str) : Except ProtocolError Unit :=
  if app ≠ config.app then .error (.invalidJoinApp config.app app) else .ok ()

def handleJoin (p : Peer) (body : Option JoinRequestBody) : Except ProtocolError JoinAnswerBody :=
  match body with
  | none => .error .bodyRequired
  | some body =>
    match body.app, body.source, body.incarnationNumber with
    | some app, some source, some _ => do
      validateDenyingJoins config
      validateJoinerAddress config source
      validateJoinerApp config app
      return {
        app := config.app
        coordinator := config.members.whoami
        membership := p.membershipAsChanges config
        membershipChecksum := p.node.membership.checksum }
    | _, _, _ => .error .badJoinBody

/-- `processChanges` of a heal attempt, with the changes that the target is pinged with. -/
def processHeal (p : Peer) (membershipB : List Update) (tick : ℕ → Tick) :
    Peer × Option (List Update) :=
  let (changesForA, changesForB) := generateChanges (p.membershipAsChanges config) membershipB
  if changesForA.length > 0 ∨ changesForB.length > 0 then
    -- reincarnate
    (if changesForA.length > 0 then p.update config changesForA tick else p,
      if changesForB.length > 0 then some changesForB else none)
  else
    -- merge
    let p := p.update config membershipB tick
    (p, some (p.membershipAsChanges config))

/-- An answer goes to the sender of the request; without one, the request fails. -/
def reply {α : Type} (request : Envelope) (message : α → Message) :
    Except ProtocolError α → List Envelope
  | .ok answer => [⟨request.receiver, request.sender, message answer⟩]
  | .error _ => []

/-- The handlers of requests, and the callbacks of pings and ping-reqs. -/
def receive (p : Peer) (envelope : Envelope) (tick : ℕ → Tick) : Peer × List Envelope :=
  match envelope.message with
  | .ping body =>
    let (p, answer, sent) := p.handlePing config (some body) tick
    (p, reply envelope .pingAnswer answer ++ sent)
  | .pingReq body =>
    let (p, _, sent) := p.handlePingReq config envelope.sender (some body) tick
    (p, sent)
  | .join body => (p, reply envelope .joinAnswer (p.handleJoin config (some body)))
  | .pingAnswer changes => (p.update config changes tick, [])
  | .pingReqAnswer changes _ _ => (p.update config changes tick, [])
  -- what is done with it depends on who asked
  | .joinAnswer _ => (p, [])

def joinAnswers (answers : List Envelope) : List JoinResponse :=
  answers.filterMap fun answer =>
    match answer.message with
    | .joinAnswer body => some ⟨body.membershipChecksum, body.membership⟩
    | _ => none

/-- The end of a join, where the answers are merged. -/
def onJoined (p : Peer) (answers : List Envelope) (tick : ℕ → Tick) : Peer :=
  p.update config (mergeJoinResponses config.members.whoami (some (joinAnswers answers))) tick

/-- The end of a reverse full sync; there is no answer when its request fails. -/
def onReverseFullSync (p : Peer) (job : ℕ) (answer : Option Envelope) (tick : ℕ → Tick) : Peer :=
  match p.reverseFullSyncs[job]? with
  | none => p
  | some _ =>
    let p := match joinAnswers answer.toList with
      | response :: _ => p.update config response.members tick
      | [] => p
    { p with
      reverseFullSyncJobs := p.reverseFullSyncJobs - 1
      reverseFullSyncs := p.reverseFullSyncs.eraseIdx job }

/-- `generateChanges` and what follows it. -/
def heal (p : Peer) (answer : Envelope) (tick : ℕ → Tick) : Peer × List Envelope :=
  match answer.message with
  | .joinAnswer body =>
    let (p, changes) := p.processHeal config body.membership tick
    (p, changes.toList.map (p.sendChanges config answer.sender))
  | _ => (p, [])

/-- `ref` is the member object that a ping was sent to; it may have left the list. -/
def makeSuspect (p : Peer) (ref : ℕ) (id : Str) (tick : Tick) : Peer :=
  if ref < p.node.membership.next then
    let unreachableMember := p.node.membership.heap ref
    p.perform config
      (.makeSuspect unreachableMember.address unreachableMember.incarnationNumber id tick)
  else p

/-- The body of the loop of `handleReap`. -/
def reapMember (p : Peer) (ref : ℕ) (id : Str) (tick : Tick) : Peer :=
  let member := p.node.membership.heap ref
  if ref ∈ p.node.membership.members ∧ member.status = .faulty then
    p.perform config (.makeTombstone member.address member.incarnationNumber id tick)
  else p

/-- `logarithm` is the one of `adjustMaxPiggybackCount`. -/
def step (logarithm : ℕ → ℕ) (p : Peer) : PeerEvent → Peer × List Envelope
  | .setLocalStatus status tick => (p.perform config (.setLocalStatus status tick), [])
  | .rejoin tick => (p.perform config (.handleJoin tick), [])
  | .onJoin => (p.perform config .onJoin, [])
  | .fire timer id tick => (p.perform config (.fire timer id tick), [])
  | .makeSuspect ref id tick => (p.makeSuspect config ref id tick, [])
  | .reapMember ref id tick => (p.reapMember config ref id tick, [])
  | .shuffle order =>
    let membership := p.node.membership.shuffle order
    ({ p with dissemination :=
        { p.dissemination with node := { p.node with membership := membership } } }, [])
  | .sendPing target => p.sendPing config target
  | .sendPingReq member target => p.sendPingReq config member target
  | .sendJoin target => (p, [p.sendJoin config target])
  | .onIssue issue err => ({ p with dissemination := p.dissemination.onIssue issue err }, [])
  | .answerPingReq pending isOk => p.answerPingReq config pending isOk
  | .onRingChanged =>
    ({ p with dissemination := p.dissemination.adjustMaxPiggybackCount logarithm }, [])
  | .clearChanges => ({ p with dissemination := p.dissemination.clearChanges }, [])
  | .receive envelope tick => p.receive config envelope tick
  | .joined answers tick => (p.onJoined config answers tick, [])
  | .onReverseFullSync job answer tick => (p.onReverseFullSync config job answer tick, [])
  | .heal answer tick => p.heal config answer tick
  | .restart => ({ new config with announced := p.announced }, [])

end Peer
end Ringpop.Members
