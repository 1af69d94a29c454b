import Ringpop.HashRing
import Ringpop.Member
import Mathlib.Logic.Function.Basic

/-! `lib/request-proxy` and `handleOrProxy` of `index.js`: requests are forwarded to the
owner of their key. Nodes, bodies, identifications, sends and timers take turns, so a
forward is a record with a phase, and a message once sent may arrive at any time. -/
namespace Ringpop.Forwarding
open JsString Dictionary Ringpop.Ring Ringpop.Members

structure HttpRequest where
  url : Str
  headers : List (Str × Str)
  method : Str
  httpVersion : Str
deriving DecidableEq

structure RawHead extends HttpRequest where
  ringpopChecksum : Option ℤ
  ringpopKeys : List Str
deriving DecidableEq

def rawHead (req : HttpRequest) (checksum : Option ℤ) (keys : List Str) : RawHead :=
  { req with ringpopChecksum := checksum, ringpopKeys := keys }

/-- Of `retrySchedule` only the length decides what is done. -/
structure RequestProxyOptions where
  maxRetries : Option ℕ
  retrySchedule : Option ℕ
  enforceConsistency : Option Bool
  enforceKeyConsistency : Option Bool

structure RequestProxy where
  maxRetries : Option ℕ
  retrySchedule : Option ℕ
  enforceConsistency : Bool
  enforceKeyConsistency : Bool
  numInflightRequests : ℤ

/-- What back pressure depends on: the configuration and the lag sampler at one moment. -/
structure Load where
  backpressureEnabled : Bool
  maxInflightRequests : ℤ
  maxEventLoopLag : ℤ
  currentLag : ℤ

/-- The options of `handleOrProxy` that override those of the proxy. -/
structure ProxyOpts where
  maxRetries : Option ℕ
  retrySchedule : Option ℕ
  skipLookupOnRetry : Bool

inductive Direction where
  | egress | ingress
deriving DecidableEq

inductive Metric where
  | inflight | eventloop
deriving DecidableEq

structure TooManyRequests where
  egressOrIngress : Direction
  max : ℤ
  metric : Metric
deriving DecidableEq

namespace RequestProxy

def new (opts : RequestProxyOptions) : RequestProxy where
  maxRetries := opts.maxRetries
  retrySchedule := opts.retrySchedule
  enforceConsistency := opts.enforceConsistency.getD true
  enforceKeyConsistency := opts.enforceKeyConsistency.getD false
  numInflightRequests := 0

def decrementInflightRequests (proxy : RequestProxy) : RequestProxy :=
  let num := proxy.numInflightRequests - 1
  { proxy with numInflightRequests := if num < 0 then 0 else num }

def incrementInflightRequests (proxy : RequestProxy) (load : Load) : RequestProxy :=
  let num := proxy.numInflightRequests + 1
  { proxy with
    numInflightRequests :=
      if num > load.maxInflightRequests then load.maxInflightRequests else num }

def shouldRespondWithTooManyReqs (proxy : RequestProxy) (load : Load) (direction : Direction) :
    Option TooManyRequests :=
  if load.backpressureEnabled ∧ proxy.numInflightRequests + 1 > load.maxInflightRequests then
    some ⟨direction, load.maxInflightRequests, .inflight⟩
  else if load.backpressureEnabled ∧ load.currentLag > load.maxEventLoopLag then
    some ⟨direction, load.maxEventLoopLag, .eventloop⟩
  else none

end RequestProxy

variable (o : Options)

/-- `RingPop.lookup`; an empty ring, or an empty name, gives the node itself. -/
def lookup (whoami : Address) (ring : HashRing) (key : Str) : Str :=
  match ring.lookup o key with
  | none => whoami.name
  | some dest => if dest = [] then whoami.name else dest

/-- How `handleRequest` ends. Only `request` hands the request to the application. -/
inductive Ingress where
  | invalidCheckSum (expected actual : Option ℤ)
  | invalidKey (target whoami : Str)
  | tooManyRequests (error : TooManyRequests)
  | request (httpRequest : HttpRequest) (body : Str) (head : RawHead)
deriving DecidableEq

def handleRequest (whoami : Address) (ring : HashRing) (proxy : RequestProxy) (load : Load)
    (head : RawHead) (body : Str) : RequestProxy × Ingress :=
  if head.ringpopChecksum ≠ ring.checksum ∧ proxy.enforceConsistency then
    (proxy, .invalidCheckSum ring.checksum head.ringpopChecksum)
  else
    -- the first key of another owner is reported, and refused only on request
    match head.ringpopKeys.find? fun key => lookup o whoami ring key ≠ whoami.name with
    | some key =>
      if proxy.enforceKeyConsistency then
        (proxy, .invalidKey (lookup o whoami ring key) whoami.name)
      else proceed
    | none => proceed
where
  proceed : RequestProxy × Ingress :=
    match proxy.shouldRespondWithTooManyReqs load .ingress with
    | some error => (proxy, .tooManyRequests error)
    | none => (proxy.incrementInflightRequests load, .request head.toHttpRequest body head)

/-- `destination` and `chosen` of a phase: where the attempt goes, and the ring of the
sender when that destination was looked up, which the code does not keep. -/
inductive Phase where
  | readingBody
  | identifying (destination : Str) (chosen : HashRing)
  | sent
  | retryScheduled
  | handledLocally
  | done

/-- A `RequestProxySend`, from the call of `proxyReq` on. `looked` is the ring of the
sender when `host` was looked up. -/
structure Forward where
  sender : Address
  keys : List Str
  host : Str
  looked : HashRing
  request : HttpRequest
  body : Str
  maxRetries : ℕ
  skipLookupOnRetry : Bool
  numRetries : ℕ
  phase : Phase

/-- A request on its way. The rings of its sender when the destination was looked up and
when the head was built go with it; the receiver does not see them. -/
structure Message where
  destination : Str
  head : RawHead
  body : Str
  chosen : HashRing
  built : HashRing

/-- Nodes with their rings and proxies, forwards by number, and all messages so far:
the transport may deliver a message late, repeatedly or never. `ingress` lists the
requests the application has, with the forward that waits for it in the same node. -/
structure Cluster where
  ring : Address → HashRing
  proxy : Address → RequestProxy
  forwards : List Forward
  messages : List Message
  ingress : List (Address × Option ℕ)

inductive Event where
  | ringChange (node : Address) (op : Op)
  | handleOrProxy (sender : Address) (key : Str) (req : HttpRequest) (opts : ProxyOpts)
      (load : Load)
  | onBody (forward : ℕ) (rawBody : Option Str) (destroyed : Bool)
  | onRequest (forward : ℕ) (err : Bool)
  | onSend (forward : ℕ) (ok : Bool)
  | onTimeout (forward : ℕ) (destroyed : Bool) (load : Load)
  | deliver (message : ℕ) (receiver : Address) (load : Load)
  | onResponse (ingress : ℕ)

namespace Cluster

def new (opts : Address → RequestProxyOptions) : Cluster where
  ring _ := .new
  proxy a := .new (opts a)
  forwards := []
  messages := []
  ingress := []

def setForward (c : Cluster) (i : ℕ) (f : Forward) : Cluster :=
  { c with forwards := c.forwards.set i f }

def setProxy (c : Cluster) (a : Address) (proxy : RequestProxy) : Cluster :=
  { c with proxy := Function.update c.proxy a proxy }

/-- `onProxy`: the forward has its result. -/
def onProxy (c : Cluster) (i : ℕ) (f : Forward) : Cluster :=
  (c.setForward i { f with phase := .done }).setProxy f.sender
    (c.proxy f.sender).decrementInflightRequests

def proxyReq (c : Cluster) (sender : Address) (keys : List Str) (dest : Str) (req : HttpRequest)
    (opts : ProxyOpts) (load : Load) : Cluster :=
  let proxy := c.proxy sender
  match proxy.shouldRespondWithTooManyReqs load .egress with
  | some _ => c
  | none =>
    let schedule := (opts.retrySchedule.or proxy.retrySchedule).getD 3
    let send : Forward :=
      { sender := sender
        keys := keys
        host := dest
        looked := c.ring sender
        request := req
        body := []
        maxRetries := (opts.maxRetries.or proxy.maxRetries).getD schedule
        skipLookupOnRetry := opts.skipLookupOnRetry
        numRetries := 0
        phase := .readingBody }
    { c.setProxy sender (proxy.incrementInflightRequests load) with
      forwards := c.forwards ++ [send] }

/-- `true` from the code, a request the caller handles itself, leaves the cluster as it is. -/
def handleOrProxy (c : Cluster) (sender : Address) (key : Str) (req : HttpRequest)
    (opts : ProxyOpts) (load : Load) : Cluster :=
  let dest := lookup o sender (c.ring sender) key
  if sender.name = dest then c else c.proxyReq sender [key] dest req opts load

def send (c : Cluster) (i : ℕ) (f : Forward) (destination : Str) (chosen : HashRing)
    (destroyed : Bool) : Cluster :=
  if destroyed then c.onProxy i f
  else c.setForward i { f with phase := .identifying destination chosen }

/-- `handleRequest` on the node `receiver`, with the message when the application gets it. -/
def receive (c : Cluster) (receiver : Address) (message : Message) (forward : Option ℕ)
    (load : Load) : Cluster × Option (Address × Message) :=
  let (proxy, result) :=
    handleRequest o receiver (c.ring receiver) (c.proxy receiver) load message.head message.body
  match result with
  | .request _ _ _ =>
    ({ c.setProxy receiver proxy with ingress := c.ingress ++ [(receiver, forward)] },
      some (receiver, message))
  | _ => (c.setProxy receiver proxy, none)

def getHead (c : Cluster) (f : Forward) : RawHead :=
  rawHead f.request (c.ring f.sender).checksum f.keys

/-- The callback of `waitForIdentified`. -/
def onRequest (c : Cluster) (i : ℕ) (f : Forward) (destination : Str) (chosen : HashRing)
    (err : Bool) : Cluster :=
  if err then c.onProxy i f
  else
    { c.setForward i { f with phase := .sent } with
      messages := c.messages ++ [⟨destination, c.getHead f, f.body, chosen, c.ring f.sender⟩] }

def onSend (c : Cluster) (i : ℕ) (f : Forward) (ok : Bool) : Cluster :=
  if f.maxRetries = 0 then c.onProxy i f
  else if ok then c.onProxy i f
  else if f.numRetries ≥ f.maxRetries then c.onProxy i f
  else c.setForward i { f with phase := .retryScheduled }

def lookupKeys (c : Cluster) (sender : Address) (keys : List Str) : List Str :=
  let dests := keys.foldl
    (fun (dests : Dict Str Unit) key => dests.set (lookup o sender (c.ring sender) key) ()) .empty
  propertyOrder id dests.keys

def rerouteRetry (c : Cluster) (i : ℕ) (f : Forward) (newDest : Str) (destroyed : Bool)
    (load : Load) : Cluster × Option (Address × Message) :=
  let now := c.ring f.sender
  if newDest = f.sender.name then
    let c := c.setForward i { f with phase := .handledLocally }
    let (c, emitted) :=
      c.receive o f.sender ⟨newDest, c.getHead f, f.body, now, now⟩ (some i) load
    match emitted with
    | some _ => (c, emitted)
    | none => (c.onProxy i f, none)
  else (c.send i f newDest now destroyed, none)

def attemptRetry (c : Cluster) (i : ℕ) (f : Forward) (destroyed : Bool) (load : Load) :
    Cluster × Option (Address × Message) :=
  let f := { f with numRetries := f.numRetries + 1 }
  if f.skipLookupOnRetry then (c.send i f f.host f.looked destroyed, none)
  else
    match c.lookupKeys o f.sender f.keys with
    | [newDest] =>
      if newDest = f.host then (c.send i f f.host (c.ring f.sender) destroyed, none)
      else c.rerouteRetry o i f newDest destroyed load
    -- the destinations have diverged
    | _ => (c.onProxy i f, none)

/-- The response of the application. -/
def onResponse (c : Cluster) (entry : ℕ) : Cluster :=
  match c.ingress[entry]? with
  | none => c
  | some (receiver, forward) =>
    let c := { c.setProxy receiver (c.proxy receiver).decrementInflightRequests with
      ingress := c.ingress.eraseIdx entry }
    match forward with
    | none => c
    | some i =>
      match c.forwards[i]? with
      | none => c
      | some f => c.onProxy i f

end Cluster

/-- The cluster after an event, and the message whose request was emitted in it, with
the node that did so. An event that is not due does nothing. -/
def step (c : Cluster) (event : Event) : Cluster × Option (Address × Message) :=
  match event with
  | .ringChange node op =>
    ({ c with ring := Function.update c.ring node (op.apply o (c.ring node)).1 }, none)
  | .handleOrProxy sender key req opts load => (c.handleOrProxy o sender key req opts load, none)
  | .onBody i rawBody destroyed =>
    match c.forwards[i]? with
    | some f =>
      match f.phase, rawBody with
      | .readingBody, none => (c.onProxy i f, none)
      | .readingBody, some body =>
        (c.send i { f with body := body } f.host f.looked destroyed, none)
      | _, _ => (c, none)
    | none => (c, none)
  | .onRequest i err =>
    match c.forwards[i]? with
    | some f =>
      match f.phase with
      | .identifying destination chosen => (c.onRequest i f destination chosen err, none)
      | _ => (c, none)
    | none => (c, none)
  | .onSend i ok =>
    match c.forwards[i]? with
    | some f =>
      match f.phase with
      | .sent => (c.onSend i f ok, none)
      | _ => (c, none)
    | none => (c, none)
  | .onTimeout i destroyed load =>
    match c.forwards[i]? with
    | some f =>
      match f.phase with
      | .retryScheduled => c.attemptRetry o i f destroyed load
      | _ => (c, none)
    | none => (c, none)
  | .deliver i receiver load =>
    match c.messages[i]? with
    | some message =>
      if message.destination = receiver.name then c.receive o receiver message none load
      else (c, none)
    | none => (c, none)
  | .onResponse entry => (c.onResponse entry, none)

def run (opts : Address → RequestProxyOptions) (events : List Event) : Cluster :=
  events.foldl (fun c event => (step o c event).1) (.new opts)

end Ringpop.Forwarding
