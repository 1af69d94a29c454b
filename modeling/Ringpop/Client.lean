import Ringpop.Tombstones
import Ringpop.TimerQueue
import Ringpop.Runs

/-! `client.js` and `client_request.js`: the requests of a node, and the calls of their
callbacks. A request that the channel neither answers nor fails is canceled by a scan. -/
namespace Ringpop.Members
open JsString Dictionary Middlewares

/-- `opts.host`, or how `String` shows it when it is no string. -/
inductive HostField where
  | string (host : Str)
  | other (shown : Str)

structure RequestOptions where
  host : HostField
  timeout : Option ℕ
  retryLimit : Option ℕ

/-- The error of a request is one of the channel or one of the server. -/
inductive RequestError where
  | transport (message : Str)
  | server (err : ServerError)

/-- What the callback of a request is called with. -/
inductive ClientAnswer where
  | limitExceeded (inflightCurrent inflightMax : ℕ) (endpoint : Str)
  | channelDestroyed (endpoint channelType : Str)
  | invalidHostPort (hostPort : Str)
  | canceled (endpoint : Str)
  | notIdentified (message : Str)
  | response (err : Option RequestError) (res1 : Json)

/-- `callback` says whether the field has not been nullified. -/
structure ClientRequest where
  opts : RequestOptions
  endpoint : Str
  head : Json
  body : Json
  timestamp : ℤ
  isCanceled : Bool
  callback : Bool

/-- What has been handed to `process.nextTick`, by `_request` or by `send`. -/
inductive ClientTick where
  | onLimit (request : ℕ) (answer : ClientAnswer)
  | onFailure (request : ℕ) (answer : ClientAnswer)

def ClientTick.request : ClientTick → ℕ
  | onLimit request _ => request
  | onFailure request _ => request

/-- What is put on the wire. -/
structure OutgoingRequest where
  request : ℕ
  host : HostField
  timeout : ℕ
  retryLimit : ℕ
  endpoint : Str
  strHead : Str
  strBody : Str

/-- A call of `subChannelRequest`, with the middlewares that are left for its response. -/
structure Sending where
  request : ℕ
  left : ℕ

structure SubChannel where
  destroyed : Bool
  topChannelDestroyed : Bool

inductive RequestEvent where
  | alreadyCalled
  | waitForIdentifiedAfterCancel
  | subChannelRequestAfterCancel

/-- Requests are named by the order of their creation. `identifying` lists the requests for
which `waitForIdentified` was called; the fields from `wire` on are histories: what was sent,
what the requests emitted, with what the callers were called back, which requests were
accepted, which were identified, which were refused, answered, failed or canceled, and which
of these were canceled before they were identified. -/
structure RingpopClient where
  requests : List ClientRequest
  requestsById : Dict ℕ Unit
  ticks : List ClientTick
  identifying : List ℕ
  sends : List Sending
  wedgedTimer : Option ℕ
  isDestroyed : Bool
  queue : TimerQueue Unit
  wire : List OutgoingRequest
  emitted : List (ℕ × RequestEvent)
  callbacks : List (ℕ × ClientAnswer)
  accepted : List ℕ
  identified : List ℕ
  settled : List ℕ
  canceledEarly : List ℕ

/-- What TChannel answers to a request that was sent. -/
inductive ChannelResponse where
  | error (message : Str)
  | reply (reply : Tombstones.Reply)

inductive ClientEvent where
  | request (opts : RequestOptions) (endpoint : Str) (head body : Json) (now : ℤ)
      (channel : SubChannel)
  | tick (i : ℕ)
  | onIdentified (request : ℕ) (err : Option Str)
  | onSend (send : ℕ) (response : ChannelResponse)
  | scan (scanTime wedgedRequestTimeout : ℤ)
  | onTimeout (timer : ℕ) (scanTime wedgedRequestTimeout : ℤ)
  | destroy

/-- What `parseInt` skips. -/
def isWhiteSpace (c : Fin 65536) : Bool :=
  (9 ≤ c.val && c.val ≤ 13) || (8192 ≤ c.val && c.val ≤ 8202) ||
    [32, 160, 5760, 8232, 8233, 8239, 8287, 12288, 65279].contains c.val

/-- `!isNaN(parseInt(s, 10))`. -/
def startsWithInt (s : Str) : Bool :=
  match s.dropWhile isWhiteSpace with
  | [] => false
  | c :: rest => isDigit c || ((c.val = 43 || c.val = 45) && rest.head?.any isDigit)

def validateHostPort : HostField → Bool
  | .other _ => false
  | .string hostPort =>
    match hostPort.splitOnP fun c => c.val == 58 with
    | [_, port] => startsWithInt port
    | _ => false

namespace RingpopClient

def new : RingpopClient :=
  ⟨[], .empty, [], [], [], none, false, .empty, [], [], [], [], [], [], []⟩

def nextTick (c : RingpopClient) (tick : ClientTick) : RingpopClient :=
  { c with ticks := c.ticks ++ [tick] }

def emit (c : RingpopClient) (id : ℕ) (event : RequestEvent) : RingpopClient :=
  { c with emitted := c.emitted ++ [(id, event)] }

def settle (c : RingpopClient) (id : ℕ) : RingpopClient := { c with settled := c.settled ++ [id] }

/-- The callback of a request is `onSend` in `_request`, which calls that of the caller. -/
def invokeCallback (c : RingpopClient) (id : ℕ) (answer : ClientAnswer) : RingpopClient :=
  match c.requests[id]? with
  | none => c
  | some request =>
    if request.callback then
      { c with
        requestsById := c.requestsById.delete id
        callbacks := c.callbacks ++ [(id, answer)]
        requests := c.requests.set id { request with callback := false } }
    else c.emit id .alreadyCalled

def cancel (c : RingpopClient) (id : ℕ) : RingpopClient :=
  match c.requests[id]? with
  | none => c
  | some request =>
    let c := { c with
      requests := c.requests.set id { request with isCanceled := true }
      canceledEarly := c.canceledEarly ++ if c.identified.contains id then [] else [id] }
    (c.settle id).invokeCallback id (.canceled request.endpoint)

def send (c : RingpopClient) (id : ℕ) (request : ClientRequest) (channel : SubChannel) :
    RingpopClient :=
  if channel.destroyed then
    c.nextTick (.onFailure id (.channelDestroyed request.endpoint (str "subChannel")))
  else if channel.topChannelDestroyed then
    c.nextTick (.onFailure id (.channelDestroyed request.endpoint (str "topChannel")))
  else if !validateHostPort request.opts.host then
    let shown := match request.opts.host with
      | .string host => host
      | .other shown => shown
    c.nextTick (.onFailure id (.invalidHostPort shown))
  else { c with identifying := c.identifying ++ [id] }

def scheduleWedgedTimer (c : RingpopClient) : RingpopClient :=
  { c with wedgedTimer := some c.queue.next, queue := c.queue.setTimeout () }

def request (inflightMax : ℕ) (c : RingpopClient) (request : ClientRequest)
    (channel : SubChannel) : RingpopClient :=
  let c := if c.wedgedTimer.isNone then c.scheduleWedgedTimer else c
  let id := c.requests.length
  let c := { c with requests := c.requests ++ [request] }
  let inflightCurrent := c.requestsById.keys.length
  if inflightCurrent ≥ inflightMax then
    c.nextTick (.onLimit id (.limitExceeded inflightCurrent inflightMax request.endpoint))
  else
    { c with
      requestsById := c.requestsById.set id ()
      accepted := c.accepted ++ [id] }.send id request channel

def perform (c : RingpopClient) : ClientTick → RingpopClient
  | .onLimit id answer => { c.settle id with callbacks := c.callbacks ++ [(id, answer)] }
  | .onFailure id answer => (c.settle id).invokeCallback id answer

/-- The handler of the middleware stack. -/
def subChannelRequest (json : JsonText) (left : ℕ) (c : RingpopClient) (id : ℕ)
    (request : ClientRequest) (arg2 arg3 : Json) : RingpopClient :=
  { c with
    sends := c.sends ++ [⟨id, left⟩]
    wire := c.wire ++ [{
      request := id
      host := request.opts.host
      timeout := (request.opts.timeout.filter (· ≠ 0)).getD 30000
      retryLimit := request.opts.retryLimit.getD 0
      endpoint := request.endpoint
      strHead := json.stringify arg2
      strBody := json.stringify arg3 }] }

def onIdentified (json : JsonText) (stack : MiddlewareStack Str Json (Option RequestError) Json)
    (c : RingpopClient) (id : ℕ) (request : ClientRequest) (err : Option Str) : RingpopClient :=
  let c := { c with identified := c.identified ++ [id] }
  if request.isCanceled then c.emit id .waitForIdentifiedAfterCancel
  else
    match err with
    | some err => (c.settle id).invokeCallback id (.notIdentified err)
    | none =>
      match MiddlewareStack.callRequestMiddleware request.endpoint stack.middlewares request.head
        request.body with
      | none => c
      | some (arg2, arg3) =>
        c.subChannelRequest json stack.middlewares.length id request arg2 arg3

/-- What the middlewares are given of a response. -/
def received (json : JsonText) : ChannelResponse → Option RequestError × Json × Json
  | .error message => (some (.transport message), .null, .null)
  | .reply reply =>
    let (err, res1, res2) := Tombstones.onSend json reply
    (err.map .server, res1, res2)

def onSend (json : JsonText) (stack : MiddlewareStack Str Json (Option RequestError) Json)
    (c : RingpopClient) (i : ℕ) (sending : Sending) (request : ClientRequest)
    (response : ChannelResponse) : RingpopClient :=
  if request.isCanceled then c.emit sending.request .subChannelRequestAfterCancel
  else
    let (err, res1, res2) := received json response
    let (left, result) :=
      stack.callResponseMiddleware request.endpoint sending.left err res1 res2
    let c := { c with sends := c.sends.set i ⟨sending.request, left⟩ }.settle sending.request
    match result with
    | none => c
    | some (err, res1, _) => c.invokeCallback sending.request (.response err res1)

/-- The timeout of the configuration, or the default. -/
def wedgedTimeout (wedgedRequestTimeout : ℤ) : ℤ :=
  if wedgedRequestTimeout = 0 then 30000 else wedgedRequestTimeout

/-- The body of the loop, with the requests that are found wedged. -/
def scanRequest (scanTime wedgedRequestTimeout : ℤ) (scan : RingpopClient × List ℕ) (id : ℕ) :
    RingpopClient × List ℕ :=
  let (c, wedgedRequests) := scan
  match (if c.requestsById.has id then c.requests[id]? else none) with
  | none => scan
  | some request =>
    let timeInflight := scanTime - request.timestamp
    if timeInflight ≥ wedgedTimeout wedgedRequestTimeout then
      ({ c with requestsById := c.requestsById.delete id }.cancel id, wedgedRequests ++ [id])
    else scan

def scanForWedgedRequests (scanTime wedgedRequestTimeout : ℤ) (c : RingpopClient) :
    RingpopClient × List ℕ :=
  c.requestsById.keys.foldl (scanRequest scanTime wedgedRequestTimeout) (c, [])

def destroy (c : RingpopClient) : RingpopClient :=
  { c with
    queue := (c.wedgedTimer.map c.queue.clearTimeout).getD c.queue
    isDestroyed := true }

/-- The callback of `waitForIdentified` may be called again, and so may that of a request that
was sent. -/
def step (inflightMax : ℕ) (json : JsonText)
    (stack : MiddlewareStack Str Json (Option RequestError) Json) (c : RingpopClient) :
    ClientEvent → RingpopClient
  | .request opts endpoint head body now channel =>
    c.request inflightMax ⟨opts, endpoint, head, body, now, false, true⟩ channel
  | .tick i =>
    match c.ticks[i]? with
    | some tick => { c with ticks := c.ticks.eraseIdx i }.perform tick
    | none => c
  | .onIdentified id err =>
    match (if c.identifying.contains id then c.requests[id]? else none) with
    | some request => c.onIdentified json stack id request err
    | none => c
  | .onSend i response =>
    match c.sends[i]? with
    | some sending =>
      match c.requests[sending.request]? with
      | some request => c.onSend json stack i sending request response
      | none => c
    | none => c
  | .scan scanTime wedgedRequestTimeout =>
    (c.scanForWedgedRequests scanTime wedgedRequestTimeout).1
  | .onTimeout timer scanTime wedgedRequestTimeout =>
    match c.queue.callback timer with
    | none => c
    | some _ =>
      let c := { c with queue := c.queue.clearTimeout timer }
      if c.isDestroyed then c
      else (c.scanForWedgedRequests scanTime wedgedRequestTimeout).1.scheduleWedgedTimer
  | .destroy => c.destroy

/-- A response to a request that waits for it makes a response middleware throw. -/
def throws (json : JsonText) (stack : MiddlewareStack Str Json (Option RequestError) Json)
    (c : RingpopClient) : ClientEvent → Bool
  | .onSend i response =>
    match c.sends[i]? with
    | some sending =>
      match c.requests[sending.request]? with
      | some request =>
        let (err, res1, res2) := received json response
        !request.isCanceled && request.callback &&
          MiddlewareStack.throws request.endpoint (stack.middlewares.take sending.left).reverse
            err res1 res2
      | none => false
    | none => false
  | _ => false

/-- How often the caller of a request has been called back. -/
def answers (c : RingpopClient) (id : ℕ) : ℕ := (c.callbacks.map Prod.fst).count id

end RingpopClient
end Ringpop.Members
