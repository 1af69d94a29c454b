import Ringpop.RequestProxySend

/-! `numInflightRequests` of `lib/request-proxy/index.js`, and the requests that it counts:
those that are being forwarded, and those that the application has. -/
namespace Ringpop.Forwarding
open JsString Dictionary Ringpop.Ring Ringpop.Members

/-- A request of `proxyReq`. Once its send has called back, `onProxy` runs in the next tick. -/
inductive Egress where
  | readingBody (opts : SendOptions)
  | sending (send : RequestProxySend)
  | onProxy
  | finished

def Egress.unfinished : Egress → Bool
  | finished => false
  | _ => true

/-- What a request found that was admitted. -/
structure Admission where
  backpressureEnabled : Bool
  maxInflightRequests : ℤ
  inFlight : ℕ
deriving DecidableEq

/-- The proxy of a node. `ingress` lists the requests that the application has, with the
forward that waits for each; `admissions` is a history. -/
structure Traffic where
  ring : HashRing
  proxy : RequestProxy
  retrySchedule : Option (List ℚ)
  egress : List Egress
  ingress : List (Option ℕ)
  admissions : List Admission

inductive TrafficEvent where
  | ringChange (op : Op)
  | proxyReq (opts : SendOptions) (load : Load)
  | onBody (forward : ℕ) (rawBody : Option Str) (destroyed : Bool)
  | send (forward : ℕ) (event : SendEvent) (load : Load)
  | onProxy (forward : ℕ)
  | handleRequest (head : RawHead) (body : Str) (load : Load)
  | onResponse (ingress : ℕ) (result : SendResult)

namespace Traffic

def new (ring : HashRing) (opts : RequestProxyOptions) (retrySchedule : Option (List ℚ)) :
    Traffic :=
  ⟨ring, .new opts, retrySchedule, [], [], []⟩

/-- The requests that have been admitted and are not finished. -/
def inFlight (t : Traffic) : ℕ := t.egress.countP Egress.unfinished + t.ingress.length

def admission (t : Traffic) (load : Load) : Admission :=
  ⟨load.backpressureEnabled, load.maxInflightRequests, t.inFlight⟩

def setEgress (t : Traffic) (i : ℕ) (e : Egress) : Traffic :=
  { t with egress := t.egress.set i e }

def finish (t : Traffic) (i : ℕ) : Traffic :=
  { t.setEgress i .finished with proxy := t.proxy.decrementInflightRequests }

/-- Request-level options come before those of the proxy. -/
def proxyReq (t : Traffic) (opts : SendOptions) (load : Load) : Traffic :=
  match t.proxy.shouldRespondWithTooManyReqs load .egress with
  | some _ => t
  | none =>
    let opts := { opts with
      max := opts.max.or t.proxy.maxRetries, schedule := opts.schedule.or t.retrySchedule }
    { t with
      proxy := t.proxy.incrementInflightRequests load
      egress := t.egress ++ [.readingBody opts]
      admissions := t.admissions ++ [t.admission load] }

def onBody (t : Traffic) (i : ℕ) (opts : SendOptions) (rawBody : Option Str)
    (destroyed : Bool) : Traffic :=
  match rawBody with
  | none => t.finish i
  | some body =>
    let send := RequestProxySend.new { opts with body := body }
    t.setEgress i (.sending (send.send destroyed (some opts.host)))

/-- The callback of a send asks for the next tick. -/
def settle (t : Traffic) (i : ℕ) (send : RequestProxySend) : Traffic :=
  t.setEgress i (if send.waiting.isNothing then .onProxy else .sending send)

/-- `handleRequest`. -/
def receive (o : Options) (whoami : Address) (t : Traffic) (head : RawHead) (body : Str)
    (forward : Option ℕ) (load : Load) : Traffic × Ingress :=
  let (proxy, result) := handleRequest o whoami t.ring t.proxy load head body
  match result with
  | .request _ _ _ =>
    ({ t with
      proxy := proxy
      ingress := t.ingress ++ [forward]
      admissions := t.admissions ++ [t.admission load] }, result)
  | _ => ({ t with proxy := proxy }, result)

/-- The head of a retry that is handled locally. -/
def getRawHead (t : Traffic) (send : RequestProxySend) : RawHead :=
  rawHead send.request t.ring.checksum send.keys

def isHandled : Waiting → Bool
  | .handled => true
  | _ => false

/-- One callback of a send; the result of a request that the node handles itself comes with
`onResponse`, unless it is refused at once. -/
def sent (o : Options) (whoami : Address) (t : Traffic) (i : ℕ) (send : RequestProxySend)
    (event : SendEvent) (load : Load) : Traffic :=
  let owner := lookup o whoami t.ring
  let next := send.step owner whoami.name event
  if isHandled next.waiting then
    match t.receive o whoami (t.getRawHead next) next.body (some i) load with
    | (t, .request _ _ _) => t.settle i next
    | (t, reason) => t.settle i (next.callBack (.refused reason))
  else t.settle i next

def onResponse (o : Options) (whoami : Address) (t : Traffic) (entry : ℕ)
    (forward : Option ℕ) (result : SendResult) : Traffic :=
  let t := { t with
    proxy := t.proxy.decrementInflightRequests, ingress := t.ingress.eraseIdx entry }
  match forward with
  | none => t
  | some i =>
    match t.egress[i]? with
    | some (.sending send) =>
      t.settle i (send.step (lookup o whoami t.ring) whoami.name (.onHandled result))
    | _ => t

/-- The callback of a send that an event stands for is waited for, and is not the one that
`onResponse` calls. -/
def awaited (send : RequestProxySend) (event : SendEvent) : Bool :=
  send.due event && !isHandled send.waiting

/-- An event that is not due does nothing. -/
def step (o : Options) (whoami : Address) (t : Traffic) : TrafficEvent → Traffic
  | .ringChange op => { t with ring := (op.apply o t.ring).1 }
  | .proxyReq opts load => t.proxyReq opts load
  | .onBody i rawBody destroyed =>
    match t.egress[i]? with
    | some (.readingBody opts) => t.onBody i opts rawBody destroyed
    | _ => t
  | .send i event load =>
    match t.egress[i]? with
    | some (.sending send) => if awaited send event then t.sent o whoami i send event load else t
    | _ => t
  | .onProxy i =>
    match t.egress[i]? with
    | some .onProxy => t.finish i
    | _ => t
  | .handleRequest head body load => (t.receive o whoami head body none load).1
  | .onResponse entry result =>
    match t.ingress[entry]? with
    | some forward => t.onResponse o whoami entry forward result
    | none => t

/-- The consistency checks of `handleRequest` let a request pass. -/
def passes (o : Options) (whoami : Address) (t : Traffic) (head : RawHead) : Bool :=
  !(head.ringpopChecksum ≠ t.ring.checksum ∧ t.proxy.enforceConsistency) &&
    !(head.ringpopKeys.any (fun key => lookup o whoami t.ring key ≠ whoami.name) &&
      t.proxy.enforceKeyConsistency)

/-- With which load an event asks for a request to be admitted. -/
def arrival (o : Options) (whoami : Address) (t : Traffic) : TrafficEvent → Option Load
  | .proxyReq _ load => some load
  | .handleRequest head _ load => if t.passes o whoami head then some load else none
  | .send i event load =>
    match t.egress[i]? with
    | some (.sending send) =>
      let next := send.step (lookup o whoami t.ring) whoami.name event
      if awaited send event && isHandled next.waiting &&
        t.passes o whoami (t.getRawHead next) then some load else none
    | _ => none
  | _ => none

/-- Without back pressure, a request arrives only while the maximum is not reached. -/
def Uncrowded (o : Options) (whoami : Address) (t : Traffic) (event : TrafficEvent) : Prop :=
  ∀ load, t.arrival o whoami event = some load → load.backpressureEnabled = false →
    (t.inFlight : ℤ) < load.maxInflightRequests

/-- The counter is right, and back pressure has admitted no request too many. -/
structure Counted (t : Traffic) : Prop where
  number : t.proxy.numInflightRequests = t.inFlight
  admitted : ∀ a ∈ t.admissions, a.backpressureEnabled = true →
    (a.inFlight : ℤ) < a.maxInflightRequests

variable {o : Options} {whoami : Address} {t : Traffic} {head : RawHead}

theorem shouldRespond_none {proxy : RequestProxy} {load : Load} {direction : Direction}
    (h : proxy.shouldRespondWithTooManyReqs load direction = none)
    (enabled : load.backpressureEnabled = true) :
    proxy.numInflightRequests + 1 ≤ load.maxInflightRequests := by
  unfold RequestProxy.shouldRespondWithTooManyReqs at h
  split at h
  · cases h
  · rename_i within
    exact not_lt.mp fun more => within ⟨enabled, more⟩

theorem shouldRespond_disabled {proxy : RequestProxy} {load : Load} {direction : Direction}
    (disabled : load.backpressureEnabled = false) :
    proxy.shouldRespondWithTooManyReqs load direction = none := by
  simp [RequestProxy.shouldRespondWithTooManyReqs, disabled]

/-- A request is counted when it is admitted below the maximum. -/
theorem Counted.admit (counted : t.Counted) {load : Load} {direction : Direction}
    (free : load.backpressureEnabled = false → (t.inFlight : ℤ) < load.maxInflightRequests)
    (admitted : t.proxy.shouldRespondWithTooManyReqs load direction = none) :
    (t.proxy.incrementInflightRequests load).numInflightRequests = t.inFlight + 1 ∧
      (t.inFlight : ℤ) < load.maxInflightRequests := by
  have number := counted.number
  have below : (t.inFlight : ℤ) < load.maxInflightRequests := by
    cases enabled : load.backpressureEnabled with
    | false => exact free enabled
    | true =>
      have within := shouldRespond_none admitted enabled
      omega
  refine ⟨?_, below⟩
  rw [RequestProxy.incrementInflightRequests, number]
  exact if_neg (by omega)

/-- Above the maximum the counter stays behind. -/
theorem behind (number : t.proxy.numInflightRequests = t.inFlight) {load : Load}
    (crowded : ¬ (t.inFlight : ℤ) < load.maxInflightRequests) :
    (t.proxy.incrementInflightRequests load).numInflightRequests ≠ (t.inFlight + 1 : ℕ) := by
  rw [RequestProxy.incrementInflightRequests, number]
  simp only
  split <;> push_cast <;> omega

theorem handleRequest_passes (load : Load) (body : Str)
    (passes : t.passes o whoami head = true) :
    handleRequest o whoami t.ring t.proxy load head body =
      handleRequest.proceed t.proxy load head body := by
  simp only [Traffic.passes, Bool.and_eq_true, Bool.not_eq_true', decide_eq_false_iff_not,
    Bool.and_eq_false_imp] at passes
  obtain ⟨checksum, keys⟩ := passes
  rw [handleRequest, if_neg checksum]
  cases found : head.ringpopKeys.find? fun key => lookup o whoami t.ring key ≠ whoami.name with
  | none => rfl
  | some key =>
    have other := List.find?_some found
    have enforced := keys (List.any_eq_true.mpr ⟨key, List.mem_of_find?_eq_some found, other⟩)
    simp only [enforced, Bool.false_eq_true, if_false]

theorem handleRequest_fails (load : Load) (body : Str)
    (fails : t.passes o whoami head = false) :
    ∃ reason, handleRequest o whoami t.ring t.proxy load head body = (t.proxy, reason) ∧
      ∀ r b h, reason ≠ .request r b h := by
  rw [handleRequest]
  split
  case isTrue => exact ⟨_, rfl, fun _ _ _ h => by cases h⟩
  case isFalse checksum =>
    have checked : (!decide (head.ringpopChecksum ≠ t.ring.checksum ∧
        t.proxy.enforceConsistency = true)) = true := by simp [checksum]
    rw [passes, checked, Bool.true_and, Bool.not_eq_false', Bool.and_eq_true] at fails
    obtain ⟨other, enforced⟩ := fails
    obtain ⟨key, listed, differs⟩ := List.any_eq_true.mp other
    cases found : head.ringpopKeys.find? fun key => lookup o whoami t.ring key ≠ whoami.name with
    | none => exact absurd differs (List.find?_eq_none.mp found key listed)
    | some key =>
      simp only [enforced, if_true]
      exact ⟨_, rfl, fun _ _ _ h => by cases h⟩

/-- `handleRequest` refuses a request, or admits it and hands it over. -/
theorem receive_cases (o : Options) (whoami : Address) (t : Traffic) (head : RawHead) (body : Str)
    (forward : Option ℕ) (load : Load) :
    (∃ reason, t.receive o whoami head body forward load = (t, reason) ∧
      (∀ r b h, reason ≠ .request r b h) ∧
      (t.passes o whoami head = true →
        t.proxy.shouldRespondWithTooManyReqs load .ingress ≠ none)) ∨
    (t.passes o whoami head = true ∧
      t.proxy.shouldRespondWithTooManyReqs load .ingress = none ∧
      t.receive o whoami head body forward load =
        ({ t with
          proxy := t.proxy.incrementInflightRequests load
          ingress := t.ingress ++ [forward]
          admissions := t.admissions ++ [t.admission load] },
          .request head.toHttpRequest body head)) := by
  cases checks : t.passes o whoami head with
  | false =>
    obtain ⟨reason, refused, other⟩ := handleRequest_fails load body checks
    refine .inl ⟨reason, ?_, other, fun h => by cases h⟩
    rw [receive, refused]
    cases reason with
    | request r b h => exact absurd rfl (other r b h)
    | invalidCheckSum | invalidKey | tooManyRequests => rfl
  | true =>
    have handled := handleRequest_passes load body checks
    rw [handleRequest.proceed] at handled
    cases full : t.proxy.shouldRespondWithTooManyReqs load .ingress with
    | some error =>
      rw [full] at handled
      refine .inl ⟨.tooManyRequests error, ?_, fun _ _ _ h => (by cases h), fun _ h => by cases h⟩
      rw [receive, handled]
    | none =>
      rw [full] at handled
      refine .inr ⟨rfl, rfl, ?_⟩
      rw [receive, handled]

theorem inFlight_setEgress {i : ℕ} {e : Egress} (here : t.egress[i]? = some e) (e' : Egress) :
    (t.setEgress i e').inFlight + (if e.unfinished then 1 else 0) =
      t.inFlight + if e'.unfinished then 1 else 0 := by
  obtain ⟨inside, same⟩ := List.getElem?_eq_some_iff.mp here
  have counts := List.countP_set (p := Egress.unfinished) (a := e') inside
  have positive : e.unfinished = true → 0 < t.egress.countP Egress.unfinished := fun h =>
    List.countP_pos_iff.mpr ⟨e, List.mem_of_getElem? here, h⟩
  rw [same] at counts
  simp only [setEgress, inFlight, counts]
  split
  case isTrue h =>
    have := positive h
    omega
  case isFalse => omega

theorem inFlight_unfinished {i : ℕ} {e e' : Egress} (here : t.egress[i]? = some e)
    (was : e.unfinished = true) (still : e'.unfinished = true) :
    (t.setEgress i e').inFlight = t.inFlight := by
  have counts := inFlight_setEgress here e'
  rw [was, still] at counts
  exact Nat.add_right_cancel counts

theorem Counted.setEgress (counted : t.Counted) {i : ℕ} {e e' : Egress}
    (here : t.egress[i]? = some e) (was : e.unfinished = true) (still : e'.unfinished = true) :
    (t.setEgress i e').Counted :=
  ⟨by rw [inFlight_unfinished here was still]; exact counted.number, counted.admitted⟩

theorem unfinished_settle (next : RequestProxySend) :
    (if next.waiting.isNothing then Egress.onProxy else .sending next).unfinished = true := by
  split <;> rfl

/-- A request that has been counted is subtracted again. -/
theorem numInflight_decrement {proxy : RequestProxy} {n : ℕ}
    (number : proxy.numInflightRequests = (n + 1 : ℕ)) :
    proxy.decrementInflightRequests.numInflightRequests = n := by
  rw [RequestProxy.decrementInflightRequests, number]
  simp only
  split <;> push_cast at * <;> omega

theorem Counted.finish (counted : t.Counted) {i : ℕ} {e : Egress} (here : t.egress[i]? = some e)
    (unfinished : e.unfinished = true) : (t.finish i).Counted := by
  have counts := inFlight_setEgress here .finished
  rw [unfinished, if_pos rfl] at counts
  have number := counted.number
  refine ⟨numInflight_decrement (n := (t.setEgress i .finished).inFlight) ?_, counted.admitted⟩
  rw [number, counts]
  rfl

theorem inFlight_receive (t : Traffic) (proxy : RequestProxy) (forward : Option ℕ)
    (admissions : List Admission) :
    ({ t with
      proxy := proxy
      ingress := t.ingress ++ [forward]
      admissions := admissions } : Traffic).inFlight = t.inFlight + 1 := by
  simp only [inFlight, List.length_append, List.length_singleton, Nat.add_assoc]

theorem egress_receive (o : Options) (whoami : Address) (t : Traffic) (head : RawHead)
    (body : Str) (forward : Option ℕ) (load : Load) :
    (t.receive o whoami head body forward load).1.egress = t.egress := by
  rcases receive_cases o whoami t head body forward load with ⟨_, refused, -⟩ | ⟨-, -, taken⟩
  · rw [refused]
  · rw [taken]

theorem Counted.receive (counted : t.Counted) {load : Load}
    (free : t.passes o whoami head = true → load.backpressureEnabled = false →
      (t.inFlight : ℤ) < load.maxInflightRequests) (body : Str) (forward : Option ℕ) :
    (t.receive o whoami head body forward load).1.Counted := by
  rcases receive_cases o whoami t head body forward load with
    ⟨reason, refused, -, -⟩ | ⟨passes, admitted, taken⟩
  · rw [refused]
    exact counted
  · rw [taken]
    obtain ⟨number, below⟩ := counted.admit (free passes) admitted
    refine ⟨?_, fun a listed enabled => ?_⟩
    · rw [inFlight_receive]
      push_cast
      exact number
    · rcases List.mem_append.mp listed with before | this
      · exact counted.admitted a before enabled
      · exact List.mem_singleton.mp this ▸ below

/-- Without back pressure a request that comes in above the maximum is miscounted. -/
theorem Counted.receive_crowded (counted : t.Counted) {load : Load}
    (passes : t.passes o whoami head = true) (disabled : load.backpressureEnabled = false)
    (crowded : ¬ (t.inFlight : ℤ) < load.maxInflightRequests) (body : Str) (forward : Option ℕ) :
    (t.receive o whoami head body forward load).1.proxy.numInflightRequests ≠
      (t.receive o whoami head body forward load).1.inFlight := by
  have admitted : t.proxy.shouldRespondWithTooManyReqs load .ingress = none :=
    shouldRespond_disabled disabled
  rcases receive_cases o whoami t head body forward load with
    ⟨reason, refused, -, full⟩ | ⟨-, -, taken⟩
  · exact absurd admitted (full passes)
  · rw [taken, inFlight_receive]
    exact behind counted.number crowded

theorem sent_handled (t : Traffic) (i : ℕ) {send : RequestProxySend} {event : SendEvent}
    (load : Load)
    (handled : isHandled (send.step (lookup o whoami t.ring) whoami.name event).waiting = true) :
    let next := send.step (lookup o whoami t.ring) whoami.name event
    ∃ next', t.sent o whoami i send event load =
      (t.receive o whoami (t.getRawHead next) next.body (some i) load).1.settle i next' := by
  intro next
  rw [sent]
  simp only [handled, if_true]
  split
  case h_1 t' r b h same =>
    rw [same]
    exact ⟨_, rfl⟩
  case h_2 t' reason other same =>
    rw [same]
    exact ⟨_, rfl⟩

theorem Counted.sent (counted : t.Counted) {i : ℕ} {send : RequestProxySend}
    (here : t.egress[i]? = some (.sending send)) {event : SendEvent} {load : Load}
    (awaits : awaited send event = true)
    (uncrowded : t.Uncrowded o whoami (.send i event load)) :
    (t.sent o whoami i send event load).Counted := by
  let next := send.step (lookup o whoami t.ring) whoami.name event
  cases handled : isHandled next.waiting with
  | true =>
    have free (passes : t.passes o whoami (t.getRawHead next) = true) :=
      uncrowded load (by
        simp only [arrival, here, awaits, handled, passes, next, Bool.and_self, if_true])
    have received := counted.receive free next.body (some i)
    obtain ⟨next', sent⟩ := sent_handled t i load handled
    rw [sent]
    exact received.setEgress ((egress_receive ..).symm ▸ here) rfl (unfinished_settle next')
  | false =>
    rw [Traffic.sent]
    simp only [next] at handled
    simp only [handled, Bool.false_eq_true, if_false]
    exact counted.setEgress here rfl (unfinished_settle next)

theorem Counted.proxyReq (counted : t.Counted) {opts : SendOptions} {load : Load}
    (uncrowded : t.Uncrowded o whoami (.proxyReq opts load)) : (t.proxyReq opts load).Counted := by
  unfold Traffic.proxyReq
  cases admitted : t.proxy.shouldRespondWithTooManyReqs load .egress with
  | some error => exact counted
  | none =>
    obtain ⟨number, below⟩ := counted.admit (uncrowded load rfl) admitted
    refine ⟨?_, fun a listed enabled => ?_⟩
    · simp only [inFlight, List.countP_append, List.countP_singleton, Egress.unfinished, if_true]
      rw [number]
      simp only [inFlight]
      push_cast
      omega
    · rcases List.mem_append.mp listed with before | this
      · exact counted.admitted a before enabled
      · exact List.mem_singleton.mp this ▸ below

theorem Counted.onResponse (counted : t.Counted) {entry : ℕ} {forward : Option ℕ}
    (here : t.ingress[entry]? = some forward) (result : SendResult) :
    (t.onResponse o whoami entry forward result).Counted := by
  obtain ⟨inside, -⟩ := List.getElem?_eq_some_iff.mp here
  have number := counted.number
  have finished : ({ t with
      proxy := t.proxy.decrementInflightRequests
      ingress := t.ingress.eraseIdx entry } : Traffic).Counted := by
    refine ⟨numInflight_decrement ?_, counted.admitted⟩
    rw [number]
    simp only [inFlight, List.length_eraseIdx_of_lt inside]
    omega
  unfold Traffic.onResponse
  cases forward with
  | none => exact finished
  | some i =>
    simp only
    split
    case h_1 send waits => exact finished.setEgress waits rfl (unfinished_settle _)
    case h_2 => exact finished

theorem Counted.step (counted : t.Counted) {event : TrafficEvent}
    (uncrowded : t.Uncrowded o whoami event) : (t.step o whoami event).Counted := by
  cases event with
  | ringChange op => exact ⟨counted.number, counted.admitted⟩
  | proxyReq opts load => exact counted.proxyReq uncrowded
  | onBody i rawBody destroyed =>
    rw [Traffic.step]
    split
    case h_2 => exact counted
    case h_1 opts here =>
      cases rawBody with
      | none => exact counted.finish here rfl
      | some body => exact counted.setEgress here rfl rfl
  | send i event load =>
    rw [Traffic.step]
    split
    case h_2 => exact counted
    case h_1 send here =>
      split
      case isTrue awaits => exact counted.sent here awaits uncrowded
      case isFalse => exact counted
  | onProxy i =>
    rw [Traffic.step]
    split
    case h_1 here => exact counted.finish here rfl
    case h_2 => exact counted
  | handleRequest head body load =>
    exact counted.receive (fun passes => uncrowded load (if_pos passes)) body none
  | onResponse entry result =>
    rw [Traffic.step]
    split
    case h_1 forward here => exact counted.onResponse here result
    case h_2 => exact counted

theorem Counted.crowded (counted : t.Counted) {event : TrafficEvent}
    (crowded : ¬ t.Uncrowded o whoami event) : ¬ (t.step o whoami event).Counted := by
  intro still
  simp only [Uncrowded, Classical.not_imp, not_forall] at crowded
  obtain ⟨load, arrives, disabled, crowded⟩ := crowded
  cases event with
  | ringChange | onBody | onProxy | onResponse => cases arrives
  | proxyReq opts load' =>
    obtain rfl := Option.some.inj arrives
    have admitted : t.proxy.shouldRespondWithTooManyReqs load' .egress = none :=
      shouldRespond_disabled disabled
    have number := still.number
    rw [Traffic.step, Traffic.proxyReq, admitted] at number
    simp only [inFlight, List.countP_append, List.countP_singleton, Egress.unfinished,
      if_true] at number
    refine behind counted.number crowded (number.trans ?_)
    simp only [inFlight]
    push_cast
    omega
  | handleRequest head body load' =>
    rw [arrival] at arrives
    split at arrives
    case isFalse => cases arrives
    case isTrue passes =>
      obtain rfl := Option.some.inj arrives
      exact counted.receive_crowded passes disabled crowded body none still.number
  | send i event load' =>
    rw [arrival] at arrives
    split at arrives
    case h_2 => cases arrives
    case h_1 send here =>
      simp only at arrives
      split at arrives
      case isFalse => cases arrives
      case isTrue asks =>
        obtain rfl := Option.some.inj arrives
        rw [Bool.and_eq_true, Bool.and_eq_true] at asks
        obtain ⟨⟨awaits, handled⟩, passes⟩ := asks
        obtain ⟨next', sent⟩ := sent_handled t i load' handled
        rw [Traffic.step] at still
        simp only [here, awaits, if_true, sent] at still
        have number := still.number
        rw [settle, inFlight_unfinished ((egress_receive ..).symm ▸ here) rfl
          (unfinished_settle next')] at number
        exact counted.receive_crowded passes disabled crowded _ _ number

theorem counted_new (ring : HashRing) (opts : RequestProxyOptions)
    (retrySchedule : Option (List ℚ)) : (new ring opts retrySchedule).Counted where
  number := rfl
  admitted _ h := by cases h

/-- The counter is the number of requests in flight in every state of a run exactly when no
request arrives, without back pressure, while the maximum or more are in flight. -/
theorem run_counted_iff (o : Options) (whoami : Address) (ring : HashRing)
    (opts : RequestProxyOptions) (retrySchedule : Option (List ℚ)) (events : List TrafficEvent) :
    (∀ reached, reached <+: events →
      (reached.foldl (step o whoami) (new ring opts retrySchedule)).Counted) ↔
      Runs.Throughout (step o whoami) (Uncrowded o whoami) (new ring opts retrySchedule)
        events :=
  Runs.always_iff_throughout Counted Counted (fun _ => id)
    (fun _ _ counted uncrowded => counted.step uncrowded)
    (fun _ _ counted crowded => counted.crowded crowded)
    (counted_new ring opts retrySchedule) events

/-- Two requests without back pressure, of which one is finished: the maximum of one is
counted once and subtracted once, so that with back pressure another one is admitted. -/
theorem run_miscounted :
    let o : Options := ⟨1, fun s => s.length⟩
    let whoami := Address.of "a:1" (by decide)
    let head : RawHead := ⟨⟨str "/", [], str "GET", str "1.1"⟩, none, []⟩
    let load (backpressureEnabled : Bool) : Load := ⟨backpressureEnabled, 1, 100, 0⟩
    let t := [TrafficEvent.handleRequest head [] (load false), .handleRequest head [] (load false),
      .onResponse 0 (.response [] []), .handleRequest head [] (load true)].foldl (step o whoami)
      (new .new ⟨none, none, none, none⟩ none)
    t.proxy.numInflightRequests = 1 ∧ t.inFlight = 2 ∧ ¬ t.Counted := by
  intro o whoami head load t
  refine ⟨by decide, by decide, fun counted => ?_⟩
  exact absurd (counted.admitted ⟨true, 1, 1⟩ (by decide) rfl) (by decide)

end Traffic
end Ringpop.Forwarding
