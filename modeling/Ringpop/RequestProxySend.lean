import Ringpop.RequestProxy
import Ringpop.Runs

/-! `lib/request-proxy/send.js`: a forwarded request is sent again after a delay as long as
it fails, to whoever owns its keys by then. -/
namespace Ringpop.Forwarding
open JsString Dictionary Ringpop.Ring Ringpop.Members

inductive SendError where
  | channelDestroyed
  | transport (message : Str)
  | maxRetriesExceeded (maxRetries : ℕ)
  | keysDiverged (keys : List Str) (origDestination : Str) (newDestinations : List Str)

/-- `refused` is what `handleRequest` calls back with before the application gets a request. -/
inductive SendResult where
  | error (err : SendError)
  | refused (reason : Ingress)
  | response (res1 res2 : Str)

/-- What the transport calls back with. -/
inductive SendOutcome where
  | error (message : Str)
  | notOk (arg3 : Str)
  | ok (arg2 arg3 : Str)

/-- What has to happen before a send goes on. -/
inductive Waiting where
  | tick (result : SendResult)
  | identified (host : Option Str)
  | answer
  | timer
  | handled
  | nothing

def Waiting.isNothing : Waiting → Bool
  | nothing => true
  | _ => false

inductive Went where
  | to (host : Option Str)
  | handledLocally
  | aborted
deriving DecidableEq

def Went.isAttempt : Went → Bool
  | aborted => false
  | _ => true

/-- A retry, with the owners of the keys at that moment. -/
structure Retry where
  owners : List Str
  went : Went
deriving DecidableEq

/-- The last four fields are a history: the retries, the delays in milliseconds after which
they were scheduled (`none` is `NaN`), the calls of the callback, and how many callbacks of
others the send has had. -/
structure RequestProxySend where
  keys : List Str
  host : Str
  request : HttpRequest
  body : Str
  retrySchedule : List ℚ
  maxRetries : ℕ
  skipLookupOnRetry : Bool
  destinations : List (Option Str)
  errors : List Str
  numRetries : ℕ
  waiting : Waiting
  retries : List Retry
  delays : List (Option ℚ)
  callbacks : List SendResult
  steps : ℕ

structure SendOptions where
  keys : List Str
  host : Str
  request : HttpRequest
  body : Str
  max : Option ℕ
  schedule : Option (List ℚ)
  skipLookup : Bool

inductive SendEvent where
  | onTick
  | onRequest (err : Option Str)
  | onSend (outcome : SendOutcome)
  | onTimeout (destroyed : Bool)
  | onHandled (result : SendResult)

def RETRY_SCHEDULE : List ℚ := [0, 1, 7 / 2]

def SendOutcome.err : SendOutcome → Option Str
  | error message => some message
  | notOk arg3 => some arg3
  | ok _ _ => none

def SendOutcome.result : SendOutcome → SendResult
  | error message => .error (.transport message)
  | notOk arg3 => .error (.transport arg3)
  | ok arg2 arg3 => .response arg2 arg3

namespace RequestProxySend

def new (opts : SendOptions) : RequestProxySend where
  keys := opts.keys
  host := opts.host
  request := opts.request
  body := opts.body
  retrySchedule := opts.schedule.getD RETRY_SCHEDULE
  maxRetries := opts.max.getD (opts.schedule.getD RETRY_SCHEDULE).length
  skipLookupOnRetry := opts.skipLookup
  destinations := [some opts.host]
  errors := []
  numRetries := 0
  waiting := .nothing
  retries := []
  delays := []
  callbacks := []
  steps := 0

def maxRetryTimeout (s : RequestProxySend) : Option ℚ := s.retrySchedule.getLast?.map (· * 1000)

def callBack (s : RequestProxySend) (result : SendResult) : RequestProxySend :=
  { s with waiting := .nothing, callbacks := s.callbacks ++ [result] }

def send (s : RequestProxySend) (destroyed : Bool) (host : Option Str) : RequestProxySend :=
  { s with waiting := if destroyed then .tick (.error .channelDestroyed) else .identified host }

def onRequest (s : RequestProxySend) (err : Option Str) : RequestProxySend :=
  match err with
  | some message => s.callBack (.error (.transport message))
  | none => { s with waiting := .answer }

def scheduleRetry (s : RequestProxySend) : RequestProxySend :=
  let scheduleDelay := s.retrySchedule[s.numRetries]?.map (· * 1000)
  { s with waiting := .timer, delays := s.delays ++ [scheduleDelay.or s.maxRetryTimeout] }

/-- `onSendNoRetries` or `onSend`. -/
def onSend (s : RequestProxySend) (outcome : SendOutcome) : RequestProxySend :=
  if s.maxRetries = 0 then { s with waiting := .tick outcome.result }
  else
    match outcome.err with
    | none => s.callBack outcome.result
    | some err =>
      let s := { s with errors := s.errors ++ [err] }
      if s.numRetries ≥ s.maxRetries then s.callBack (.error (.maxRetriesExceeded s.maxRetries))
      else s.scheduleRetry

def lookupKeys (owner : Str → Str) (keys : List Str) : List Str :=
  let dests := keys.foldl (fun (dests : Dict Str Unit) key => dests.set (owner key) ()) .empty
  propertyOrder id dests.keys

def retried (s : RequestProxySend) (owner : Str → Str) (went : Went) : RequestProxySend :=
  { s with retries := s.retries ++ [⟨s.keys.map owner, went⟩] }

/-- The local node handles the request with `RequestProxy.handleRequest`. -/
def rerouteRetry (s : RequestProxySend) (owner : Str → Str) (whoami : Str) (destroyed : Bool)
    (newDest : Option Str) : RequestProxySend :=
  let s := { s with destinations := s.destinations ++ [newDest] }
  if newDest = some whoami then { s.retried owner .handledLocally with waiting := .handled }
  else (s.retried owner (.to newDest)).send destroyed newDest

def attemptRetry (s : RequestProxySend) (owner : Str → Str) (whoami : Str) (destroyed : Bool) :
    RequestProxySend :=
  let s := { s with numRetries := s.numRetries + 1 }
  let dests := if s.skipLookupOnRetry then [s.host] else lookupKeys owner s.keys
  if dests.length > 1 then
    (s.retried owner .aborted).callBack (.error (.keysDiverged s.keys s.host dests))
  else if dests.head? = some s.host then
    (s.retried owner (.to (some s.host))).send destroyed (some s.host)
  else s.rerouteRetry owner whoami destroyed dests.head?

/-- The callback that the event stands for is waited for. -/
def due (s : RequestProxySend) : SendEvent → Bool
  | .onTick => match s.waiting with | .tick _ => true | _ => false
  | .onRequest _ => match s.waiting with | .identified _ => true | _ => false
  | .onSend _ => match s.waiting with | .answer => true | _ => false
  | .onTimeout _ => match s.waiting with | .timer => true | _ => false
  | .onHandled _ => match s.waiting with | .handled => true | _ => false

/-- What a due event does. -/
def handle (s : RequestProxySend) (owner : Str → Str) (whoami : Str) :
    SendEvent → RequestProxySend
  | .onTick => match s.waiting with | .tick result => s.callBack result | _ => s
  | .onRequest err => s.onRequest err
  | .onSend outcome => s.onSend outcome
  | .onTimeout destroyed => s.attemptRetry owner whoami destroyed
  | .onHandled result => s.callBack result

def step (s : RequestProxySend) (owner : Str → Str) (whoami : Str) (event : SendEvent) :
    RequestProxySend :=
  if s.due event then { s with steps := s.steps + 1 }.handle owner whoami event else s

/-- The first attempt and the retries that were not given up. -/
def attempts (s : RequestProxySend) : ℕ :=
  1 + s.retries.countP fun retry => retry.went.isAttempt

end RequestProxySend

/-- A retry goes to the one owner of all keys, which is the local node when it is handled
there, and is given up when they have more than one. -/
def Retry.Placed (whoami : Str) (retry : Retry) : Prop :=
  match retry.went with
  | .to host => ∃ d, host = some d ∧ d ≠ whoami ∧ ∀ owner ∈ retry.owners, owner = d
  | .handledLocally => ∀ owner ∈ retry.owners, owner = whoami
  | .aborted => ¬ ∃ d, ∀ owner ∈ retry.owners, owner = d

/-- Each delay is the one of the schedule, or the last one of it. -/
def Scheduled (retrySchedule : List ℚ) (delays : List (Option ℚ)) : Prop :=
  ∀ (i : ℕ) (delay : Option ℚ), delays[i]? = some delay → ∃ seconds,
    retrySchedule[i]?.or retrySchedule.getLast? = some seconds ∧ delay = some (seconds * 1000)

theorem Scheduled.append {retrySchedule : List ℚ} {delays : List (Option ℚ)}
    (h : Scheduled retrySchedule delays) (entries : retrySchedule ≠ []) :
    Scheduled retrySchedule (delays ++ [(retrySchedule[delays.length]?.map (· * 1000)).or
      (retrySchedule.getLast?.map (· * 1000))]) := by
  intro i delay found
  rw [← Option.map_or, List.getElem?_append] at found
  split at found
  case isTrue => exact h i delay found
  case isFalse past =>
    obtain ⟨first, rfl⟩ : i - delays.length = 0 ∧ _ = delay := by
      rw [List.getElem?_singleton] at found
      split at found
      case isTrue first => exact ⟨first, Option.some.inj found⟩
      case isFalse => cases found
    obtain rfl : i = delays.length := by omega
    rw [List.getLast?_eq_some_getLast entries]
    cases retrySchedule[delays.length]? with
    | none => exact ⟨_, rfl, rfl⟩
    | some seconds => exact ⟨seconds, rfl, rfl⟩

/-- What is promised of a send in every state. -/
structure RequestProxySend.Delivers (whoami : Str) (s : RequestProxySend) : Prop where
  once : s.callbacks.length = if s.waiting.isNothing then 1 else 0
  ends : s.waiting.isNothing = false → s.steps < 3 * (s.maxRetries + 1)
  attempts : s.attempts ≤ s.maxRetries + 1
  scheduled : s.retries.length ≤ s.delays.length
  delays : Scheduled s.retrySchedule s.delays
  placed : s.skipLookupOnRetry = false → ∀ retry ∈ s.retries, retry.Placed whoami
  aborted : ∀ retry ∈ s.retries, retry.went = .aborted →
    ∃ dests, s.callbacks = [.error (.keysDiverged s.keys s.host dests)]

/-- A send in a node whose ring changes. -/
structure Sending where
  ring : HashRing
  send : RequestProxySend

inductive SendingEvent where
  | ringChange (op : Op)
  | send (event : SendEvent)

namespace Sending

def new (ring : HashRing) (opts : SendOptions) (destroyed : Bool) : Sending :=
  ⟨ring, (RequestProxySend.new opts).send destroyed (some opts.host)⟩

def step (o : Options) (whoami : Address) (s : Sending) : SendingEvent → Sending
  | .ringChange op => { s with ring := (op.apply o s.ring).1 }
  | .send event => { s with send := s.send.step (lookup o whoami s.ring) whoami.name event }

end Sending

namespace RequestProxySend
variable {s : RequestProxySend} {owner : Str → Str} {whoami : Str}

/-- How many callbacks of others are left at most, with so many retries to go. -/
def left (retries : ℕ) : Waiting → ℕ
  | .identified _ => 3 * retries + 3
  | .answer => 3 * retries + 2
  | .timer => 3 * retries + 1
  | .tick _ | .handled => 1
  | .nothing => 0

/-- The invariant of a send. -/
structure Sound (whoami : Str) (s : RequestProxySend) : Prop where
  once : s.callbacks.length = if s.waiting.isNothing then 1 else 0
  counted : s.retries.length = s.numRetries
  budget : s.numRetries ≤ s.maxRetries
  timer : s.waiting = .timer → s.numRetries < s.maxRetries ∧ s.delays.length = s.numRetries + 1
  idle : s.waiting ≠ .timer → s.delays.length = s.numRetries
  steps : s.steps + left (s.maxRetries - s.numRetries) s.waiting ≤ 3 * (s.maxRetries + 1)
  delays : Scheduled s.retrySchedule s.delays
  placed : s.skipLookupOnRetry = false → ∀ retry ∈ s.retries, retry.Placed whoami
  aborted : ∀ retry ∈ s.retries, retry.went = .aborted →
    ∃ dests, s.callbacks = [.error (.keysDiverged s.keys s.host dests)]

theorem left_pos (retries : ℕ) {waiting : Waiting} (busy : waiting.isNothing = false) :
    0 < left retries waiting := by
  cases waiting with
  | nothing => cases busy
  | tick | identified | answer | timer | handled => exact Nat.succ_pos _

theorem Sound.delivers (sound : s.Sound whoami) : s.Delivers whoami where
  once := sound.once
  ends busy := by
    have some := left_pos (s.maxRetries - s.numRetries) busy
    have steps := sound.steps
    omega
  attempts := by
    have counted := sound.counted
    have budget := sound.budget
    have among : s.retries.countP (fun retry => retry.went.isAttempt) ≤ s.retries.length :=
      List.countP_le_length
    unfold RequestProxySend.attempts
    omega
  scheduled := by
    have counted := sound.counted
    by_cases timer : s.waiting = .timer
    · have := (sound.timer timer).2
      omega
    · have := sound.idle timer
      omega
  delays := sound.delays
  placed := sound.placed
  aborted := sound.aborted

/-- No retry has been given up as long as something is waited for. -/
theorem Sound.going (sound : s.Sound whoami) (busy : s.waiting.isNothing = false) :
    s.callbacks = [] ∧ ∀ retry ∈ s.retries, retry.went ≠ .aborted := by
  have none : s.callbacks = [] := by
    have once := sound.once
    rw [busy, if_neg Bool.false_ne_true] at once
    exact List.length_eq_zero_iff.mp once
  refine ⟨none, fun retry listed gone => ?_⟩
  obtain ⟨dests, called⟩ := sound.aborted retry listed gone
  rw [none] at called
  cases called

theorem sound_new (opts : SendOptions) (destroyed : Bool) :
    ((new opts).send destroyed (some opts.host)).Sound whoami where
  once := by cases destroyed <;> rfl
  counted := rfl
  budget := Nat.zero_le _
  timer h := by cases destroyed <;> cases h
  idle _ := rfl
  steps := by cases destroyed <;> simp [send, new, left] <;> omega
  delays i delay h := by cases h
  placed _ retry h := by cases h
  aborted retry h := by cases h

/-- The callback is called when it has not been before. -/
theorem Sound.callBack (sound : s.Sound whoami) (busy : s.waiting.isNothing = false)
    (quiet : s.waiting ≠ .timer) (errors : List Str) (result : SendResult) :
    (({ s with steps := s.steps + 1, errors := errors } : RequestProxySend).callBack
      result).Sound whoami := by
  obtain ⟨none, going⟩ := sound.going busy
  have some := left_pos (s.maxRetries - s.numRetries) busy
  have steps := sound.steps
  exact
    { sound with
      once := by simp [RequestProxySend.callBack, none, Waiting.isNothing]
      timer := fun h => by cases h
      idle := fun _ => sound.idle quiet
      steps := by simp only [RequestProxySend.callBack, left]; omega
      aborted := fun retry listed gone => absurd gone (going retry listed) }

/-- The send waits for something else. -/
theorem Sound.waits (sound : s.Sound whoami) (busy : s.waiting.isNothing = false)
    (quiet : s.waiting ≠ .timer) {waiting : Waiting} (still : waiting.isNothing = false)
    (quiet' : waiting ≠ .timer)
    (fewer : left (s.maxRetries - s.numRetries) waiting <
      left (s.maxRetries - s.numRetries) s.waiting) :
    ({ s with steps := s.steps + 1, waiting := waiting } : RequestProxySend).Sound whoami := by
  have steps := sound.steps
  exact
    { sound with
      once := by simp [still, (sound.going busy).1]
      timer := fun h => absurd h quiet'
      idle := fun _ => sound.idle quiet
      steps := by simp only; omega }

/-- The delay is the one of the schedule, which has a last entry. -/
theorem Sound.scheduleRetry (sound : s.Sound whoami) (answered : s.waiting = .answer)
    (more : s.numRetries < s.maxRetries) (entries : s.retrySchedule ≠ []) (errors : List Str) :
    (({ s with steps := s.steps + 1, errors := errors } : RequestProxySend).scheduleRetry).Sound
      whoami := by
  have quiet : s.waiting ≠ .timer := fun h => by cases answered.symm.trans h
  have none := (sound.going (by rw [answered]; rfl)).1
  have steps := sound.steps
  have length := sound.idle quiet
  have delays := sound.delays.append entries
  rw [answered, left] at steps
  rw [length] at delays
  exact
    { sound with
      once := by simp [RequestProxySend.scheduleRetry, none, Waiting.isNothing]
      timer := fun _ => ⟨more, by
        rw [RequestProxySend.scheduleRetry, List.length_append, length]
        rfl⟩
      idle := fun h => absurd rfl h
      steps := by simp only [RequestProxySend.scheduleRetry, left]; omega
      delays := delays }

theorem mem_lookupKeys {owner : Str → Str} {keys : List Str} {dest : Str} :
    dest ∈ lookupKeys owner keys ↔ ∃ key ∈ keys, owner key = dest := by
  rw [lookupKeys, mem_propertyOrder, Dict.mem_keys, Dict.has_foldl_set]
  simp

theorem nodup_lookupKeys (owner : Str → Str) (keys : List Str) : (lookupKeys owner keys).Nodup :=
  nodup_propertyOrder (Dict.nodup_keys _)

/-- All keys have one owner. -/
theorem shared_iff {keys : List Str} :
    (lookupKeys owner keys).length ≤ 1 ↔ ∃ d, ∀ dest ∈ keys.map owner, dest = d := by
  have same (dest : Str) : dest ∈ keys.map owner ↔ dest ∈ lookupKeys owner keys := by
    rw [mem_lookupKeys, List.mem_map]
  simp only [same]
  have nodup := nodup_lookupKeys owner keys
  revert nodup
  rcases lookupKeys owner keys with _ | ⟨d, _ | ⟨d', rest⟩⟩ <;> intro nodup
  · exact iff_of_true (Nat.zero_le 1) ⟨[], fun _ h => by cases h⟩
  · exact iff_of_true (Nat.le_refl 1) ⟨d, fun _ h => List.mem_singleton.mp h⟩
  · refine iff_of_false (by simp) ?_
    rintro ⟨e, all⟩
    have first := all d List.mem_cons_self
    have second := all d' (List.mem_cons_of_mem _ List.mem_cons_self)
    refine (List.nodup_cons.mp nodup).1 ?_
    rw [first, ← second]
    exact List.mem_cons_self

/-- What a retry does to a send that waits for its timer. -/
theorem Sound.retry (sound : s.Sound whoami) (scheduled : s.waiting = .timer) (retry : Retry)
    (waiting : Waiting) (callbacks : List SendResult) (destinations : List (Option Str))
    (placed : s.skipLookupOnRetry = false → retry.Placed whoami) (quiet : waiting ≠ .timer)
    (once : callbacks.length = if waiting.isNothing then 1 else 0)
    (fewer : left (s.maxRetries - (s.numRetries + 1)) waiting ≤
      3 * (s.maxRetries - (s.numRetries + 1)) + 3)
    (aborted : retry.went = .aborted →
      ∃ dests, callbacks = [.error (.keysDiverged s.keys s.host dests)]) :
    ({ s with
      steps := s.steps + 1
      numRetries := s.numRetries + 1
      destinations := destinations
      retries := s.retries ++ [retry]
      waiting := waiting
      callbacks := callbacks } : RequestProxySend).Sound whoami := by
  obtain ⟨more, length⟩ := sound.timer scheduled
  have going := (sound.going (by rw [scheduled]; rfl)).2
  have steps := sound.steps
  rw [scheduled, left] at steps
  exact
    { once := once
      counted := by rw [List.length_append, sound.counted]; rfl
      budget := more
      timer := fun h => absurd h quiet
      idle := fun _ => length
      steps := by simp only; omega
      delays := sound.delays
      placed := fun looks r listed => by
        rcases List.mem_append.mp listed with before | this
        · exact sound.placed looks r before
        · exact List.mem_singleton.mp this ▸ placed looks
      aborted := fun r listed gone => by
        rcases List.mem_append.mp listed with before | this
        · exact absurd gone (going r before)
        · exact aborted (List.mem_singleton.mp this ▸ gone) }

theorem Sound.resend (sound : s.Sound whoami) (scheduled : s.waiting = .timer)
    {host : Option Str} (destinations : List (Option Str)) (destroyed : Bool)
    (placed : s.skipLookupOnRetry = false → Retry.Placed whoami ⟨s.keys.map owner, .to host⟩) :
    ((({ s with
      steps := s.steps + 1
      numRetries := s.numRetries + 1
      destinations := destinations } : RequestProxySend).retried owner (.to host)).send destroyed
        host).Sound whoami := by
  have none := (sound.going (by rw [scheduled]; rfl)).1
  refine sound.retry scheduled _ _ _ destinations placed ?_ ?_ ?_ fun gone => by cases gone
  · cases destroyed <;> exact fun h => by cases h
  · simp only [RequestProxySend.retried, none]
    cases destroyed <;> rfl
  · cases destroyed
    · exact Nat.le_refl _
    · exact Nat.le_trans (by decide : 1 ≤ 3) (Nat.le_add_left 3 _)

/-- What a timer that is due finds: keys, and an owner that the first attempt has not taken
for a remote one. -/
def Placeable (s : RequestProxySend) (owner : Str → Str) (whoami : Str) : Prop :=
  s.skipLookupOnRetry = false →
    s.keys ≠ [] ∧ (s.host = whoami → ∃ key ∈ s.keys, owner key ≠ whoami)

theorem attemptRetry_skip (s : RequestProxySend) (skip : s.skipLookupOnRetry = true)
    (destroyed : Bool) :
    s.attemptRetry owner whoami destroyed =
      (({ s with numRetries := s.numRetries + 1 } : RequestProxySend).retried owner
        (.to (some s.host))).send destroyed (some s.host) := by
  simp [RequestProxySend.attemptRetry, skip]

theorem attemptRetry_diverged (s : RequestProxySend) (looks : s.skipLookupOnRetry = false)
    (diverged : (lookupKeys owner s.keys).length > 1) (destroyed : Bool) :
    s.attemptRetry owner whoami destroyed =
      (({ s with numRetries := s.numRetries + 1 } : RequestProxySend).retried owner
        .aborted).callBack (.error (.keysDiverged s.keys s.host (lookupKeys owner s.keys))) := by
  simp [RequestProxySend.attemptRetry, looks, diverged]

theorem attemptRetry_one (s : RequestProxySend) (looks : s.skipLookupOnRetry = false)
    (one : ¬ (lookupKeys owner s.keys).length > 1) (destroyed : Bool) :
    s.attemptRetry owner whoami destroyed =
      let next : RequestProxySend := { s with numRetries := s.numRetries + 1 }
      let newDest := (lookupKeys owner s.keys).head?
      if newDest = some s.host then
        (next.retried owner (.to (some s.host))).send destroyed (some s.host)
      else next.rerouteRetry owner whoami destroyed newDest := by
  simp only [RequestProxySend.attemptRetry, looks, Bool.false_eq_true, if_false, one]

/-- The keys that have one owner are looked up as that owner. -/
theorem head_lookupKeys {keys : List Str} {d : Str} (some : keys ≠ [])
    (owned : ∀ dest ∈ keys.map owner, dest = d) : (lookupKeys owner keys).head? = .some d := by
  obtain ⟨key, listed⟩ := List.exists_mem_of_ne_nil _ some
  have mine : owner key ∈ lookupKeys owner keys := mem_lookupKeys.mpr ⟨key, listed, rfl⟩
  have only (dest : Str) (found : dest ∈ lookupKeys owner keys) : dest = d := by
    obtain ⟨key, listed, rfl⟩ := mem_lookupKeys.mp found
    exact owned _ (List.mem_map_of_mem listed)
  rw [List.head?_eq_some_head (List.ne_nil_of_mem mine), only _ (List.head_mem _)]

theorem Sound.attemptRetry (sound : s.Sound whoami) (scheduled : s.waiting = .timer)
    (placeable : s.Placeable owner whoami) (destroyed : Bool) :
    (({ s with steps := s.steps + 1 } : RequestProxySend).attemptRetry owner whoami
      destroyed).Sound whoami := by
  have none := (sound.going (by rw [scheduled]; rfl)).1
  by_cases skip : s.skipLookupOnRetry = true
  case pos =>
    rw [attemptRetry_skip { s with steps := s.steps + 1 } skip]
    exact sound.resend scheduled s.destinations destroyed fun looks => by
      cases skip.symm.trans looks
  case neg =>
    have looks : s.skipLookupOnRetry = false := Bool.eq_false_iff.mpr skip
    obtain ⟨keys, elsewhere⟩ := placeable looks
    by_cases diverged : (lookupKeys owner s.keys).length > 1
    case pos =>
      rw [attemptRetry_diverged { s with steps := s.steps + 1 } looks diverged]
      refine sound.retry scheduled ⟨s.keys.map owner, .aborted⟩ .nothing _ s.destinations
        (fun _ shared => ?_) (fun h => by cases h) ?_ (Nat.zero_le _)
        fun _ => ⟨lookupKeys owner s.keys, ?_⟩
      · exact absurd (shared_iff.mpr shared) (not_le.mpr diverged)
      · simp [RequestProxySend.retried, none, Waiting.isNothing]
      · simp [RequestProxySend.retried, none]
    case neg =>
      obtain ⟨d, owned⟩ := shared_iff.mp (not_lt.mp diverged)
      rw [attemptRetry_one { s with steps := s.steps + 1 } looks diverged]
      simp only [head_lookupKeys keys owned]
      split
      case isTrue same =>
        refine sound.resend scheduled s.destinations destroyed fun _ => ⟨d, same.symm, ?_, owned⟩
        intro here
        obtain ⟨key, listed, away⟩ := elsewhere ((Option.some.inj same).symm.trans here)
        exact away ((owned _ (List.mem_map_of_mem listed)).trans here)
      case isFalse =>
        unfold RequestProxySend.rerouteRetry
        simp only
        split
        case isTrue here =>
          refine sound.retry scheduled ⟨s.keys.map owner, .handledLocally⟩ .handled _ _
            (fun _ dest listed => (owned dest listed).trans (Option.some.inj here))
            (fun h => by cases h) ?_ ?_ fun gone => by cases gone
          · simp [RequestProxySend.retried, none, Waiting.isNothing]
          · exact Nat.le_trans (by decide : 1 ≤ 3) (Nat.le_add_left 3 _)
        case isFalse away =>
          exact sound.resend scheduled _ destroyed fun _ =>
            ⟨d, rfl, fun here => away (congrArg some here), owned⟩

/-- A retry that is scheduled has a schedule, and one that is due can be placed. -/
def Foreseen (s : RequestProxySend) (owner : Str → Str) (whoami : Str) : SendEvent → Prop
  | .onSend outcome => s.due (.onSend outcome) = true → outcome.err.isSome = true →
      s.numRetries < s.maxRetries → s.retrySchedule ≠ []
  | .onTimeout destroyed => s.due (.onTimeout destroyed) = true → s.Placeable owner whoami
  | _ => True

theorem step_of_due {event : SendEvent} (due : s.due event = true) :
    s.step owner whoami event =
      ({ s with steps := s.steps + 1 } : RequestProxySend).handle owner whoami event := if_pos due

theorem step_of_not_due {event : SendEvent} (early : s.due event = false) :
    s.step owner whoami event = s := if_neg (by rw [early]; exact Bool.false_ne_true)

/-- What a send that is due waits for. -/
theorem waiting_of_due {event : SendEvent} (due : s.due event = true) :
    match event with
    | .onTick => ∃ result, s.waiting = .tick result
    | .onRequest _ => ∃ host, s.waiting = .identified host
    | .onSend _ => s.waiting = .answer
    | .onTimeout _ => s.waiting = .timer
    | .onHandled _ => s.waiting = .handled := by
  cases event <;> simp only [RequestProxySend.due] at due ⊢ <;> split at due <;> simp_all

theorem Sound.onSend (sound : s.Sound whoami) (answered : s.waiting = .answer)
    {outcome : SendOutcome}
    (foreseen : outcome.err.isSome = true → s.numRetries < s.maxRetries → s.retrySchedule ≠ []) :
    (({ s with steps := s.steps + 1 } : RequestProxySend).onSend outcome).Sound whoami := by
  have busy : s.waiting.isNothing = false := by rw [answered]; rfl
  have quiet : s.waiting ≠ .timer := fun h => by cases answered.symm.trans h
  unfold RequestProxySend.onSend
  split
  case isTrue =>
    refine sound.waits busy quiet rfl (fun h => by cases h) ?_
    rw [answered]
    exact Nat.le_add_left 2 _
  case isFalse retries =>
    cases failed : outcome.err with
    | none => exact sound.callBack busy quiet s.errors _
    | some err =>
      simp only
      split
      case isTrue => exact sound.callBack busy quiet _ _
      case isFalse more =>
        exact sound.scheduleRetry answered (not_le.mp more)
          (foreseen (by rw [failed]; rfl) (not_le.mp more)) _

theorem Sound.step (sound : s.Sound whoami) {event : SendEvent}
    (foreseen : s.Foreseen owner whoami event) : (s.step owner whoami event).Sound whoami := by
  cases due : s.due event with
  | false =>
    rw [step_of_not_due due]
    exact sound
  | true =>
    rw [step_of_due due]
    have waiting := waiting_of_due due
    cases event with
    | onTick =>
      obtain ⟨result, waiting⟩ := waiting
      have busy : s.waiting.isNothing = false := by rw [waiting]; rfl
      simp only [RequestProxySend.handle, waiting]
      exact sound.callBack busy (fun h => by cases waiting.symm.trans h) s.errors result
    | onRequest err =>
      obtain ⟨host, waiting⟩ := waiting
      have busy : s.waiting.isNothing = false := by rw [waiting]; rfl
      have quiet : s.waiting ≠ .timer := fun h => by cases waiting.symm.trans h
      cases err with
      | some message => exact sound.callBack busy quiet s.errors _
      | none =>
        refine sound.waits busy quiet rfl (fun h => by cases h) ?_
        rw [waiting]
        exact Nat.lt_succ_self _
    | onSend outcome => exact sound.onSend waiting (foreseen due)
    | onTimeout destroyed => exact sound.attemptRetry waiting (foreseen due) destroyed
    | onHandled result =>
      have busy : s.waiting.isNothing = false := by rw [waiting]; rfl
      exact sound.callBack busy (fun h => by cases waiting.symm.trans h) s.errors result

/-- Without an entry, the delay is not a number. -/
theorem not_delivers_of_schedule {outcome : SendOutcome}
    (failed : outcome.err.isSome = true) (more : s.numRetries < s.maxRetries)
    (empty : s.retrySchedule = []) :
    ¬ (({ s with steps := s.steps + 1 } : RequestProxySend).onSend outcome).Delivers whoami := by
  intro delivers
  obtain ⟨err, failed⟩ := Option.isSome_iff_exists.mp failed
  have next : ({ s with steps := s.steps + 1 } : RequestProxySend).onSend outcome =
      ({ s with steps := s.steps + 1, errors := s.errors ++ [err] } :
        RequestProxySend).scheduleRetry := by
    rw [RequestProxySend.onSend, if_neg (Nat.ne_zero_of_lt more)]
    simp only [failed, ge_iff_le, not_le.mpr more, if_false]
  rw [next] at delivers
  have last : (s.delays ++ [(none : Option ℚ)])[s.delays.length]? = some none := by
    rw [List.getElem?_append_right (Nat.le_refl _), Nat.sub_self]
    rfl
  have delays := delivers.delays s.delays.length none
  simp only [RequestProxySend.scheduleRetry, maxRetryTimeout, empty, List.getElem?_nil,
    List.getLast?_nil, Option.map_none, Option.or_none] at delays
  obtain ⟨_, -, number⟩ := delays last
  cases number

/-- Without a key, or when the first attempt went to the node itself, a retry is misplaced. -/
theorem not_delivers_of_timer (misplaced : ¬ s.Placeable owner whoami) (destroyed : Bool) :
    ¬ (({ s with steps := s.steps + 1 } : RequestProxySend).attemptRetry owner whoami
      destroyed).Delivers whoami := by
  intro delivers
  simp only [Placeable, Classical.not_imp, not_and_or, not_not, not_exists] at misplaced
  obtain ⟨looks, wrong⟩ := misplaced
  have placed {next : RequestProxySend} {host : Option Str} (delivers : next.Delivers whoami)
      (same : next.retries = s.retries ++ [⟨s.keys.map owner, .to host⟩])
      (still : next.skipLookupOnRetry = false) : ∃ d, host = some d ∧ d ≠ whoami := by
    obtain ⟨d, defined, away, -⟩ := delivers.placed still ⟨s.keys.map owner, .to host⟩
      (same ▸ List.mem_append_right _ List.mem_cons_self)
    exact ⟨d, defined, away⟩
  by_cases none : s.keys = []
  case pos =>
    have nobody : lookupKeys owner s.keys = [] := by rw [none]; rfl
    rw [attemptRetry_one { s with steps := s.steps + 1 } looks (by simp [nobody])] at delivers
    simp only [nobody, List.head?_nil, reduceCtorEq, if_false, rerouteRetry] at delivers
    obtain ⟨d, undefined, -⟩ := placed delivers rfl looks
    cases undefined
  case neg =>
    obtain ⟨here, mine⟩ := wrong.resolve_left none
    have owned : ∀ dest ∈ s.keys.map owner, dest = whoami := by
      intro dest listed
      obtain ⟨key, among, rfl⟩ := List.mem_map.mp listed
      exact (mine key).resolve_left (not_not.mpr among)
    have one : ¬ (lookupKeys owner s.keys).length > 1 := not_lt.mpr (shared_iff.mpr ⟨_, owned⟩)
    rw [attemptRetry_one { s with steps := s.steps + 1 } looks one] at delivers
    simp only [head_lookupKeys none owned, here, if_true] at delivers
    obtain ⟨d, defined, away⟩ := placed delivers rfl looks
    exact away (Option.some.inj defined).symm

theorem not_delivers_of_unforeseen {event : SendEvent}
    (unforeseen : ¬ s.Foreseen owner whoami event) :
    ¬ (s.step owner whoami event).Delivers whoami := by
  cases event with
  | onTick | onRequest | onHandled => exact absurd trivial unforeseen
  | onSend outcome =>
    simp only [Foreseen, Classical.not_imp, not_not] at unforeseen
    obtain ⟨due, failed, more, empty⟩ := unforeseen
    rw [step_of_due due]
    exact not_delivers_of_schedule failed more empty
  | onTimeout destroyed =>
    simp only [Foreseen, Classical.not_imp] at unforeseen
    obtain ⟨due, misplaced⟩ := unforeseen
    rw [step_of_due due]
    exact not_delivers_of_timer misplaced destroyed

end RequestProxySend

namespace Sending

def Foreseen (o : Options) (whoami : Address) (s : Sending) : SendingEvent → Prop
  | .ringChange _ => True
  | .send event => s.send.Foreseen (lookup o whoami s.ring) whoami.name event

/-- A send delivers in every state of a run exactly when no retry is scheduled without a
schedule, made without a key, or made for the node itself after a first attempt there. -/
theorem run_delivers_iff (o : Options) (whoami : Address) (ring : HashRing) (opts : SendOptions)
    (destroyed : Bool) (events : List SendingEvent) :
    (∀ reached, reached <+: events →
      (reached.foldl (step o whoami) (new ring opts destroyed)).send.Delivers whoami.name) ↔
      Runs.Throughout (step o whoami) (Foreseen o whoami) (new ring opts destroyed) events := by
  refine Runs.always_iff_throughout (fun s : Sending => s.send.Sound whoami.name)
    (fun s : Sending => s.send.Delivers whoami.name) (fun _ sound => sound.delivers)
    (fun s event sound foreseen => ?_) (fun s event sound unforeseen => ?_)
    (RequestProxySend.sound_new opts destroyed) events
  · cases event with
    | ringChange => exact sound
    | send event => exact sound.step foreseen
  · cases event with
    | ringChange => exact absurd trivial unforeseen
    | send event => exact RequestProxySend.not_delivers_of_unforeseen unforeseen

/-- Without keys, with the node itself as the first destination, and without a schedule. -/
theorem run_misplaced :
    let o : Options := ⟨1, fun s => s.length⟩
    let whoami := Address.of "a:1" (by decide)
    let request : HttpRequest := ⟨str "/", [], str "GET", str "1.1"⟩
    let run (keys : List Str) (host : Str) (schedule : Option (List ℚ)) : Sending :=
      [.send (.onRequest none), .send (.onSend (.error (str "timed out"))),
        .send (.onTimeout false)].foldl (step o whoami)
        (new .new ⟨keys, host, request, [], some 1, schedule, false⟩ false)
    ¬ (run [] (str "b:1") none).send.Delivers whoami.name ∧
      ¬ (run [str "k"] whoami.name none).send.Delivers whoami.name ∧
      ¬ (run [str "k"] (str "b:1") (some [])).send.Delivers whoami.name := by
  intro o whoami request run
  refine ⟨fun delivers => ?_, fun delivers => ?_, fun delivers => ?_⟩
  · have retried : ⟨[], .to none⟩ ∈ (run [] (str "b:1") none).send.retries := by decide +kernel
    obtain ⟨d, undefined, -⟩ := delivers.placed (by decide +kernel) _ retried
    cases undefined
  · have retried : ⟨[whoami.name], .to (some whoami.name)⟩ ∈
        (run [str "k"] whoami.name none).send.retries := by decide +kernel
    obtain ⟨d, same, away, -⟩ := delivers.placed (by decide +kernel) _ retried
    exact away (Option.some.inj same).symm
  · have scheduled : (run [str "k"] (str "b:1") (some [])).send.delays[0]? = some none := by
      decide +kernel
    obtain ⟨seconds, -, number⟩ := delivers.delays 0 none scheduled
    cases number

end Sending
end Ringpop.Forwarding
