import Ringpop.InflightRequests

/-! The end of forwarding: every callback that a forward waits for uses up some of what is left
of its retries, so that all forwards finish once no request comes any more. -/
namespace Ringpop.Forwarding
open JsString Dictionary Ringpop.Ring Ringpop.Members

namespace RequestProxySend
variable {s : RequestProxySend}

/-- How many callbacks of others are left at most. -/
def remaining (s : RequestProxySend) : ℕ := left (s.maxRetries - s.numRetries) s.waiting

/-- The timer runs only while there is a retry left for it. -/
def Budgeted (s : RequestProxySend) : Prop := s.waiting = .timer → s.numRetries < s.maxRetries

/-- A request that the node handles itself waits for one callback more, that of its response. -/
def responses (waiting : Waiting) : ℕ := if Traffic.isHandled waiting then 1 else 0

/-- What an attempt waits for, with so many retries to go. -/
def Attempted (retries : ℕ) (waiting : Waiting) : Prop :=
  waiting ≠ .timer ∧ left retries waiting + responses waiting ≤ 3 * retries + 3

theorem waiting_send (s : RequestProxySend) (destroyed : Bool) (host : Option Str) :
    (s.send destroyed host).waiting = .tick (.error .channelDestroyed) ∨
      (s.send destroyed host).waiting = .identified host := by
  cases destroyed with
  | true => exact .inl rfl
  | false => exact .inr rfl

theorem attempted_send (s : RequestProxySend) (destroyed : Bool) (host : Option Str)
    (retries : ℕ) : Attempted retries (s.send destroyed host).waiting := by
  rcases s.waiting_send destroyed host with waiting | waiting
  · rw [waiting]
    exact ⟨fun h => (by cases h), Nat.succ_le_succ (Nat.zero_le _)⟩
  · rw [waiting]
    exact ⟨fun h => (by cases h), Nat.le_refl _⟩

/-- A retry is given up, or is one attempt more. -/
theorem attempted_attemptRetry (s : RequestProxySend) (owner : Str → Str) (whoami : Str)
    (destroyed : Bool) (retries : ℕ) :
    (s.attemptRetry owner whoami destroyed).numRetries = s.numRetries + 1 ∧
      (s.attemptRetry owner whoami destroyed).maxRetries = s.maxRetries ∧
      Attempted retries (s.attemptRetry owner whoami destroyed).waiting := by
  unfold attemptRetry
  simp only
  generalize (if s.skipLookupOnRetry then [s.host] else lookupKeys owner s.keys) = dests
  split
  case isTrue => exact ⟨rfl, rfl, fun h => (by cases h), Nat.zero_le _⟩
  case isFalse =>
    split
    case isTrue => exact ⟨rfl, rfl, attempted_send _ _ _ _⟩
    case isFalse =>
      unfold rerouteRetry
      simp only
      split
      case isTrue =>
        refine ⟨rfl, rfl, fun h => (by cases h), ?_⟩
        exact Nat.succ_le_succ (Nat.succ_le_succ (Nat.zero_le _))
      case isFalse => exact ⟨rfl, rfl, attempted_send _ _ _ _⟩

/-- A callback that is waited for leaves fewer of them. -/
theorem remaining_step (owner : Str → Str) (whoami : Str) (budgeted : s.Budgeted)
    {event : SendEvent} (due : s.due event = true) :
    (s.step owner whoami event).Budgeted ∧
      (s.step owner whoami event).maxRetries = s.maxRetries ∧
      (s.step owner whoami event).remaining +
        responses (s.step owner whoami event).waiting < s.remaining := by
  have waiting := waiting_of_due due
  rw [step_of_due due]
  cases event with
  | onTick =>
    obtain ⟨result, waiting⟩ := waiting
    simp only [handle, waiting, remaining]
    exact ⟨fun h => (by cases h), rfl, Nat.zero_lt_one⟩
  | onRequest err =>
    obtain ⟨host, waiting⟩ := waiting
    rw [remaining, remaining, waiting]
    cases err with
    | some message => exact ⟨fun h => (by cases h), rfl, Nat.succ_pos _⟩
    | none => exact ⟨fun h => (by cases h), rfl, Nat.lt_succ_self _⟩
  | onSend outcome =>
    rw [remaining, remaining, waiting, handle, onSend]
    split
    case isTrue => exact ⟨fun h => (by cases h), rfl, Nat.succ_lt_succ (Nat.succ_pos _)⟩
    case isFalse =>
      split
      case h_1 => exact ⟨fun h => (by cases h), rfl, Nat.succ_pos _⟩
      case h_2 =>
        simp only
        split
        case isTrue => exact ⟨fun h => (by cases h), rfl, Nat.succ_pos _⟩
        case isFalse more => exact ⟨fun _ => not_le.mp more, rfl, Nat.lt_succ_self _⟩
  | onTimeout destroyed =>
    have more : s.numRetries < s.maxRetries := budgeted waiting
    have before : s.remaining = 3 * (s.maxRetries - s.numRetries) + 1 := by
      rw [remaining, waiting, left]
    obtain ⟨next, max, quiet, fewer⟩ : _ = s.numRetries + 1 ∧ _ = s.maxRetries ∧ Attempted _ _ :=
      attempted_attemptRetry { s with steps := s.steps + 1 } owner whoami destroyed
        (s.maxRetries - (s.numRetries + 1))
    refine ⟨fun timer => absurd timer quiet, max, ?_⟩
    rw [before, handle, remaining, next, max]
    omega
  | onHandled result =>
    rw [remaining, remaining, waiting]
    exact ⟨fun h => (by cases h), rfl, Nat.zero_lt_one⟩

end RequestProxySend

/-- How many retries a request may have. -/
def Egress.maxRetries : Egress → ℕ
  | readingBody opts => (RequestProxySend.new opts).maxRetries
  | sending send => send.maxRetries
  | onProxy | finished => 0

/-- How many callbacks a request waits for at most, that of its send among them. -/
def Egress.work : Egress → ℕ
  | readingBody opts => 3 * ((RequestProxySend.new opts).maxRetries + 1) + 2
  | sending send => send.remaining + 1
  | onProxy => 1
  | finished => 0

theorem Egress.work_le (e : Egress) {retries : ℕ} (few : e.maxRetries ≤ retries) :
    e.work ≤ if e.unfinished then 3 * retries + 5 else 0 := by
  cases e with
  | readingBody opts =>
    simp only [maxRetries] at few
    simp only [work, unfinished, if_true]
    omega
  | sending send =>
    have most : send.remaining ≤ 3 * (send.maxRetries - send.numRetries) + 3 := by
      rw [RequestProxySend.remaining]
      generalize send.maxRetries - send.numRetries = retries
      cases send.waiting with
      | tick | identified | answer | timer | handled | nothing =>
        simp only [RequestProxySend.left]
        omega
    simp only [maxRetries] at few
    simp only [work, unfinished, if_true]
    omega
  | onProxy => exact Nat.succ_le_succ (Nat.zero_le _)
  | finished => exact Nat.le_refl 0

def TrafficEvent.isCallback : TrafficEvent → Bool
  | onBody _ _ _ | send _ _ _ | onProxy _ | onResponse _ _ => true
  | ringChange _ | proxyReq _ _ | handleRequest _ _ _ => false

namespace Traffic
variable {o : Options} {whoami : Address} {t : Traffic}

/-- How many callbacks are waited for at most. -/
def work (t : Traffic) : ℕ := (t.egress.map Egress.work).sum + t.ingress.length

/-- No request comes, and a callback is one that is waited for. -/
def Going (t : Traffic) : TrafficEvent → Prop
  | .ringChange _ => True
  | .proxyReq _ _ | .handleRequest _ _ _ => False
  | .onBody i _ _ => ∃ opts, t.egress[i]? = some (.readingBody opts)
  | .send i event _ => ∃ send, t.egress[i]? = some (.sending send) ∧ awaited send event = true
  | .onProxy i => t.egress[i]? = some .onProxy
  | .onResponse entry _ => entry < t.ingress.length

/-- A send waits for something, and where that is a response, the application has the request. -/
structure Waits (ingress : List (Option ℕ)) (i : ℕ) (send : RequestProxySend) : Prop where
  busy : send.waiting.isNothing = false
  budgeted : send.Budgeted
  handled : isHandled send.waiting = true → some i ∈ ingress

def Pending (t : Traffic) : Prop :=
  ∀ i send, t.egress[i]? = some (.sending send) → Waits t.ingress i send

theorem work_le {retries : ℕ} (few : ∀ e ∈ t.egress, e.maxRetries ≤ retries) :
    t.work ≤ (3 * retries + 5) * t.inFlight := by
  have egress : (t.egress.map Egress.work).sum ≤
      (3 * retries + 5) * t.egress.countP Egress.unfinished := by
    generalize t.egress = egress at few
    induction egress with
    | nil => exact Nat.zero_le _
    | cons e rest ih =>
      have first := e.work_le (few e List.mem_cons_self)
      have others := ih fun e listed => few e (List.mem_cons_of_mem _ listed)
      rw [List.map_cons, List.sum_cons, List.countP_cons, Nat.mul_add]
      cases unfinished : e.unfinished with
      | true =>
        rw [unfinished] at first
        simp only [if_true, Nat.mul_one] at first ⊢
        omega
      | false =>
        rw [unfinished] at first
        simp only [Bool.false_eq_true, if_false] at first ⊢
        omega
  have ingress : t.ingress.length ≤ (3 * retries + 5) * t.ingress.length :=
    Nat.le_mul_of_pos_left _ (Nat.succ_pos _)
  rw [work, inFlight, Nat.mul_add]
  omega

theorem work_setEgress {i : ℕ} {e : Egress} (here : t.egress[i]? = some e) (e' : Egress) :
    (t.setEgress i e').work + e.work = t.work + e'.work := by
  have sums : ((t.egress.set i e').map Egress.work).sum + e.work =
      (t.egress.map Egress.work).sum + e'.work := by
    generalize t.egress = egress at here
    induction egress generalizing i with
    | nil => cases here
    | cons first rest ih =>
      cases i with
      | zero =>
        obtain rfl := Option.some.inj here
        simp only [List.set_cons_zero, List.map_cons, List.sum_cons]
        omega
      | succ i =>
        have others := ih here
        simp only [List.set_cons_succ, List.map_cons, List.sum_cons]
        omega
  simp only [work, setEgress]
  omega

theorem pending_setEgress {i : ℕ} {e : Egress}
    (others : ∀ j send, j ≠ i → t.egress[j]? = some (.sending send) → Waits t.ingress j send)
    (waits : ∀ send, e = .sending send → Waits t.ingress i send) : (t.setEgress i e).Pending := by
  intro j send found
  simp only [Traffic.setEgress, List.getElem?_set] at found
  split at found
  case isTrue same =>
    subst same
    split at found
    case isTrue => exact waits send (Option.some.inj found)
    case isFalse => cases found
  case isFalse apart => exact others j send (Ne.symm apart) found

/-- A send that has called back leaves `onProxy` to be run. -/
theorem work_settled (next : RequestProxySend) :
    (if next.waiting.isNothing then Egress.onProxy else .sending next).work =
      next.remaining + 1 := by
  cases waiting : next.waiting with
  | nothing => simp [Waiting.isNothing, Egress.work, RequestProxySend.remaining, waiting,
      RequestProxySend.left]
  | tick | identified | answer | timer | handled => rfl

theorem pending_settle {i : ℕ} {next : RequestProxySend}
    (others : ∀ j send, j ≠ i → t.egress[j]? = some (.sending send) → Waits t.ingress j send)
    (budgeted : next.Budgeted) (handled : isHandled next.waiting = true → some i ∈ t.ingress) :
    (t.settle i next).Pending := by
  refine pending_setEgress others fun send same => ?_
  split at same
  case isTrue => cases same
  case isFalse busy =>
    obtain rfl := Egress.sending.inj same
    exact ⟨Bool.eq_false_iff.mpr busy, budgeted, handled⟩

/-- What is left once an event has been dealt with. -/
def Continues (t next : Traffic) : Prop := next.Pending ∧ next.work < t.work

theorem Pending.finish (pending : t.Pending) {i : ℕ} {e : Egress} (here : t.egress[i]? = some e)
    (unfinished : e.unfinished = true) : t.Continues (t.finish i) := by
  have some : 0 < e.work := by
    cases e with
    | readingBody | sending | onProxy => exact Nat.succ_pos _
    | finished => cases unfinished
  have less : (t.finish i).work + e.work = t.work + 0 := work_setEgress here .finished
  refine ⟨pending_setEgress (fun j send _ => pending j send) fun send same => ?_, by omega⟩
  cases same

theorem Pending.onBody (pending : t.Pending) {i : ℕ} {opts : SendOptions}
    (here : t.egress[i]? = some (.readingBody opts)) (rawBody : Option Str) (destroyed : Bool) :
    t.Continues (t.onBody i opts rawBody destroyed) := by
  cases rawBody with
  | none => exact pending.finish here rfl
  | some body =>
    let send := RequestProxySend.new { opts with body := body }
    have waiting := send.waiting_send destroyed (some opts.host)
    have attempted := send.attempted_send destroyed (some opts.host) send.maxRetries
    have less : (t.onBody i opts (some body) destroyed).work + (3 * (send.maxRetries + 1) + 2) =
        t.work + ((send.send destroyed (some opts.host)).remaining + 1) :=
      work_setEgress here _
    have most : (send.send destroyed (some opts.host)).remaining ≤ 3 * send.maxRetries + 3 :=
      le_trans (Nat.le_add_right _ _) attempted.2
    refine ⟨pending_setEgress (fun j send _ => pending j send) fun send' same => ?_, by omega⟩
    obtain rfl := Egress.sending.inj same
    refine ⟨?_, fun timer => absurd timer attempted.1, fun handled => ?_⟩
    · rcases waiting with waiting | waiting
      · exact waiting ▸ rfl
      · exact waiting ▸ rfl
    · rcases waiting with waiting | waiting
      · cases waiting ▸ handled
      · cases waiting ▸ handled

/-- A request that is received is one that waits for a response, or is refused. -/
theorem Pending.receive (pending : t.Pending) (o : Options) (whoami : Address) (head : RawHead)
    (body : Str) (forward : Option ℕ) (load : Load) :
    (t.receive o whoami head body forward load).1.Pending := by
  rcases receive_cases o whoami t head body forward load with ⟨_, refused, -⟩ | ⟨-, -, taken⟩
  · rw [refused]
    exact pending
  · rw [taken]
    intro i send found
    obtain ⟨busy, budgeted, handled⟩ := pending i send found
    exact ⟨busy, budgeted, fun waits => List.mem_append_left _ (handled waits)⟩

theorem Pending.sent (pending : t.Pending) {i : ℕ} {send : RequestProxySend}
    (here : t.egress[i]? = some (.sending send)) {event : SendEvent}
    (awaits : awaited send event = true) (load : Load) :
    t.Continues (t.sent o whoami i send event load) := by
  have due : send.due event = true := (Bool.and_eq_true _ _ ▸ awaits).1
  obtain ⟨budgeted, -, fewer⟩ := RequestProxySend.remaining_step (lookup o whoami t.ring)
    whoami.name (pending i send here).budgeted due
  rw [Traffic.sent]
  generalize send.step (lookup o whoami t.ring) whoami.name event = next at budgeted fewer
  rw [RequestProxySend.responses] at fewer
  have before : (Egress.sending send).work = send.remaining + 1 := rfl
  split
  case isTrue handled =>
    rw [if_pos handled] at fewer
    rcases receive_cases o whoami t (t.getRawHead next) next.body (some i) load with
      ⟨reason, refused, other, -⟩ | ⟨-, -, taken⟩
    · rw [refused]
      cases reason with
      | request r b h => exact absurd rfl (other r b h)
      | invalidCheckSum | invalidKey | tooManyRequests =>
        have less := work_setEgress here .onProxy
        refine ⟨pending_settle (fun j send _ => pending j send) (fun timer => by cases timer)
          (fun handled => by cases handled), ?_⟩
        change (t.setEgress i .onProxy).work < t.work
        simp only [Egress.work] at less
        omega
    · have received := pending.receive o whoami (t.getRawHead next) next.body (some i) load
      rw [taken] at received ⊢
      refine ⟨pending_settle (fun j send _ => received j send) budgeted fun _ =>
        List.mem_append_right _ List.mem_cons_self, ?_⟩
      have less := work_setEgress (t := { t with
          proxy := t.proxy.incrementInflightRequests load
          ingress := t.ingress ++ [some i]
          admissions := t.admissions ++ [t.admission load] }) here
        (if next.waiting.isNothing then .onProxy else .sending next)
      rw [work_settled, before] at less
      simp only [Traffic.settle, work, List.length_append, List.length_singleton] at less ⊢
      omega
  case isFalse going =>
    have less := work_setEgress here (if next.waiting.isNothing then .onProxy else .sending next)
    rw [work_settled, before] at less
    refine ⟨pending_settle (fun j send _ => pending j send) budgeted fun handled =>
      absurd handled going, ?_⟩
    rw [Traffic.settle]
    omega

theorem due_onHandled (send : RequestProxySend) (result : SendResult) :
    send.due (.onHandled result) = isHandled send.waiting := by
  rw [RequestProxySend.due]
  cases send.waiting with
  | tick | identified | answer | timer | handled | nothing => rfl

theorem Pending.onResponse (pending : t.Pending) {entry : ℕ} {forward : Option ℕ}
    (here : t.ingress[entry]? = some forward) (o : Options) (whoami : Address)
    (result : SendResult) : t.Continues (t.onResponse o whoami entry forward result) := by
  obtain ⟨inside, -⟩ := List.getElem?_eq_some_iff.mp here
  -- the request of another forward stays with the application
  have stays {j : ℕ} (other : forward ≠ some j) (waits : some j ∈ t.ingress) :
      some j ∈ t.ingress.eraseIdx entry := by
    obtain ⟨k, found⟩ := List.mem_iff_getElem?.mp waits
    refine List.mem_eraseIdx_iff_getElem?.mpr ⟨k, fun same => other ?_, found⟩
    exact Option.some.inj ((same ▸ here).symm.trans found)
  let rest : Traffic := { t with
    proxy := t.proxy.decrementInflightRequests, ingress := t.ingress.eraseIdx entry }
  have less : rest.work + 1 = t.work := by
    simp only [rest, work, List.length_eraseIdx_of_lt inside]
    omega
  have others {j : ℕ} {send : RequestProxySend} (found : t.egress[j]? = some (.sending send))
      (other : forward ≠ some j) : Waits rest.ingress j send := by
    obtain ⟨busy, budgeted, handled⟩ := pending j send found
    exact ⟨busy, budgeted, fun waits => stays other (handled waits)⟩
  unfold Traffic.onResponse
  cases forward with
  | none =>
    refine ⟨fun j send found => others found fun same => ?_, Nat.lt_of_succ_le less.le⟩
    cases same
  | some i =>
    simp only
    split
    case h_1 send waits =>
      obtain ⟨-, budgeted, -⟩ := pending i send waits
      let next := send.step (lookup o whoami t.ring) whoami.name (.onHandled result)
      have answered : next.Budgeted ∧ next.remaining ≤ send.remaining ∧
          isHandled next.waiting = false := by
        cases due : send.due (.onHandled result) with
        | true =>
          simp only [next, RequestProxySend.step_of_due due]
          exact ⟨fun h => (by cases h), Nat.zero_le _, rfl⟩
        | false =>
          simp only [next, RequestProxySend.step_of_not_due due]
          exact ⟨budgeted, Nat.le_refl _, (due_onHandled send result).symm.trans due⟩
      have changed := work_setEgress (t := rest) waits
        (if next.waiting.isNothing then .onProxy else .sending next)
      rw [work_settled, show (Egress.sending send).work = send.remaining + 1 from rfl] at changed
      refine ⟨pending_settle (t := rest) (fun j send apart found => others found fun same => ?_)
        answered.1 fun handled => ?_, ?_⟩
      · exact apart (Option.some.inj same).symm
      · cases answered.2.2.symm.trans handled
      · refine Nat.lt_of_lt_of_eq ?_ less
        have fewer := answered.2.1
        change (rest.setEgress i
          (if next.waiting.isNothing then .onProxy else .sending next)).work < rest.work + 1
        omega
    case h_2 gone =>
      refine ⟨fun j send found => others found fun same => ?_, Nat.lt_of_succ_le less.le⟩
      obtain rfl := Option.some.inj same
      exact gone send found

theorem pending_new (ring : HashRing) (opts : RequestProxyOptions)
    (retrySchedule : Option (List ℚ)) : (new ring opts retrySchedule).Pending :=
  fun _ _ found => by cases found

theorem Pending.proxyReq (pending : t.Pending) (opts : SendOptions) (load : Load) :
    (t.proxyReq opts load).Pending := by
  unfold Traffic.proxyReq
  split
  case h_1 => exact pending
  case h_2 =>
    intro i send found
    have found : (t.egress ++ [.readingBody _])[i]? = some (.sending send) := found
    rw [List.getElem?_append] at found
    split at found
    case isTrue => exact pending i send found
    case isFalse => cases List.mem_singleton.mp (List.mem_of_getElem? found)

theorem Pending.step (pending : t.Pending) (o : Options) (whoami : Address)
    (event : TrafficEvent) : (t.step o whoami event).Pending := by
  cases event with
  | ringChange op => exact pending
  | proxyReq opts load => exact pending.proxyReq opts load
  | onBody i rawBody destroyed =>
    rw [Traffic.step]
    split
    case h_1 opts here => exact (pending.onBody here rawBody destroyed).1
    case h_2 => exact pending
  | send i event load =>
    rw [Traffic.step]
    split
    case h_1 send here =>
      split
      case isTrue awaits => exact (pending.sent here awaits load).1
      case isFalse => exact pending
    case h_2 => exact pending
  | onProxy i =>
    rw [Traffic.step]
    split
    case h_1 here => exact (pending.finish here rfl).1
    case h_2 => exact pending
  | handleRequest head body load => exact pending.receive o whoami head body none load
  | onResponse entry result =>
    rw [Traffic.step]
    split
    case h_1 forward here => exact (pending.onResponse here o whoami result).1
    case h_2 => exact pending

/-- Every callback that is waited for uses up some of the work. -/
theorem Pending.uses (pending : t.Pending) (o : Options) (whoami : Address) {event : TrafficEvent}
    (going : t.Going event) :
    (t.step o whoami event).work + (if event.isCallback then 1 else 0) ≤ t.work := by
  cases event with
  | ringChange op => exact Nat.le_refl _
  | proxyReq | handleRequest => exact going.elim
  | onBody i rawBody destroyed =>
    obtain ⟨opts, here⟩ := going
    rw [Traffic.step, here]
    exact (pending.onBody here rawBody destroyed).2
  | send i event load =>
    obtain ⟨send, here, awaits⟩ := going
    simp only [Traffic.step, here, awaits, if_true]
    exact (pending.sent here awaits load).2
  | onProxy i =>
    rw [Traffic.step, show t.egress[i]? = some .onProxy from going]
    exact (pending.finish going rfl).2
  | onResponse entry result =>
    have here := List.getElem?_eq_getElem (l := t.ingress) going
    rw [Traffic.step, here]
    exact (pending.onResponse here o whoami result).2

/-- A send that waits for no response of the node itself waits for a callback. -/
theorem awaited_of_busy {send : RequestProxySend} (busy : send.waiting.isNothing = false)
    (remote : isHandled send.waiting = false) : ∃ event, awaited send event = true := by
  simp only [awaited, remote, Bool.not_false, Bool.and_true, RequestProxySend.due]
  cases waiting : send.waiting with
  | tick result => exact ⟨.onTick, rfl⟩
  | identified host => exact ⟨.onRequest none, rfl⟩
  | answer => exact ⟨.onSend (.ok [] []), rfl⟩
  | timer => exact ⟨.onTimeout false, rfl⟩
  | handled => cases waiting ▸ remote
  | nothing => cases waiting ▸ busy

/-- As long as a request is in flight, some callback is waited for. -/
theorem Pending.inFlight_eq (pending : t.Pending)
    (stuck : ∀ event, t.Going event → event.isCallback = false) : t.inFlight = 0 := by
  have ingress : t.ingress = [] := by
    refine List.eq_nil_iff_length_eq_zero.mpr (Nat.eq_zero_of_not_pos fun some => ?_)
    cases stuck (.onResponse 0 (.response [] [])) some
  have finished : ∀ e ∈ t.egress, ¬ e.unfinished = true := by
    intro e listed unfinished
    obtain ⟨i, here⟩ := List.mem_iff_getElem?.mp listed
    cases e with
    | readingBody opts => cases stuck (.onBody i none false) ⟨opts, here⟩
    | sending send =>
      obtain ⟨busy, -, handled⟩ := pending i send here
      have remote : isHandled send.waiting = false := by
        refine Bool.eq_false_iff.mpr fun responds => ?_
        have inside := handled responds
        rw [ingress] at inside
        cases inside
      obtain ⟨event, awaits⟩ := awaited_of_busy busy remote
      cases stuck (.send i event ⟨false, 0, 0, 0⟩) ⟨send, here, awaits⟩
    | onProxy => cases stuck (.onProxy i) here
    | finished => cases unfinished
  rw [inFlight, ingress, List.countP_eq_zero.mpr finished]
  rfl

/-- However forwards, retries and requests interleave: once no request comes any more, at most
`3 * retries + 5` callbacks follow for each that is in flight, and when none is waited for, all
are finished. -/
theorem run_drains (o : Options) (whoami : Address) (ring : HashRing)
    (opts : RequestProxyOptions) (retrySchedule : Option (List ℚ))
    (before after : List TrafficEvent) {retries : ℕ}
    (few : ∀ e ∈ (before.foldl (step o whoami) (new ring opts retrySchedule)).egress,
      e.maxRetries ≤ retries)
    (going : Runs.Throughout (step o whoami) Going
      (before.foldl (step o whoami) (new ring opts retrySchedule)) after) :
    let t := before.foldl (step o whoami) (new ring opts retrySchedule)
    let last := after.foldl (step o whoami) t
    after.countP TrafficEvent.isCallback ≤ (3 * retries + 5) * t.inFlight ∧
      ((∀ event, last.Going event → event.isCallback = false) → last.inFlight = 0) := by
  intro t last
  have pending : t.Pending :=
    Runs.foldl_invariant (step o whoami) Pending
      (fun _ event pending => pending.step o whoami event) (pending_new ring opts retrySchedule)
      before
  have used := going.countP_le Pending work TrafficEvent.isCallback
    (fun _ event pending _ => pending.step o whoami event)
    (fun _ _ pending going => pending.uses o whoami going) pending
  refine ⟨(Nat.le_of_add_right_le used).trans (work_le few), Pending.inFlight_eq ?_⟩
  exact Runs.foldl_invariant (step o whoami) Pending
    (fun _ event pending => pending.step o whoami event) pending after

/-- A forward that fails, and once more when it is sent again. -/
theorem run_drains_retry :
    let o : Options := ⟨1, fun s => s.length⟩
    let whoami := Address.of "a:1" (by decide)
    let load : Load := ⟨false, 10, 100, 0⟩
    let opts : SendOptions :=
      ⟨[str "k"], str "b:1", ⟨str "/", [], str "GET", str "1.1"⟩, [], some 1, none, true⟩
    let before : List TrafficEvent := [.proxyReq opts load]
    let after : List TrafficEvent :=
      [.onBody 0 (some []) false, .send 0 (.onRequest none) load,
        .send 0 (.onSend (.error (str "timeout"))) load, .send 0 (.onTimeout false) load,
        .send 0 (.onRequest (some (str "timeout"))) load, .onProxy 0]
    let t := before.foldl (step o whoami) (new .new ⟨none, none, none, none⟩ none)
    let last := after.foldl (step o whoami) t
    after.countP TrafficEvent.isCallback ≤ (3 * 1 + 5) * t.inFlight ∧ last.inFlight = 0 := by
  intro o whoami load opts before after t last
  have few : ∀ e ∈ t.egress, e.maxRetries ≤ 1 := by
    intro e listed
    obtain rfl := List.mem_singleton.mp listed
    exact Nat.le_refl 1
  have going : Runs.Throughout (step o whoami) Going t after :=
    ⟨⟨_, rfl⟩, ⟨_, rfl, rfl⟩, ⟨_, rfl, rfl⟩, ⟨_, rfl, rfl⟩, ⟨_, rfl, rfl⟩, rfl, trivial⟩
  have drained := run_drains o whoami .new ⟨none, none, none, none⟩ none before after few going
  have egress : ∀ e ∈ last.egress, e.unfinished = false := by decide +kernel
  have ingress : last.ingress.length = 0 := by decide +kernel
  have stuck : ∀ event, last.Going event → event.isCallback = false := by
    intro event goes
    cases event with
    | ringChange | proxyReq | handleRequest => rfl
    | onBody i =>
      obtain ⟨opts, here⟩ := goes
      cases egress _ (List.mem_of_getElem? here)
    | send i =>
      obtain ⟨send, here, -⟩ := goes
      cases egress _ (List.mem_of_getElem? here)
    | onProxy i => cases egress _ (List.mem_of_getElem? goes)
    | onResponse entry =>
      have here : entry < last.ingress.length := goes
      rw [ingress] at here
      cases here
  exact ⟨drained.1, drained.2 stuck⟩

end Traffic
end Ringpop.Forwarding
