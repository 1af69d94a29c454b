import Ringpop.Client

/-! The caller of every request is called back once, as long as no response middleware throws:
each event keeps the registry, the callbacks and what has happened to the requests in step. -/
namespace Ringpop.Members
open JsString Dictionary Middlewares

namespace RingpopClient
variable {inflightMax : ℕ} {json : JsonText}
  {stack : MiddlewareStack Str Json (Option RequestError) Json} {c c' : RingpopClient} {id : ℕ}

def canceledAt (c : RingpopClient) (id : ℕ) : Option Bool :=
  c.requests[id]?.map ClientRequest.isCanceled

structure Tracked (inflightMax : ℕ) (c : RingpopClient) : Prop where
  answers : ∀ id, c.answers id = if id ∈ c.settled then 1 else 0
  registered : ∀ id, c.requestsById.has id = true ↔ id ∈ c.accepted ∧ id ∉ c.settled
  limited : c.requestsById.keys.length ≤ inflightMax
  callback : ∀ id ∈ c.accepted, ∃ request, c.requests[id]? = some request ∧
    (request.callback = true ↔ id ∉ c.settled)
  settled : ∀ id ∈ c.settled, id < c.requests.length

/-- What is still to come concerns requests that exist, and a tick only one that waits for it. -/
structure Known (c : RingpopClient) : Prop where
  identifying : ∀ id ∈ c.identifying, id ∈ c.accepted
  sends : ∀ sending ∈ c.sends, sending.request ∈ c.accepted
  nodup : (c.ticks.map ClientTick.request).Nodup
  ticks : ∀ tick ∈ c.ticks, tick.request < c.requests.length
  limits : ∀ id answer, .onLimit id answer ∈ c.ticks → id ∉ c.accepted ∧ id ∉ c.settled
  failures : ∀ id answer, .onFailure id answer ∈ c.ticks → id ∈ c.accepted

structure Canceled (c : RingpopClient) : Prop where
  settled : ∀ id, c.canceledAt id = some true → id ∈ c.settled
  early : ∀ id ∈ c.canceledEarly, c.canceledAt id = some true
  identified : ∀ outgoing ∈ c.wire, outgoing.request ∈ c.identified
  unsent : ∀ id ∈ c.canceledEarly, ∀ outgoing ∈ c.wire, outgoing.request ≠ id

def Pending (c : RingpopClient) : Prop :=
  ∀ id, id < c.requests.length → id ∉ c.settled →
    id ∈ c.identifying ∨ ∃ tick ∈ c.ticks, tick.request = id

structure Invariant (inflightMax : ℕ) (c : RingpopClient) : Prop where
  tracked : c.Tracked inflightMax
  known : c.Known
  canceled : c.Canceled
  pending : c.Pending

/-- What a call of `_invokeCallback` leaves as it is. -/
structure Frame (c c' : RingpopClient) : Prop where
  ticks : c'.ticks = c.ticks
  identifying : c'.identifying = c.identifying
  sends : c'.sends = c.sends
  wire : c'.wire = c.wire
  accepted : c'.accepted = c.accepted
  identified : c'.identified = c.identified
  settled : c'.settled = c.settled
  canceledEarly : c'.canceledEarly = c.canceledEarly
  requests : c'.requests.length = c.requests.length
  canceledAt : ∀ id, c'.canceledAt id = c.canceledAt id

@[simp] theorem mem_settled_settle {other : ℕ} :
    other ∈ (c.settle id).settled ↔ other ∈ c.settled ∨ other = id :=
  Runs.mem_extended

theorem map_set {α β : Type} (f : α → β) {l : List α} {i : ℕ} {a b : α} (here : l[i]? = some a)
    (same : f b = f a) (j : ℕ) : (l.set i b)[j]?.map f = l[j]?.map f := by
  obtain ⟨inside, -⟩ := List.getElem?_eq_some_iff.mp here
  by_cases equal : i = j
  · subst equal
    rw [List.getElem?_set_self inside, here, Option.map_some, Option.map_some, same]
  · rw [List.getElem?_set_ne equal]

theorem frame_invokeCallback (c : RingpopClient) (id : ℕ) (answer : ClientAnswer) :
    Frame c (c.invokeCallback id answer) := by
  unfold invokeCallback
  cases here : c.requests[id]? with
  | none => exact ⟨rfl, rfl, rfl, rfl, rfl, rfl, rfl, rfl, rfl, fun _ => rfl⟩
  | some request =>
    simp only
    split
    · exact ⟨rfl, rfl, rfl, rfl, rfl, rfl, rfl, rfl, List.length_set,
        map_set ClientRequest.isCanceled here rfl⟩
    · exact ⟨rfl, rfl, rfl, rfl, rfl, rfl, rfl, rfl, rfl, fun _ => rfl⟩

theorem Known.of_frame (known : c.Known) (frame : Frame c c') : c'.Known where
  identifying := by
    rw [frame.identifying, frame.accepted]
    exact known.identifying
  sends := by
    rw [frame.sends, frame.accepted]
    exact known.sends
  nodup := by
    rw [frame.ticks]
    exact known.nodup
  ticks := by
    rw [frame.ticks, frame.requests]
    exact known.ticks
  limits := by
    rw [frame.ticks, frame.accepted, frame.settled]
    exact known.limits
  failures := by
    rw [frame.ticks, frame.accepted]
    exact known.failures

theorem Canceled.of_frame (canceled : c.Canceled) (frame : Frame c c') : c'.Canceled where
  settled id := by
    rw [frame.canceledAt, frame.settled]
    exact canceled.settled id
  early id := by
    rw [frame.canceledAt, frame.canceledEarly]
    exact canceled.early id
  identified := by
    rw [frame.wire, frame.identified]
    exact canceled.identified
  unsent := by
    rw [frame.canceledEarly, frame.wire]
    exact canceled.unsent

theorem Pending.of_frame (pending : c.Pending) (frame : Frame c c') : c'.Pending := by
  unfold Pending
  rw [frame.requests, frame.settled, frame.identifying, frame.ticks]
  exact pending

theorem Known.settle (known : c.Known) (accepted : id ∈ c.accepted) : (c.settle id).Known :=
  { known with
    limits := fun other answer waiting => by
      obtain ⟨refused, unsettled⟩ := known.limits other answer waiting
      refine ⟨refused, fun settled => ?_⟩
      rcases mem_settled_settle.mp settled with before | rfl
      · exact unsettled before
      · exact refused accepted }

theorem Canceled.settle (canceled : c.Canceled) (id : ℕ) : (c.settle id).Canceled :=
  { canceled with
    settled := fun other isCanceled =>
      mem_settled_settle.mpr (.inl (canceled.settled other isCanceled)) }

theorem Pending.settle (pending : c.Pending) (id : ℕ) : (c.settle id).Pending :=
  fun other known unsettled =>
    pending other known fun settled => unsettled (mem_settled_settle.mpr (.inl settled))

theorem Tracked.settle (tracked : c.Tracked inflightMax) (settled : id ∈ c.settled) :
    (c.settle id).Tracked inflightMax := by
  have mem (other : ℕ) : other ∈ (c.settle id).settled ↔ other ∈ c.settled := by
    rw [mem_settled_settle]
    exact ⟨fun h => h.elim (fun before => before) fun same => same ▸ settled, .inl⟩
  constructor
  · intro other
    simp only [mem]
    exact tracked.answers other
  · intro other
    rw [mem]
    exact tracked.registered other
  · exact tracked.limited
  · intro other accepted
    rw [mem]
    exact tracked.callback other accepted
  · intro other
    rw [mem]
    exact tracked.settled other

/-- A request that was not settled is, with one call of its callback. -/
theorem Tracked.answers_settle (tracked : c.Tracked inflightMax) (unsettled : id ∉ c.settled)
    {answer : ClientAnswer} (callbacks : c'.callbacks = c.callbacks ++ [(id, answer)])
    (settled : c'.settled = c.settled ++ [id]) (other : ℕ) :
    c'.answers other = if other ∈ c'.settled then 1 else 0 := by
  have before := tracked.answers other
  rw [RingpopClient.answers] at before ⊢
  rw [callbacks, List.map_append, List.count_append, settled]
  by_cases same : other = id
  · subst same
    rw [if_neg unsettled] at before
    simp [before]
  · simp [before, same, Ne.symm same]

/-- The first call of `_invokeCallback` settles an accepted request, and others do nothing. -/
theorem Tracked.invokeCallback (tracked : c.Tracked inflightMax) (accepted : id ∈ c.accepted)
    (answer : ClientAnswer) :
    ((c.settle id).invokeCallback id answer).Tracked inflightMax := by
  obtain ⟨request, here, live⟩ := tracked.callback id accepted
  obtain ⟨inside, -⟩ := List.getElem?_eq_some_iff.mp here
  rw [RingpopClient.invokeCallback]
  simp only [show (c.settle id).requests[id]? = some request from here]
  split
  case isFalse called =>
    have settled : id ∈ c.settled := by
      by_contra unsettled
      exact called (live.mpr unsettled)
    exact { tracked.settle settled with }
  case isTrue waiting =>
    have unsettled := live.mp waiting
    constructor
    · exact tracked.answers_settle unsettled rfl rfl
    · intro other
      rw [Dict.has_delete]
      by_cases same : other = id
      · simp [same]
      · simp only [mem_settled_settle, same, decide_false, Bool.not_false, Bool.true_and, or_false]
        exact tracked.registered other
    · have keys : (c.requestsById.delete id).keys.length ≤ c.requestsById.keys.length := by
        rw [Dict.keys_delete]
        exact List.erase_sublist.length_le
      exact Nat.le_trans keys tracked.limited
    · intro other known
      by_cases same : other = id
      · subst same
        exact ⟨_, List.getElem?_set_self inside, by simp⟩
      · obtain ⟨found, there, still⟩ := tracked.callback other known
        refine ⟨found, (List.getElem?_set_ne (Ne.symm same)).trans there, still.trans ?_⟩
        simp [same]
    · intro other settled
      rw [List.length_set]
      rcases mem_settled_settle.mp settled with before | rfl
      · exact tracked.settled other before
      · exact inside

/-- An accepted request is settled by `_invokeCallback`. -/
theorem Invariant.invokeCallback (inv : c.Invariant inflightMax) (accepted : id ∈ c.accepted)
    (answer : ClientAnswer) : ((c.settle id).invokeCallback id answer).Invariant inflightMax :=
  have frame := frame_invokeCallback (c.settle id) id answer
  ⟨inv.tracked.invokeCallback accepted answer, (inv.known.settle accepted).of_frame frame,
    (inv.canceled.settle id).of_frame frame, (inv.pending.settle id).of_frame frame⟩

theorem Invariant.cancel (inv : c.Invariant inflightMax) (accepted : id ∈ c.accepted) :
    (c.cancel id).Invariant inflightMax := by
  obtain ⟨request, here, live⟩ := inv.tracked.callback id accepted
  obtain ⟨inside, -⟩ := List.getElem?_eq_some_iff.mp here
  rw [RingpopClient.cancel, here]
  simp only
  let marked : RingpopClient := { c with
    requests := c.requests.set id { request with isCanceled := true }
    canceledEarly := c.canceledEarly ++ if c.identified.contains id then [] else [id] }
  have length : marked.requests.length = c.requests.length := List.length_set
  have canceledAt (other : ℕ) :
      marked.canceledAt other = if other = id then some true else c.canceledAt other := by
    show (c.requests.set id { request with isCanceled := true })[other]?.map _ = _
    split
    case isTrue same => rw [same, List.getElem?_set_self inside, Option.map_some]
    case isFalse differs =>
      rw [List.getElem?_set_ne (Ne.symm differs)]
      rfl
  have early {other : ℕ} (h : other ∈ marked.canceledEarly) :
      other ∈ c.canceledEarly ∨ (other = id ∧ id ∉ c.identified) := by
    rcases List.mem_append.mp h with before | now
    · exact .inl before
    · split at now
      case isTrue => cases now
      case isFalse unknown =>
        exact .inr ⟨List.mem_singleton.mp now, fun h => unknown (List.contains_iff_mem.mpr h)⟩
  have tracked : marked.Tracked inflightMax := { inv.tracked with
    callback := fun other known => by
      by_cases same : other = id
      · subst same
        exact ⟨_, List.getElem?_set_self inside, live⟩
      · obtain ⟨found, there, still⟩ := inv.tracked.callback other known
        exact ⟨found, (List.getElem?_set_ne (Ne.symm same)).trans there, still⟩
    settled := fun other settled => length ▸ inv.tracked.settled other settled }
  have known : marked.Known := { inv.known with
    ticks := fun tick waiting => length ▸ inv.known.ticks tick waiting }
  have canceled : (marked.settle id).Canceled := {
    settled := fun other isCanceled => by
      have isCanceled : marked.canceledAt other = some true := isCanceled
      rw [canceledAt] at isCanceled
      rw [mem_settled_settle]
      split at isCanceled
      case isTrue same => exact .inr same
      case isFalse => exact .inl (inv.canceled.settled other isCanceled)
    early := fun other listed => by
      show marked.canceledAt other = some true
      rw [canceledAt]
      rcases early listed with before | ⟨same, -⟩
      · rw [inv.canceled.early other before, ite_self]
      · exact if_pos same
    identified := inv.canceled.identified
    unsent := fun other listed outgoing sent => by
      rcases early listed with before | ⟨rfl, unknown⟩
      · exact inv.canceled.unsent other before outgoing sent
      · exact fun same => unknown (same ▸ inv.canceled.identified outgoing sent) }
  have pending : marked.Pending := fun other known unsettled =>
    inv.pending other (length ▸ known) unsettled
  have frame := frame_invokeCallback (marked.settle id) id (.canceled request.endpoint)
  exact ⟨tracked.invokeCallback accepted _, (known.settle accepted).of_frame frame,
    canceled.of_frame frame, (pending.settle id).of_frame frame⟩

/-- The scan deletes a request that `cancel` deletes as well. -/
theorem cancel_delete (tracked : c.Tracked inflightMax)
    (registered : c.requestsById.has id = true) :
    { c with requestsById := c.requestsById.delete id }.cancel id = c.cancel id := by
  obtain ⟨accepted, unsettled⟩ := (tracked.registered id).mp registered
  obtain ⟨request, here, live⟩ := tracked.callback id accepted
  obtain ⟨inside, -⟩ := List.getElem?_eq_some_iff.mp here
  simp only [RingpopClient.cancel, RingpopClient.invokeCallback, settle, here,
    List.getElem?_set_self inside, live.mpr unsettled, if_true, Dict.delete_delete]

theorem Invariant.scanRequest (scanTime wedgedRequestTimeout : ℤ) {wedgedRequests : List ℕ}
    (inv : c.Invariant inflightMax) (id : ℕ) :
    (RingpopClient.scanRequest scanTime wedgedRequestTimeout (c, wedgedRequests) id).1.Invariant
      inflightMax := by
  rw [RingpopClient.scanRequest]
  by_cases registered : c.requestsById.has id = true
  case neg =>
    simp only [if_neg registered]
    exact inv
  obtain ⟨accepted, -⟩ := (inv.tracked.registered id).mp registered
  obtain ⟨request, here, -⟩ := inv.tracked.callback id accepted
  simp only [if_pos registered, here]
  split
  · rw [cancel_delete inv.tracked registered]
    exact inv.cancel accepted
  · exact inv

theorem Invariant.scan (inv : c.Invariant inflightMax) (scanTime wedgedRequestTimeout : ℤ) :
    (c.scanForWedgedRequests scanTime wedgedRequestTimeout).1.Invariant inflightMax :=
  Runs.foldl_invariant (RingpopClient.scanRequest scanTime wedgedRequestTimeout)
    (fun scan => scan.1.Invariant inflightMax)
    (fun _ id inv => inv.scanRequest scanTime wedgedRequestTimeout id) inv _

/-- Timers and emitted events do not matter. -/
theorem Invariant.timer (inv : c.Invariant inflightMax) (wedgedTimer : Option ℕ)
    (isDestroyed : Bool) (queue : TimerQueue Unit) (emitted : List (ℕ × RequestEvent)) :
    ({ c with
      wedgedTimer := wedgedTimer
      isDestroyed := isDestroyed
      queue := queue
      emitted := emitted } : RingpopClient).Invariant inflightMax :=
  ⟨{ inv.tracked with }, { inv.known with }, { inv.canceled with }, inv.pending⟩

theorem getElem?_requests_append {request found : ClientRequest}
    (there : c.requests[id]? = some found) :
    (c.requests ++ [request])[id]? = some found := by
  rw [List.getElem?_append_left (List.getElem?_eq_some_iff.mp there).1]
  exact there

theorem Tracked.id_lt (tracked : c.Tracked inflightMax) (accepted : id ∈ c.accepted) :
    id < c.requests.length := by
  obtain ⟨request, here, -⟩ := tracked.callback id accepted
  exact (List.getElem?_eq_some_iff.mp here).1

/-- A new request is not canceled. -/
theorem Canceled.create (canceled : c.Canceled) {request : ClientRequest}
    (fresh : request.isCanceled = false) :
    ({ c with requests := c.requests ++ [request] } : RingpopClient).Canceled :=
  { canceled with
    settled := fun other isCanceled => by
      refine canceled.settled other ?_
      have isCanceled : (c.requests ++ [request])[other]?.map ClientRequest.isCanceled =
          some true := isCanceled
      rcases Nat.lt_or_ge other c.requests.length with inside | outside
      · rw [List.getElem?_append_left inside] at isCanceled
        exact isCanceled
      · rw [List.getElem?_append_right outside, List.getElem?_singleton] at isCanceled
        split at isCanceled
        · rw [Option.map_some, fresh] at isCanceled
          cases isCanceled
        · cases isCanceled
    early := fun other listed => by
      have before := canceled.early other listed
      rw [canceledAt, Option.map_eq_some_iff] at before
      obtain ⟨found, there, isCanceled⟩ := before
      rw [canceledAt, getElem?_requests_append there, Option.map_some, isCanceled] }

theorem Tracked.create (tracked : c.Tracked inflightMax) (request : ClientRequest) :
    ({ c with requests := c.requests ++ [request] } : RingpopClient).Tracked inflightMax :=
  { tracked with
    callback := fun other accepted => by
      obtain ⟨found, there, still⟩ := tracked.callback other accepted
      exact ⟨found, getElem?_requests_append there, still⟩
    settled := fun other settled => by
      rw [List.length_append]
      exact Nat.lt_add_right 1 (tracked.settled other settled) }

theorem Tracked.accept (tracked : c.Tracked inflightMax) {request : ClientRequest}
    (waiting : request.callback = true) (free : c.requestsById.keys.length < inflightMax) :
    ({ c with
      requests := c.requests ++ [request]
      requestsById := c.requestsById.set c.requests.length ()
      accepted := c.accepted ++ [c.requests.length] } : RingpopClient).Tracked inflightMax := by
  have fresh : c.requests.length ∉ c.accepted := fun accepted =>
    Nat.lt_irrefl _ (tracked.id_lt accepted)
  have unsettled : c.requests.length ∉ c.settled := fun settled =>
    Nat.lt_irrefl _ (tracked.settled _ settled)
  have created := tracked.create request
  constructor
  · exact tracked.answers
  · intro other
    rw [Dict.has_set, List.mem_append, List.mem_singleton]
    by_cases same : other = c.requests.length
    · simp [same, unsettled]
    · simp only [same, decide_false, Bool.false_or, or_false]
      exact tracked.registered other
  · have missing : c.requests.length ∉ c.requestsById.keys := fun listed =>
      fresh ((tracked.registered _).mp (Dict.mem_keys.mp listed)).1
    rw [Dict.keys_set_of_not_mem missing, List.length_append, List.length_singleton]
    exact free
  · intro other accepted
    rcases Runs.mem_extended.mp accepted with before | rfl
    · exact created.callback other before
    · exact ⟨request, List.getElem?_concat_length, by simp [waiting, unsettled]⟩
  · exact created.settled

/-- `send` asks for the next tick, or waits until the peer is identified. -/
theorem send_cases (c : RingpopClient) (id : ℕ) (request : ClientRequest) (channel : SubChannel) :
    (∃ answer, c.send id request channel = c.nextTick (.onFailure id answer)) ∨
      c.send id request channel = { c with identifying := c.identifying ++ [id] } := by
  unfold send
  split
  · exact .inl ⟨_, rfl⟩
  · split
    · exact .inl ⟨_, rfl⟩
    · split
      · exact .inl ⟨_, rfl⟩
      · exact .inr rfl

theorem Known.nodup_append (known : c.Known) {tick : ClientTick}
    (isNew : tick.request = c.requests.length) :
    ((c.ticks ++ [tick]).map ClientTick.request).Nodup := by
  rw [List.map_append]
  refine List.nodup_append.mpr ⟨known.nodup, List.nodup_singleton _, ?_⟩
  rintro a listed b last rfl
  obtain ⟨before, waits, same⟩ := List.mem_map.mp listed
  have less := known.ticks before waits
  rw [same, List.mem_singleton.mp last, isNew] at less
  exact Nat.lt_irrefl _ less

theorem Pending.create (pending : c.Pending) {c' : RingpopClient}
    (length : c'.requests.length = c.requests.length + 1) (settled : c'.settled = c.settled)
    (identifying : c.identifying ⊆ c'.identifying) (ticks : c.ticks ⊆ c'.ticks)
    (last : c.requests.length ∈ c'.identifying ∨
      ∃ tick ∈ c'.ticks, tick.request = c.requests.length) : c'.Pending := by
  intro other known unsettled
  rw [length] at known
  rw [settled] at unsettled
  rcases Nat.lt_succ_iff_lt_or_eq.mp known with before | rfl
  · rcases pending other before unsettled with waits | ⟨tick, waits, same⟩
    · exact .inl (identifying waits)
    · exact .inr ⟨tick, ticks waits, same⟩
  · exact last

theorem Invariant.refuse (inv : c.Invariant inflightMax) {request : ClientRequest}
    (fresh : request.isCanceled = false) (answer : ClientAnswer) :
    ({ c with
      requests := c.requests ++ [request]
      ticks := c.ticks ++ [.onLimit c.requests.length answer] } : RingpopClient).Invariant
      inflightMax := by
  have length : (c.requests ++ [request]).length = c.requests.length + 1 := List.length_append
  have known := inv.known
  refine ⟨{ inv.tracked.create request with }, ?_, { inv.canceled.create fresh with },
    inv.pending.create length rfl (List.Subset.refl _) (List.subset_append_left _ _)
      (.inr ⟨_, List.mem_append_right _ List.mem_cons_self, rfl⟩)⟩
  exact { known with
    nodup := known.nodup_append rfl
    ticks := fun tick waits => by
      rw [length]
      rcases Runs.mem_extended.mp waits with before | rfl
      · exact Nat.lt_succ_of_lt (known.ticks tick before)
      · exact Nat.lt_succ_self _
    limits := fun id answer waits => by
      rcases Runs.mem_extended.mp waits with before | last
      · exact known.limits id answer before
      · obtain ⟨rfl, -⟩ := ClientTick.onLimit.inj last
        exact ⟨fun h => Nat.lt_irrefl _ (inv.tracked.id_lt h),
          fun h => Nat.lt_irrefl _ (inv.tracked.settled _ h)⟩
    failures := fun id answer waits => by
      rcases Runs.mem_extended.mp waits with before | last
      · exact known.failures id answer before
      · cases last }

/-- An accepted request waits for its peer, or for the tick that fails it. -/
theorem Known.accept (known : c.Known) {c' : RingpopClient}
    (requests : c'.requests.length = c.requests.length + 1)
    (accepted : c'.accepted = c.accepted ++ [c.requests.length])
    (settled : c'.settled = c.settled) (sends : c'.sends = c.sends)
    (waits : (∃ answer, c'.ticks = c.ticks ++ [.onFailure c.requests.length answer] ∧
        c'.identifying = c.identifying) ∨
      (c'.ticks = c.ticks ∧ c'.identifying = c.identifying ++ [c.requests.length])) :
    c'.Known := by
  have last : c.requests.length ∈ c'.accepted :=
    accepted ▸ List.mem_append_right _ List.mem_cons_self
  have before {id : ℕ} (h : id ∈ c.accepted) : id ∈ c'.accepted :=
    accepted ▸ List.mem_append_left _ h
  have limits (id : ℕ) (answer : ClientAnswer) (h : .onLimit id answer ∈ c.ticks) :
      id ∉ c'.accepted ∧ id ∉ c'.settled := by
    obtain ⟨refused, unsettled⟩ := known.limits id answer h
    have less : id < c.requests.length := known.ticks _ h
    rw [settled, accepted, List.mem_append, List.mem_singleton]
    exact ⟨fun h => h.elim refused less.ne, unsettled⟩
  have ticks (tick : ClientTick) (h : tick ∈ c.ticks) : tick.request < c'.requests.length :=
    requests ▸ Nat.lt_succ_of_lt (known.ticks tick h)
  have sent (sending : Sending) (h : sending ∈ c'.sends) : sending.request ∈ c'.accepted :=
    before (known.sends sending (sends ▸ h))
  rcases waits with ⟨answer, newTicks, identifying⟩ | ⟨oldTicks, identifying⟩
  · refine ⟨fun id h => before (known.identifying id (identifying ▸ h)), sent, ?_, ?_, ?_, ?_⟩
    · rw [newTicks]
      exact known.nodup_append rfl
    · intro tick h
      rw [newTicks] at h
      rcases Runs.mem_extended.mp h with h | rfl
      · exact ticks tick h
      · rw [requests]
        exact Nat.lt_succ_self _
    · intro id answer h
      rw [newTicks] at h
      rcases Runs.mem_extended.mp h with h | h
      · exact limits id answer h
      · cases h
    · intro id answer h
      rw [newTicks] at h
      rcases Runs.mem_extended.mp h with h | h
      · exact before (known.failures id answer h)
      · obtain ⟨rfl, -⟩ := ClientTick.onFailure.inj h
        exact last
  · refine ⟨fun id h => ?_, sent, oldTicks ▸ known.nodup, oldTicks ▸ ticks, oldTicks ▸ limits,
      fun id answer h => before (known.failures id answer (oldTicks ▸ h))⟩
    rw [identifying] at h
    rcases Runs.mem_extended.mp h with h | rfl
    · exact before (known.identifying id h)
    · exact last

theorem Invariant.accept (inv : c.Invariant inflightMax) {request : ClientRequest}
    (waiting : request.callback = true) (fresh : request.isCanceled = false)
    (channel : SubChannel) (free : c.requestsById.keys.length < inflightMax) :
    ({ c with
      requests := c.requests ++ [request]
      requestsById := c.requestsById.set c.requests.length ()
      accepted := c.accepted ++ [c.requests.length] }.send c.requests.length request
      channel).Invariant inflightMax := by
  have length : (c.requests ++ [request]).length = c.requests.length + 1 := List.length_append
  have tracked := inv.tracked.accept waiting free
  have canceled := inv.canceled.create fresh
  rcases send_cases { c with
      requests := c.requests ++ [request]
      requestsById := c.requestsById.set c.requests.length ()
      accepted := c.accepted ++ [c.requests.length] } c.requests.length request channel with
    ⟨answer, fails⟩ | waits
  · rw [fails]
    refine ⟨{ tracked with }, inv.known.accept length rfl rfl rfl
        (.inl ⟨answer, rfl, rfl⟩), { canceled with },
      inv.pending.create length rfl (List.Subset.refl _) (List.subset_append_left _ _) (.inr ?_)⟩
    exact ⟨_, List.mem_append_right _ List.mem_cons_self, rfl⟩
  · rw [waits]
    exact ⟨{ tracked with }, inv.known.accept length rfl rfl rfl (.inr ⟨rfl, rfl⟩),
      { canceled with }, inv.pending.create length rfl (List.subset_append_left _ _)
      (List.Subset.refl _) (.inl (List.mem_append_right _ List.mem_cons_self))⟩

theorem Invariant.request (inv : c.Invariant inflightMax) {request : ClientRequest}
    (waiting : request.callback = true) (fresh : request.isCanceled = false)
    (channel : SubChannel) : (c.request inflightMax request channel).Invariant inflightMax := by
  have scheduled : (if c.wedgedTimer.isNone then c.scheduleWedgedTimer else c).Invariant
      inflightMax := by
    split
    · exact inv.timer _ _ _ _
    · exact inv
  rw [RingpopClient.request]
  simp only
  generalize (if c.wedgedTimer.isNone then c.scheduleWedgedTimer else c) = c at scheduled ⊢
  split
  case isTrue => exact scheduled.refuse fresh _
  case isFalse free => exact scheduled.accept waiting fresh channel (not_le.mp free)

/-- No other tick waits for the request of a tick that runs. -/
theorem Known.eraseIdx (known : c.Known) {i : ℕ} {tick : ClientTick}
    (here : c.ticks[i]? = some tick) {other : ClientTick} :
    other ∈ c.ticks.eraseIdx i ↔ other ∈ c.ticks ∧ other.request ≠ tick.request := by
  obtain ⟨inside, rfl⟩ := List.getElem?_eq_some_iff.mp here
  have taken := List.getElem_cons_eraseIdx_perm inside
  have nodup := (taken.map ClientTick.request).nodup_iff.mpr known.nodup
  obtain ⟨alone, -⟩ := List.nodup_cons.mp nodup
  rw [← taken.mem_iff, List.mem_cons]
  constructor
  · intro rest
    exact ⟨.inr rest, fun same => alone (List.mem_map.mpr ⟨other, rest, same⟩)⟩
  · rintro ⟨rfl | rest, differs⟩
    · exact absurd rfl differs
    · exact rest

/-- A tick takes itself from the queue and settles its request. -/
theorem Known.tick (known : c.Known) {i : ℕ} {tick : ClientTick}
    (here : c.ticks[i]? = some tick) :
    ({ c with ticks := c.ticks.eraseIdx i }.settle tick.request).Known := by
  have mem {other : ClientTick} :
      other ∈ c.ticks.eraseIdx i ↔ other ∈ c.ticks ∧ other.request ≠ tick.request :=
    known.eraseIdx here
  exact { known with
    nodup := ((List.eraseIdx_sublist ..).map ClientTick.request).nodup known.nodup
    ticks := fun other waits => known.ticks other (mem.mp waits).1
    limits := fun id answer waits => by
      obtain ⟨before, differs⟩ := mem.mp waits
      obtain ⟨refused, unsettled⟩ := known.limits id answer before
      refine ⟨refused, fun settled => ?_⟩
      exact (mem_settled_settle.mp settled).elim unsettled differs
    failures := fun id answer waits => known.failures id answer (mem.mp waits).1 }

theorem Pending.tick (pending : c.Pending) (known : c.Known) {i : ℕ} {tick : ClientTick}
    (here : c.ticks[i]? = some tick) :
    ({ c with ticks := c.ticks.eraseIdx i }.settle tick.request).Pending := by
  intro other present unsettled
  have differs : other ≠ tick.request := fun same =>
    unsettled (mem_settled_settle.mpr (.inr same))
  rcases pending other present fun before => unsettled (mem_settled_settle.mpr (.inl before)) with
    waits | ⟨found, waits, rfl⟩
  · exact .inl waits
  · exact .inr ⟨found, (known.eraseIdx here).mpr ⟨waits, differs⟩, rfl⟩

theorem Invariant.tick (inv : c.Invariant inflightMax) {i : ℕ} {tick : ClientTick}
    (here : c.ticks[i]? = some tick) :
    ({ c with ticks := c.ticks.eraseIdx i }.perform tick).Invariant inflightMax := by
  let taken : RingpopClient := { c with ticks := c.ticks.eraseIdx i }
  have known : (taken.settle tick.request).Known := inv.known.tick here
  have pending : (taken.settle tick.request).Pending := inv.pending.tick inv.known here
  have canceled : (taken.settle tick.request).Canceled :=
    { inv.canceled.settle tick.request with }
  have waits := List.mem_of_getElem? here
  cases tick with
  | onFailure id answer =>
    have accepted := inv.known.failures id answer waits
    have tracked : taken.Tracked inflightMax := { inv.tracked with }
    have frame := frame_invokeCallback (taken.settle id) id answer
    exact ⟨tracked.invokeCallback accepted answer, known.of_frame frame, canceled.of_frame frame,
      pending.of_frame frame⟩
  | onLimit id answer =>
    obtain ⟨refused, unsettled⟩ := inv.known.limits id answer waits
    refine ⟨?_, { known with }, { canceled with }, pending⟩
    have mem {other : ℕ} : other ∈ (taken.perform (.onLimit id answer)).settled ↔
        other ∈ c.settled ∨ other = id := mem_settled_settle
    have differs {other : ℕ} (accepted : other ∈ c.accepted) : other ≠ id := fun same =>
      refused (same ▸ accepted)
    constructor
    · exact inv.tracked.answers_settle unsettled rfl rfl
    · intro other
      rw [mem]
      refine (inv.tracked.registered other).trans (and_congr_right fun accepted => ?_)
      simp [differs accepted]
    · exact inv.tracked.limited
    · intro other accepted
      obtain ⟨found, there, still⟩ := inv.tracked.callback other accepted
      refine ⟨found, there, still.trans ?_⟩
      rw [mem]
      simp [differs accepted]
    · intro other settled
      rcases mem.mp settled with before | rfl
      · exact inv.tracked.settled other before
      · exact inv.known.ticks _ waits

/-- A request that is put on the wire has been identified and not been canceled. -/
theorem Invariant.subChannelRequest (inv : c.Invariant inflightMax) (accepted : id ∈ c.accepted)
    {request : ClientRequest} (here : c.requests[id]? = some request)
    (live : request.isCanceled = false) (identified : id ∈ c.identified) (left : ℕ)
    (arg2 arg3 : Json) :
    (c.subChannelRequest json left id request arg2 arg3).Invariant inflightMax := by
  have wire {outgoing : OutgoingRequest}
      (h : outgoing ∈ (c.subChannelRequest json left id request arg2 arg3).wire) :
      outgoing ∈ c.wire ∨ outgoing.request = id :=
    (Runs.mem_extended.mp h).imp_right fun last => by rw [last]
  refine ⟨{ inv.tracked with }, ?_, ?_, inv.pending⟩
  · exact { inv.known with
      sends := fun sending h => by
        rcases Runs.mem_extended.mp h with before | rfl
        · exact inv.known.sends sending before
        · exact accepted }
  · exact { inv.canceled with
      identified := fun outgoing h => by
        rcases wire h with before | same
        · exact inv.canceled.identified outgoing before
        · rw [same]
          exact identified
      unsent := fun other early outgoing h => by
        rcases wire h with before | same
        · exact inv.canceled.unsent other early outgoing before
        · rintro rfl
          have isCanceled := inv.canceled.early _ early
          rw [canceledAt, same, here, Option.map_some, live] at isCanceled
          cases isCanceled }

theorem Invariant.onIdentified (inv : c.Invariant inflightMax) (accepted : id ∈ c.accepted)
    {request : ClientRequest} (here : c.requests[id]? = some request) (err : Option Str) :
    (c.onIdentified json stack id request err).Invariant inflightMax := by
  let identified : RingpopClient := { c with identified := c.identified ++ [id] }
  have inv : identified.Invariant inflightMax :=
    ⟨{ inv.tracked with }, { inv.known with }, { inv.canceled with
      identified := fun outgoing h =>
        List.mem_append_left _ (inv.canceled.identified outgoing h) }, inv.pending⟩
  unfold RingpopClient.onIdentified
  simp only
  split
  case isTrue => exact inv.timer _ _ _ _
  case isFalse live =>
    cases err with
    | some err => exact inv.invokeCallback accepted _
    | none =>
      simp only
      split
      · exact inv
      · exact inv.subChannelRequest accepted here (Bool.not_eq_true _ ▸ live)
          (List.mem_append_right _ List.mem_cons_self) _ _ _

/-- The middlewares that are left for a response do not matter. -/
theorem Invariant.sends (inv : c.Invariant inflightMax) {i : ℕ} {sending : Sending}
    (here : c.sends[i]? = some sending) (left : ℕ) :
    ({ c with sends := c.sends.set i ⟨sending.request, left⟩ } : RingpopClient).Invariant
      inflightMax :=
  ⟨{ inv.tracked with }, { inv.known with
    sends := fun other h => by
      rcases List.mem_or_eq_of_mem_set h with before | rfl
      · exact inv.known.sends other before
      · exact inv.known.sends sending (List.mem_of_getElem? here) }, { inv.canceled with },
    inv.pending⟩

theorem Invariant.settle (inv : c.Invariant inflightMax) (accepted : id ∈ c.accepted)
    (settled : id ∈ c.settled) : (c.settle id).Invariant inflightMax :=
  ⟨inv.tracked.settle settled, inv.known.settle accepted, inv.canceled.settle id,
    inv.pending.settle id⟩

theorem Invariant.onSend (inv : c.Invariant inflightMax) {i : ℕ} {sending : Sending}
    (here : c.sends[i]? = some sending) {request : ClientRequest}
    (found : c.requests[sending.request]? = some request) {response : ChannelResponse}
    (returns : c.throws json stack (.onSend i response) = false) :
    (c.onSend json stack i sending request response).Invariant inflightMax := by
  have accepted := inv.known.sends sending (List.mem_of_getElem? here)
  unfold RingpopClient.onSend
  split
  case isTrue => exact inv.timer _ _ _ _
  case isFalse live =>
    rcases arrived : received json response with ⟨err, res1, res2⟩
    simp only [throws, here, found, arrived, Bool.not_eq_true _ ▸ live, Bool.not_false,
      Bool.true_and] at returns
    have passes :=
      stack.callResponseMiddleware_eq_none request.endpoint sending.left err res1 res2
    rcases called : stack.callResponseMiddleware request.endpoint sending.left err res1 res2 with
      ⟨left, result⟩
    rw [called] at passes
    simp only [called]
    have inv' := inv.sends here left
    cases result with
    | some answer => exact inv'.invokeCallback accepted _
    | none =>
      rw [passes.mp rfl, Bool.and_true] at returns
      -- the middleware throws on a repeated response
      obtain ⟨same, there, still⟩ := inv.tracked.callback _ accepted
      obtain rfl := Option.some.inj (found.symm.trans there)
      have settled : sending.request ∈ c.settled := by
        by_contra unsettled
        rw [still.mpr unsettled] at returns
        cases returns
      exact inv'.settle accepted settled

theorem Invariant.step (inv : c.Invariant inflightMax) {event : ClientEvent}
    (returns : c.throws json stack event = false) :
    (c.step inflightMax json stack event).Invariant inflightMax := by
  cases event with
  | request opts endpoint head body now channel => exact inv.request rfl rfl channel
  | tick i =>
    rw [RingpopClient.step]
    split
    case h_1 tick here => exact inv.tick here
    case h_2 => exact inv
  | onIdentified id err =>
    rw [RingpopClient.step]
    by_cases waits : c.identifying.contains id = true
    case neg =>
      simp only [if_neg waits]
      exact inv
    simp only [if_pos waits]
    have accepted := inv.known.identifying id (List.contains_iff_mem.mp waits)
    split
    case h_1 request here => exact inv.onIdentified accepted here err
    case h_2 => exact inv
  | onSend i response =>
    rw [RingpopClient.step]
    split
    case h_2 => exact inv
    case h_1 sending here =>
      split
      case h_2 => exact inv
      case h_1 request found => exact inv.onSend here found returns
  | scan scanTime wedgedRequestTimeout => exact inv.scan scanTime wedgedRequestTimeout
  | destroy => exact inv.timer _ _ _ _
  | onTimeout timer scanTime wedgedRequestTimeout =>
    rw [RingpopClient.step]
    split
    case h_1 => exact inv
    case h_2 =>
      have fired := inv.timer c.wedgedTimer c.isDestroyed (c.queue.clearTimeout timer) c.emitted
      simp only
      split
      · exact fired
      · exact (fired.scan scanTime wedgedRequestTimeout).timer _ _ _ _

end RingpopClient
end Ringpop.Members
