import Ringpop.RequestProxySend
import Ringpop.ForwardedRequest

/-! The forwards of a cluster are sends: what happens to a forward in a cluster happens to the
send of `send.js` with the same data. -/
namespace Ringpop.Forwarding
open JsString Dictionary Ringpop.Ring Ringpop.Members

/-- What a forward and its send wait for. A cluster calls back at once where the code does so
on the next tick, and where a request that is handled locally is refused. -/
def Phase.Waits : Phase → Waiting → Prop
  | .identifying destination _, .identified host => host = some destination
  | .sent, .answer | .retryScheduled, .timer | .handledLocally, .handled => True
  | .done, .nothing | .done, .tick _ | .done, .handled => True
  | _, _ => False

/-- The data that a forward and its send have in common. -/
structure Forward.Same (f : Forward) (s : RequestProxySend) : Prop where
  keys : f.keys = s.keys
  host : f.host = s.host
  request : f.request = s.request
  body : f.body = s.body
  maxRetries : f.maxRetries = s.maxRetries
  skipLookupOnRetry : f.skipLookupOnRetry = s.skipLookupOnRetry
  numRetries : f.numRetries = s.numRetries

structure Forward.Sends (f : Forward) (s : RequestProxySend) : Prop extends f.Same s where
  waits : f.phase.Waits s.waiting

/-- The event of the cluster in which a send has its callback. -/
def SendEvent.inCluster (i : ℕ) (load : Load) : SendEvent → Option Event
  | .onRequest err => some (.onRequest i err.isSome)
  | .onSend outcome => some (.onSend i outcome.err.isNone)
  | .onTimeout destroyed => some (.onTimeout i destroyed load)
  | .onTick | .onHandled _ => none

/-- The forward at a position is a send of its sender. -/
def Cluster.Forwards (c : Cluster) (i : ℕ) (sender : Address) (s : RequestProxySend) : Prop :=
  ∃ f, c.forwards[i]? = some f ∧ f.sender = sender ∧ f.Sends s

namespace Cluster
variable {o : Options} {c : Cluster} {i : ℕ} {f : Forward} {s : RequestProxySend}

theorem forwards_setForward (inside : i < c.forwards.length) (same : f.Same s) (phase : Phase)
    (waits : phase.Waits s.waiting) :
    (c.setForward i { f with phase := phase }).Forwards i f.sender s :=
  ⟨_, List.getElem?_set_self inside, rfl, { same with waits := waits }⟩

theorem forwards_receive (o : Options) (c : Cluster) (receiver : Address) (message : Message)
    (forward : Option ℕ) (load : Load) :
    (c.receive o receiver message forward load).1.forwards = c.forwards := by
  rw [receive]
  generalize handleRequest o receiver _ _ load message.head message.body = result
  obtain ⟨proxy, result⟩ := result
  cases result <;> rfl

/-- A forward that is done belongs to a send that only has its callback before it. -/
theorem forwards_onProxy (inside : i < c.forwards.length) (same : f.Same s)
    (ended : Phase.done.Waits s.waiting) : (c.onProxy i f).Forwards i f.sender s :=
  forwards_setForward inside same .done ended

theorem forwards_send (inside : i < c.forwards.length) (same : f.Same s) (destination : Str)
    (chosen : HashRing) (destroyed : Bool) :
    (c.send i f destination chosen destroyed).Forwards i f.sender
      (s.send destroyed (some destination)) := by
  have same' : f.Same (s.send destroyed (some destination)) := { same with }
  cases destroyed with
  | true => exact forwards_onProxy inside same' trivial
  | false => exact forwards_setForward inside same' (.identifying destination chosen) rfl

theorem forwards_onRequest (inside : i < c.forwards.length) (same : f.Same s) (destination : Str)
    (chosen : HashRing) (err : Option Str) :
    (c.onRequest i f destination chosen err.isSome).Forwards i f.sender (s.onRequest err) := by
  cases err with
  | some message =>
    have same' : f.Same (s.onRequest (some message)) := { same with }
    exact forwards_onProxy inside same' trivial
  | none =>
    have same' : f.Same (s.onRequest none) := { same with }
    exact forwards_setForward inside same' .sent trivial

theorem forwards_onSend (inside : i < c.forwards.length) (same : f.Same s)
    (outcome : SendOutcome) :
    (c.onSend i f outcome.err.isNone).Forwards i f.sender (s.onSend outcome) := by
  have ends (waiting : Waiting) (callbacks : List SendResult) (errors : List Str)
      (ended : Phase.done.Waits waiting) : (c.onProxy i f).Forwards i f.sender
        { s with waiting := waiting, callbacks := callbacks, errors := errors } :=
    forwards_onProxy inside { same with } ended
  rw [Cluster.onSend, RequestProxySend.onSend]
  by_cases once : s.maxRetries = 0
  case pos =>
    rw [if_pos once, if_pos (same.maxRetries.trans once)]
    exact ends _ _ _ trivial
  case neg =>
    rw [if_neg once, if_neg fun never => once (same.maxRetries.symm.trans never)]
    cases outcome.err with
    | none => exact ends _ _ _ trivial
    | some err =>
      simp only [Option.isNone_some, Bool.false_eq_true, if_false]
      by_cases last : s.numRetries ≥ s.maxRetries
      case pos =>
        rw [if_pos last, if_pos (by rwa [same.numRetries, same.maxRetries])]
        exact ends _ _ _ trivial
      case neg =>
        rw [if_neg last, if_neg (by rwa [same.numRetries, same.maxRetries])]
        have same' : f.Same ({ s with errors := s.errors ++ [err] }.scheduleRetry) := { same with }
        exact forwards_setForward inside same' .retryScheduled trivial

theorem forwards_rerouteRetry (inside : i < c.forwards.length) (same : f.Same s)
    (owner : Str → Str) (newDest : Str) (destroyed : Bool) (load : Load) :
    (c.rerouteRetry o i f newDest destroyed load).1.Forwards i f.sender
      (s.rerouteRetry owner f.sender.name destroyed (some newDest)) := by
  rw [Cluster.rerouteRetry, RequestProxySend.rerouteRetry]
  by_cases here : newDest = f.sender.name
  case pos =>
    rw [if_pos here, if_pos (congrArg some here)]
    have same' : f.Same { { s with destinations := s.destinations ++ [some newDest] }.retried owner
        .handledLocally with waiting := .handled } := { same with }
    have waits := forwards_setForward inside same' .handledLocally trivial
    have kept := forwards_receive o (c.setForward i { f with phase := .handledLocally }) f.sender
      ⟨newDest, (c.setForward i { f with phase := .handledLocally }).getHead f, f.body,
        c.ring f.sender, c.ring f.sender⟩ (some i) load
    simp only
    generalize Cluster.receive o (c.setForward i { f with phase := .handledLocally }) _ _ _ _ =
      result at kept
    obtain ⟨after, emitted⟩ := result
    simp only at kept ⊢
    cases emitted with
    | some message =>
      rw [Forwards, kept]
      exact waits
    | none =>
      -- `handleRequest` has refused the request
      refine forwards_onProxy ?_ same' trivial
      rw [kept, setForward, List.length_set]
      exact inside
  case neg =>
    rw [if_neg here, if_neg fun local' => here (Option.some.inj local')]
    have same' : f.Same ({ s with destinations := s.destinations ++ [some newDest] }.retried owner
        (.to (some newDest))) := { same with }
    exact forwards_send inside same' newDest (c.ring f.sender) destroyed

theorem forwards_attemptRetry (inside : i < c.forwards.length) (same : f.Same s)
    (some : f.keys ≠ []) (destroyed : Bool) (load : Load) :
    (c.attemptRetry o i f destroyed load).1.Forwards i f.sender
      (s.attemptRetry (lookup o f.sender (c.ring f.sender)) f.sender.name destroyed) := by
  generalize owners : lookup o f.sender (c.ring f.sender) = owner
  have again : Forward.Same { f with numRetries := f.numRetries + 1 }
      { s with numRetries := s.numRetries + 1 } :=
    { same with numRetries := congrArg (· + 1) same.numRetries }
  have stays (chosen : HashRing) (destination : Str) (eq : destination = s.host) :
      (c.send i { f with numRetries := f.numRetries + 1 } destination chosen destroyed).Forwards i
        f.sender (({ s with numRetries := s.numRetries + 1 }.retried owner
          (.to (.some s.host))).send destroyed (.some s.host)) := by
    subst eq
    have same' : Forward.Same { f with numRetries := f.numRetries + 1 }
        ({ s with numRetries := s.numRetries + 1 }.retried owner (.to (.some s.host))) :=
      { again with }
    exact forwards_send inside same' s.host chosen destroyed
  have looked : c.lookupKeys o f.sender f.keys = RequestProxySend.lookupKeys owner s.keys := by
    rw [← same.keys, ← owners]
    rfl
  have nonempty : RequestProxySend.lookupKeys owner s.keys ≠ [] := by
    obtain ⟨key, listed⟩ := List.exists_mem_of_ne_nil _ (same.keys ▸ some)
    exact List.ne_nil_of_mem (RequestProxySend.mem_lookupKeys.mpr ⟨key, listed, rfl⟩)
  rw [Cluster.attemptRetry, RequestProxySend.attemptRetry]
  simp only [looked]
  by_cases skip : s.skipLookupOnRetry = true
  case pos =>
    rw [if_pos skip, if_pos (same.skipLookupOnRetry.trans skip),
      if_neg (by simp : ¬ [s.host].length > 1), List.head?_singleton, if_pos rfl]
    exact stays f.looked f.host same.host
  case neg =>
    rw [if_neg skip, if_neg fun skipped => skip (same.skipLookupOnRetry.symm.trans skipped)]
    generalize RequestProxySend.lookupKeys owner s.keys = dests at nonempty
    obtain ⟨newDest, rest, rfl⟩ := List.exists_cons_of_ne_nil nonempty
    cases rest with
    | nil =>
      rw [if_neg (by simp : ¬ [newDest].length > 1), List.head?_singleton]
      by_cases unmoved : newDest = s.host
      case pos =>
        rw [if_pos (congrArg Option.some unmoved)]
        simp only
        rw [if_pos (unmoved.trans same.host.symm)]
        exact stays (c.ring f.sender) f.host same.host
      case neg =>
        rw [if_neg fun eq => unmoved (Option.some.inj eq)]
        simp only
        rw [if_neg fun eq => unmoved (eq.trans same.host)]
        exact forwards_rerouteRetry inside again owner newDest destroyed load
    | cons second rest =>
      rw [if_pos (by simp : (newDest :: second :: rest).length > 1)]
      have same' : Forward.Same { f with numRetries := f.numRetries + 1 }
          (({ s with numRetries := s.numRetries + 1 }.retried owner .aborted).callBack
            (.error (.keysDiverged s.keys s.host (newDest :: second :: rest)))) := { again with }
      exact forwards_onProxy inside same' trivial

end Cluster

section Steps
variable {o : Options} {c : Cluster} {i : ℕ} {sender : Address} {s : RequestProxySend}

/-- The options with which a forward that has its body is sent. -/
def Forward.sendOptions (f : Forward) (body : Str) (schedule : Option (List ℚ)) : SendOptions where
  keys := f.keys
  host := f.host
  request := f.request
  body := body
  max := f.maxRetries
  schedule := schedule
  skipLookup := f.skipLookupOnRetry

theorem forwards_onBody {f : Forward} (here : c.forwards[i]? = some f)
    (reading : f.phase = .readingBody) (first : f.numRetries = 0) (body : Str) (destroyed : Bool)
    (schedule : Option (List ℚ)) :
    (step o c (.onBody i (some body) destroyed)).1.Forwards i f.sender
      ((RequestProxySend.new (f.sendOptions body schedule)).send destroyed (some f.host)) := by
  have inside : i < c.forwards.length := (List.getElem?_eq_some_iff.mp here).1
  have same : Forward.Same { f with body := body }
      (RequestProxySend.new (f.sendOptions body schedule)) :=
    ⟨rfl, rfl, rfl, rfl, rfl, rfl, first⟩
  simp only [step, here, reading]
  exact Cluster.forwards_send inside same f.host f.looked destroyed

theorem Forward.Sends.due_onRequest {f : Forward} (h : f.Sends s) (err : Option Str) :
    s.due (.onRequest err) = true ↔ ∃ destination chosen,
      f.phase = .identifying destination chosen := by
  have waits := h.waits
  cases phase : f.phase <;> cases waiting : s.waiting <;>
    simp_all [RequestProxySend.due, Phase.Waits]

theorem Forward.Sends.due_onSend {f : Forward} (h : f.Sends s) (outcome : SendOutcome) :
    s.due (.onSend outcome) = true ↔ f.phase = .sent := by
  have waits := h.waits
  cases phase : f.phase <;> cases waiting : s.waiting <;>
    simp_all [RequestProxySend.due, Phase.Waits]

theorem Forward.Sends.due_onTimeout {f : Forward} (h : f.Sends s) (destroyed : Bool) :
    s.due (.onTimeout destroyed) = true ↔ f.phase = .retryScheduled := by
  have waits := h.waits
  cases phase : f.phase <;> cases waiting : s.waiting <;>
    simp_all [RequestProxySend.due, Phase.Waits]

/-- A callback of a forward does to it what it does to the send. -/
theorem forwards_step (forwards : c.Forwards i sender s) (keys : s.keys ≠ []) {event : SendEvent}
    {load : Load} {callback : Event} (is : event.inCluster i load = some callback) :
    (step o c callback).1.Forwards i sender
      (s.step (lookup o sender (c.ring sender)) sender.name event) := by
  have kept := forwards
  obtain ⟨f, here, rfl, sends⟩ := forwards
  have inside : i < c.forwards.length := (List.getElem?_eq_some_iff.mp here).1
  have same : f.Same { s with steps := s.steps + 1 } := { sends.toSame with }
  rw [RequestProxySend.step]
  cases event with
  | onTick | onHandled _ => cases is
  | onRequest err =>
    cases is
    simp only [step, here]
    by_cases due : s.due (.onRequest err)
    case pos =>
      obtain ⟨destination, chosen, phase⟩ := (sends.due_onRequest err).mp due
      rw [if_pos due, phase]
      exact Cluster.forwards_onRequest inside same destination chosen err
    case neg =>
      rw [if_neg due]
      split
      case h_1 phase => exact absurd ((sends.due_onRequest err).mpr ⟨_, _, phase⟩) due
      case h_2 => exact kept
  | onSend outcome =>
    cases is
    simp only [step, here]
    by_cases due : s.due (.onSend outcome)
    case pos =>
      rw [if_pos due, (sends.due_onSend outcome).mp due]
      exact Cluster.forwards_onSend inside same outcome
    case neg =>
      rw [if_neg due]
      split
      case h_1 phase => exact absurd ((sends.due_onSend outcome).mpr phase) due
      case h_2 => exact kept
  | onTimeout destroyed =>
    cases is
    simp only [step, here]
    by_cases due : s.due (.onTimeout destroyed)
    case pos =>
      rw [if_pos due, (sends.due_onTimeout destroyed).mp due]
      exact Cluster.forwards_attemptRetry inside same (sends.keys ▸ keys) destroyed load
    case neg =>
      rw [if_neg due]
      split
      case h_1 phase => exact absurd ((sends.due_onTimeout destroyed).mpr phase) due
      case h_2 => exact kept

end Steps

/-- The forward that an event changes, if it is there. -/
def Event.about (c : Cluster) : Event → Option ℕ
  | .onBody i _ _ | .onRequest i _ | .onSend i _ | .onTimeout i _ _ => some i
  | .onResponse entry => c.ingress[entry]?.bind Prod.snd
  | .ringChange _ _ | .handleOrProxy _ _ _ _ _ | .deliver _ _ _ => none

/-- All forwards but one are as they were. -/
def Cluster.OthersKept (c : Cluster) (i : ℕ) (next : Cluster) : Prop :=
  ∀ j ≠ i, next.forwards[j]? = c.forwards[j]?

section Others
variable {o : Options} {c : Cluster} {i : ℕ} {f : Forward}

theorem othersKept_setForward (c : Cluster) (i : ℕ) (f : Forward) :
    c.OthersKept i (c.setForward i f) :=
  fun _ other => List.getElem?_set_ne other.symm

theorem othersKept_send (f : Forward) (destination : Str) (chosen : HashRing) (destroyed : Bool) :
    c.OthersKept i (c.send i f destination chosen destroyed) := by
  unfold Cluster.send
  split <;> exact othersKept_setForward c i _

theorem othersKept_onSend (f : Forward) (ok : Bool) : c.OthersKept i (c.onSend i f ok) := by
  unfold Cluster.onSend
  repeat' split
  all_goals exact othersKept_setForward c i _

theorem othersKept_onRequest (f : Forward) (destination : Str) (chosen : HashRing) (err : Bool) :
    c.OthersKept i (c.onRequest i f destination chosen err) := by
  unfold Cluster.onRequest
  split <;> exact othersKept_setForward c i _

theorem othersKept_rerouteRetry (f : Forward) (newDest : Str) (destroyed : Bool) (load : Load) :
    c.OthersKept i (c.rerouteRetry o i f newDest destroyed load).1 := by
  have handled (message : Message) : c.OthersKept i
      ((c.setForward i { f with phase := .handledLocally }).receive o f.sender message (some i)
        load).1 := fun j other => by
    rw [Cluster.forwards_receive]
    exact othersKept_setForward c i _ j other
  unfold Cluster.rerouteRetry
  simp only
  repeat' split
  · exact handled _
  · exact fun j other => (othersKept_setForward _ i _ j other).trans (handled _ j other)
  · exact othersKept_send f newDest _ destroyed

theorem othersKept_attemptRetry (f : Forward) (destroyed : Bool) (load : Load) :
    c.OthersKept i (c.attemptRetry o i f destroyed load).1 := by
  unfold Cluster.attemptRetry
  simp only
  repeat' split
  · exact othersKept_send _ _ _ destroyed
  · exact othersKept_send _ _ _ destroyed
  · exact othersKept_rerouteRetry _ _ destroyed load
  · exact othersKept_setForward c i _

/-- What is not about a forward, nor begins one, leaves it as it is. -/
theorem getElem?_step {event : Event} (elsewhere : event.about c ≠ some i)
    (old : ∀ sender key req opts load, event ≠ .handleOrProxy sender key req opts load) :
    (step o c event).1.forwards[i]? = c.forwards[i]? := by
  have other {j : ℕ} (about : event.about c = some j) : i ≠ j := by
    rintro rfl
    exact elsewhere about
  cases event with
  | ringChange node op => rfl
  | handleOrProxy sender key req opts load => exact absurd rfl (old sender key req opts load)
  | onBody j rawBody destroyed =>
    simp only [step]
    repeat' split
    · exact othersKept_setForward c j _ i (other rfl)
    · exact othersKept_send _ _ _ destroyed i (other rfl)
    · rfl
    · rfl
  | onRequest j err =>
    simp only [step]
    repeat' split
    · exact othersKept_onRequest _ _ _ err i (other rfl)
    · rfl
    · rfl
  | onSend j ok =>
    simp only [step]
    repeat' split
    · exact othersKept_onSend _ ok i (other rfl)
    · rfl
    · rfl
  | onTimeout j destroyed load =>
    simp only [step]
    repeat' split
    · exact othersKept_attemptRetry _ destroyed load i (other rfl)
    · rfl
    · rfl
  | deliver j receiver load =>
    simp only [step]
    repeat' split
    · rw [Cluster.forwards_receive]
    · rfl
    · rfl
  | onResponse entry =>
    rw [step, Cluster.onResponse]
    split
    case h_1 => rfl
    case h_2 receiver forward found =>
      simp only
      split
      case h_1 => rfl
      case h_2 j =>
        split
        case h_1 => rfl
        case h_2 =>
          have about : Event.about c (.onResponse entry) = some j := by simp [Event.about, found]
          exact othersKept_setForward c j _ i (other about)

end Others

/-- A forward is reading its body, or is done, or does what a send does in a run of its own. -/
inductive Forward.Follows (o : Options) (ring : HashRing) (f : Forward) : Prop
  | reading (phase : f.phase = .readingBody) (first : f.numRetries = 0)
  | done (phase : f.phase = .done)
  | sends (start : HashRing) (opts : SendOptions) (destroyed : Bool) (events : List SendingEvent)
      (same : f.Sends (events.foldl (Sending.step o f.sender) (.new start opts destroyed)).send)
      (now : (events.foldl (Sending.step o f.sender) (.new start opts destroyed)).ring = ring)

/-- The forwards of a cluster have keys and follow sends. -/
def Cluster.Followed (o : Options) (c : Cluster) : Prop :=
  ∀ (i : ℕ) (f : Forward), c.forwards[i]? = some f → f.keys ≠ [] ∧ f.Follows o (c.ring f.sender)

section Runs
variable {o : Options} {c : Cluster} {i : ℕ} {f : Forward} {event : Event}

theorem RequestProxySend.keys_step (s : RequestProxySend) (owner : Str → Str) (whoami : Str)
    (event : SendEvent) : (s.step owner whoami event).keys = s.keys := by
  rw [RequestProxySend.step]
  split
  case isFalse => rfl
  case isTrue =>
    cases event with
    | onTick =>
      simp only [handle]
      split <;> rfl
    | onRequest err => cases err <;> rfl
    | onSend outcome =>
      simp only [handle, onSend]
      repeat' split
      all_goals rfl
    | onTimeout destroyed =>
      simp only [handle, attemptRetry, rerouteRetry, RequestProxySend.send]
      repeat' split
      all_goals rfl
    | onHandled result => rfl

/-- The ring of the sender changes for the send as well. -/
theorem follows_ring (follows : f.Follows o (c.ring f.sender)) (event : Event) :
    f.Follows o ((step o c event).1.ring f.sender) := by
  by_cases changed : ∃ op, event = .ringChange f.sender op
  case pos =>
    obtain ⟨op, rfl⟩ := changed
    have now : (step o c (.ringChange f.sender op)).1.ring f.sender =
        (op.apply o (c.ring f.sender)).1 := Function.update_self _ _ _
    rw [now]
    cases follows with
    | reading phase first => exact .reading phase first
    | done phase => exact .done phase
    | sends start opts destroyed events same ring =>
      refine .sends start opts destroyed (events ++ [.ringChange op]) ?_ ?_
      · rw [List.foldl_append]
        exact same
      · rw [List.foldl_append, ← ring]
        rfl
  case neg => rwa [ring_step fun op is => changed ⟨op, is⟩]

theorem forwards_handleOrProxy (o : Options) (c : Cluster) (sender : Address) (key : Str)
    (req : HttpRequest) (opts : ProxyOpts) (load : Load) :
    (c.handleOrProxy o sender key req opts load).forwards = c.forwards ∨
      ∃ f : Forward, f.keys = [key] ∧ f.phase = .readingBody ∧ f.numRetries = 0 ∧
        (c.handleOrProxy o sender key req opts load).forwards = c.forwards ++ [f] := by
  unfold Cluster.handleOrProxy Cluster.proxyReq
  simp only
  repeat' split
  · exact .inl rfl
  · exact .inl rfl
  · exact .inr ⟨_, rfl, rfl, rfl, rfl⟩

/-- A callback of a forward that follows a send is one more callback of the send. -/
theorem follows_callback (here : c.forwards[i]? = some f) (keys : f.keys ≠ [])
    (follows : f.Follows o (c.ring f.sender)) {callback : SendEvent} {load : Load}
    (is : callback.inCluster i load = some event) {g : Forward}
    (found : (step o c event).1.forwards[i]? = some g) :
    g.keys ≠ [] ∧ g.Follows o ((step o c event).1.ring g.sender) := by
  have quiet (a : Address) : (step o c event).1.ring a = c.ring a := by
    refine ring_step fun op changed => ?_
    rw [changed] at is
    cases callback <;> cases is
  have idle (stays : step o c event = (c, none)) :
      g.keys ≠ [] ∧ g.Follows o ((step o c event).1.ring g.sender) := by
    rw [stays] at found ⊢
    obtain rfl := Option.some.inj (here.symm.trans found)
    exact ⟨keys, follows⟩
  cases follows with
  | reading phase first => exact idle (by cases callback <;> cases is <;> simp [step, here, phase])
  | done phase => exact idle (by cases callback <;> cases is <;> simp [step, here, phase])
  | sends start opts destroyed events same now =>
    obtain ⟨g', there, sender, sends⟩ :=
      forwards_step (o := o) ⟨f, here, rfl, same⟩ (same.keys ▸ keys) is
    obtain rfl := Option.some.inj (there.symm.trans found)
    refine ⟨?_, ?_⟩
    · rw [sends.keys, RequestProxySend.keys_step, ← same.keys]
      exact keys
    · rw [quiet, sender]
      refine .sends start opts destroyed (events ++ [.send callback]) ?_ ?_
      · rw [List.foldl_append, sender]
        simp only [List.foldl_cons, List.foldl_nil, Sending.step, now]
        exact sends
      · rw [List.foldl_append, sender]
        exact now

theorem Forward.Follows.first {ring : HashRing} (follows : f.Follows o ring)
    (reading : f.phase = .readingBody) : f.numRetries = 0 := by
  cases follows with
  | reading _ first => exact first
  | done phase => cases reading.symm.trans phase
  | sends start opts destroyed events same now =>
    have waits := same.waits
    rw [reading] at waits
    exact waits.elim

/-- The forward `i` has its body, or there is none to be had. -/
theorem follows_onBody (here : c.forwards[i]? = some f) (keys : f.keys ≠ [])
    (follows : f.Follows o (c.ring f.sender)) {rawBody : Option Str} {destroyed : Bool} {g : Forward}
    (found : (step o c (.onBody i rawBody destroyed)).1.forwards[i]? = some g) :
    g.keys ≠ [] ∧ g.Follows o ((step o c (.onBody i rawBody destroyed)).1.ring g.sender) := by
  have quiet (a : Address) : (step o c (.onBody i rawBody destroyed)).1.ring a = c.ring a :=
    ring_step fun op changed => by cases changed
  by_cases reading : f.phase = .readingBody
  case neg =>
    have stays : step o c (.onBody i rawBody destroyed) = (c, none) := by
      simp only [step, here]
      split
      case h_1 phase => exact absurd phase reading
      case h_2 phase => exact absurd phase reading
      case h_3 => rfl
    rw [stays] at found ⊢
    obtain rfl := Option.some.inj (here.symm.trans found)
    exact ⟨keys, follows⟩
  case pos =>
    cases rawBody with
    | none =>
      simp only [step, here, reading] at found
      obtain rfl := Option.some.inj
        ((List.getElem?_set_self (List.getElem?_eq_some_iff.mp here).1).symm.trans found)
      exact ⟨keys, .done rfl⟩
    | some body =>
      obtain ⟨g', there, sender, sends⟩ :=
        forwards_onBody (o := o) here reading (follows.first reading) body destroyed none
      obtain rfl := Option.some.inj (there.symm.trans found)
      refine ⟨?_, ?_⟩
      · rw [sends.keys]
        exact keys
      · rw [quiet, sender]
        exact .sends (c.ring f.sender) (f.sendOptions body none) destroyed [] sends rfl

/-- An event about a forward. -/
theorem Cluster.Followed.about (followed : c.Followed o) (about : event.about c = some i)
    {g : Forward} (found : (step o c event).1.forwards[i]? = some g) :
    g.keys ≠ [] ∧ g.Follows o ((step o c event).1.ring g.sender) := by
  have callback {callback : SendEvent} {load : Load}
      (is : callback.inCluster i load = some event) :
      g.keys ≠ [] ∧ g.Follows o ((step o c event).1.ring g.sender) := by
    cases here : c.forwards[i]? with
    | none => cases callback <;> cases is <;> simp [step, here] at found
    | some f => exact follows_callback here (followed i f here).1 (followed i f here).2 is found
  cases event with
  | ringChange | handleOrProxy | deliver => cases about
  | onBody j rawBody destroyed =>
    obtain rfl := Option.some.inj about
    cases here : c.forwards[j]? with
    | none => simp [step, here] at found
    | some f => exact follows_onBody here (followed j f here).1 (followed j f here).2 found
  | onRequest j err =>
    obtain rfl := Option.some.inj about
    have is : (SendEvent.onRequest (if err then some [] else none)).inCluster j ⟨false, 0, 0, 0⟩ =
        some (.onRequest j err) := by cases err <;> rfl
    exact callback is
  | onSend j ok =>
    obtain rfl := Option.some.inj about
    have is : (SendEvent.onSend (if ok then .ok [] [] else .error [])).inCluster j ⟨false, 0, 0, 0⟩ =
        some (.onSend j ok) := by cases ok <;> rfl
    exact callback is
  | onTimeout j destroyed load =>
    obtain rfl := Option.some.inj about
    have is : (SendEvent.onTimeout destroyed).inCluster j load =
        some (.onTimeout j destroyed load) := rfl
    exact callback is
  | onResponse entry =>
    obtain ⟨⟨receiver, forward⟩, listed, rfl⟩ := Option.bind_eq_some_iff.mp about
    simp only [step, Cluster.onResponse, listed, Cluster.setProxy] at found
    cases here : c.forwards[i]? with
    | none => simp [here] at found
    | some f =>
      simp only [here] at found
      obtain rfl := Option.some.inj
        ((List.getElem?_set_self (List.getElem?_eq_some_iff.mp here).1).symm.trans found)
      exact ⟨(followed i f here).1, .done rfl⟩

theorem Cluster.Followed.step (followed : c.Followed o) (event : Event) :
    (step o c event).1.Followed o := by
  intro i g found
  have stays (same : c.forwards[i]? = some g) :
      g.keys ≠ [] ∧ g.Follows o ((Forwarding.step o c event).1.ring g.sender) :=
    ⟨(followed i g same).1, follows_ring (followed i g same).2 event⟩
  by_cases begins : ∃ sender key req opts load, event = .handleOrProxy sender key req opts load
  case pos =>
    obtain ⟨sender, key, req, opts, load, rfl⟩ := begins
    rcases forwards_handleOrProxy o c sender key req opts load with same | ⟨f, keys, phase, first, more⟩
    · exact stays (same ▸ found)
    · have found : (c.handleOrProxy o sender key req opts load).forwards[i]? = some g := found
      rw [more, List.getElem?_append] at found
      split at found
      case isTrue => exact stays found
      case isFalse =>
        obtain rfl := List.mem_singleton.mp (List.mem_of_getElem? found)
        exact ⟨by rw [keys]; exact List.cons_ne_nil _ _, .reading phase first⟩
  case neg =>
    by_cases about : event.about c = some i
    case neg =>
      refine stays ((getElem?_step about fun sender key req opts load is => ?_).symm.trans found)
      exact begins ⟨sender, key, req, opts, load, is⟩
    case pos => exact followed.about about found

/-- In every run of a cluster a forward that has its body and is not done is a send in a run of
its own, with the ring of its sender. -/
theorem run_follows (o : Options) (opts : Address → RequestProxyOptions) (events : List Event) :
    (run o opts events).Followed o :=
  Runs.foldl_invariant (fun c event => (step o c event).1) (Cluster.Followed o)
    (fun _ event followed => followed.step event) (fun _ _ none => by cases none) events

end Runs
end Ringpop.Forwarding
