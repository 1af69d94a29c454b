import Ringpop.RequestProxy
import Ringpop.RingRouting
import Mathlib.Data.List.Induction
import Mathlib.Data.List.Infix

/-! Who executes a forwarded request. The destination is looked up in one step and the
checksum is read in a later one, so an accepted checksum speaks for the ring that built
the head, and the owner is right when that ring has the servers of the lookup. -/
namespace Ringpop.Forwarding
open JsString Dictionary Ringpop.Ring Ringpop.Members

variable {o : Options} {ring : HashRing}

/-- A ring whose points and checksum are those of its servers. -/
structure Current (o : Options) (ring : HashRing) : Prop where
  consistent : HashRing.Consistent o ring
  published : ring.checksum = none ∧ (∀ s, ring.servers.has s = false) ∨
    ring.checksum = some (o.hashFunc ring.serverNameStr)

theorem current_new (o : Options) : Current o .new :=
  ⟨HashRing.consistent_new, Or.inl ⟨rfl, fun _ => rfl⟩⟩

theorem Current.apply (h : Current o ring) (op : Op) : Current o (op.apply o ring).1 := by
  obtain ⟨consistent, same | fresh⟩ := HashRing.apply_spec h.consistent op
  · rw [same]
    exact h
  · exact ⟨consistent, Or.inr fresh⟩

/-- Among these rings, a checksum names a set of servers. -/
def Identifies (o : Options) (seen : HashRing → Prop) : Prop :=
  ∀ r r', seen r → seen r' → o.hashFunc r.serverNameStr = o.hashFunc r'.serverNameStr →
    ∀ s, r.servers.has s = r'.servers.has s

theorem Current.same_servers {other : HashRing} {seen : HashRing → Prop}
    (h : Current o ring) (h' : Current o other) (identifies : Identifies o seen) (known : seen ring)
    (known' : seen other) (same : ring.checksum = other.checksum) (s : Str) :
    ring.servers.has s = other.servers.has s := by
  rcases h.published with ⟨absent, empty⟩ | sum
  · rcases h'.published with ⟨-, empty'⟩ | sum'
    · rw [empty, empty']
    · cases absent.symm.trans (same.trans sum')
  · rcases h'.published with ⟨absent', -⟩ | sum'
    · cases sum.symm.trans (same.trans absent')
    · have equal := Option.some.inj (sum.symm.trans (same.trans sum'))
      exact identifies ring other known known' equal s

/-- A destination other than the sender, looked up for all keys in a ring. -/
structure Chosen (o : Options) (sender : Address) (ring : HashRing) (keys : List Str)
    (destination : Str) : Prop where
  consistent : HashRing.Consistent o ring
  remote : destination ≠ sender.name
  owner : ∀ key ∈ keys, lookup o sender ring key = destination

/-- The destination owns the keys in every ring with the same servers. -/
theorem Chosen.owns {sender : Address} {other : HashRing} {keys : List Str} {destination : Str}
    (h : Chosen o sender ring keys destination) (consistent : HashRing.Consistent o other)
    (same : ∀ s, other.servers.has s = ring.servers.has s) :
    ∀ key ∈ keys, other.lookup o key = some destination := by
  intro key hk
  have owner := h.owner key hk
  rw [HashRing.lookup_eq, consistent.points_eq h.consistent same, ← HashRing.lookup_eq]
  rw [lookup] at owner
  split at owner
  case h_1 => exact absurd owner.symm h.remote
  case h_2 dest found =>
    split at owner
    case isTrue => exact absurd owner.symm h.remote
    case isFalse => rw [found, owner]

/-- What the ring finds is what `RingPop.lookup` gives. -/
theorem lookup_of_found {whoami : Address} {key : Str} (h : ring.lookup o key = some whoami.name) :
    lookup o whoami ring key = whoami.name := by
  rw [lookup, h]
  exact ite_self _

theorem handleRequest_request {whoami : Address} {proxy : RequestProxy} {load : Load}
    {head : RawHead} {body : Str} {httpRequest : HttpRequest} {body' : Str} {head' : RawHead}
    (h : (handleRequest o whoami ring proxy load head body).2 = .request httpRequest body' head') :
    (proxy.enforceConsistency = true → head.ringpopChecksum = ring.checksum) ∧
      (proxy.enforceKeyConsistency = true →
        ∀ key ∈ head.ringpopKeys, lookup o whoami ring key = whoami.name) := by
  unfold handleRequest at h
  split at h
  case isTrue => cases h
  case isFalse passed =>
    refine ⟨fun enforced => ?_, fun enforced key hk => ?_⟩
    · by_contra differs
      exact passed ⟨differs, enforced⟩
    · split at h
      case h_1 =>
        rw [if_pos enforced] at h
        cases h
      case h_2 none => simpa using List.find?_eq_none.mp none key hk

/-- What is known of a forward. -/
structure Aimed (o : Options) (f : Forward) : Prop where
  host : Chosen o f.sender f.looked f.keys f.host
  phase : ∀ destination chosen, f.phase = .identifying destination chosen →
    Chosen o f.sender chosen f.keys destination

/-- What is known of a message, wherever its head was built. -/
structure Sent (o : Options) (seen : HashRing → Prop) (m : Message) : Prop where
  chosen : ∃ sender, Chosen o sender m.chosen m.head.ringpopKeys m.destination
  built : Current o m.built
  seen : seen m.built
  checksum : m.head.ringpopChecksum = m.built.checksum

structure Good (o : Options) (seen : HashRing → Prop) (c : Cluster) : Prop where
  rings : ∀ a, Current o (c.ring a)
  forwards : ∀ f ∈ c.forwards, Aimed o f
  messages : ∀ m ∈ c.messages, Sent o seen m

variable {seen : HashRing → Prop} {c : Cluster}

theorem good_new (o : Options) (seen : HashRing → Prop) (opts : Address → RequestProxyOptions) :
    Good o seen (.new opts) where
  rings _ := current_new o
  forwards := nofun
  messages := nofun

theorem Good.aimed (g : Good o seen c) {i : ℕ} {f : Forward} (found : c.forwards[i]? = some f) :
    Aimed o f :=
  g.forwards f (List.mem_of_getElem? found)

theorem Good.sent (g : Good o seen c) {i : ℕ} {m : Message} (found : c.messages[i]? = some m) :
    Sent o seen m :=
  g.messages m (List.mem_of_getElem? found)

theorem Good.setForward (g : Good o seen c) (i : ℕ) {f : Forward} (aimed : Aimed o f) :
    Good o seen (c.setForward i f) where
  rings := g.rings
  forwards f' hf' := by
    rcases List.mem_or_eq_of_mem_set hf' with old | rfl
    · exact g.forwards f' old
    · exact aimed
  messages := g.messages

theorem Good.setProxy (g : Good o seen c) (a : Address) (proxy : RequestProxy) :
    Good o seen (c.setProxy a proxy) := { g with }

theorem Aimed.idle {f : Forward} (aimed : Aimed o f) (phase : Phase)
    (idle : ∀ destination chosen, phase ≠ .identifying destination chosen) :
    Aimed o { f with phase := phase } :=
  ⟨aimed.host, fun destination chosen h => absurd h (idle destination chosen)⟩

theorem Good.onProxy (g : Good o seen c) (i : ℕ) {f : Forward} (aimed : Aimed o f) :
    Good o seen (c.onProxy i f) := by
  have idle (destination : Str) (chosen : HashRing) :
      Phase.done ≠ .identifying destination chosen := nofun
  exact (g.setForward i (aimed.idle _ idle)).setProxy _ _

theorem Good.send (g : Good o seen c) (i : ℕ) {f : Forward} (aimed : Aimed o f) {destination : Str}
    {chosen : HashRing} (h : Chosen o f.sender chosen f.keys destination) (destroyed : Bool) :
    Good o seen (c.send i f destination chosen destroyed) := by
  unfold Cluster.send
  split
  · exact g.onProxy i aimed
  · refine g.setForward i ⟨aimed.host, fun d r phase => ?_⟩
    obtain ⟨rfl, rfl⟩ := Phase.identifying.inj phase
    exact h

theorem Good.handleOrProxy (g : Good o seen c) (sender : Address) (key : Str) (req : HttpRequest)
    (opts : ProxyOpts) (load : Load) :
    Good o seen (c.handleOrProxy o sender key req opts load) := by
  unfold Cluster.handleOrProxy
  simp only
  split
  case isTrue => exact g
  case isFalse remote =>
    unfold Cluster.proxyReq
    simp only
    split
    case h_1 => exact g
    case h_2 =>
      refine ⟨g.rings, fun f hf => ?_, g.messages⟩
      rcases List.mem_append.mp hf with old | new
      · exact g.forwards f old
      · obtain rfl := List.mem_singleton.mp new
        refine ⟨⟨(g.rings sender).consistent, Ne.symm remote, fun k hk => ?_⟩, nofun⟩
        rw [List.mem_singleton.mp hk]

theorem Good.onRequest (g : Good o seen c) (known : ∀ a, seen (c.ring a)) (i : ℕ) {f : Forward}
    (aimed : Aimed o f) {destination : Str} {chosen : HashRing}
    (h : Chosen o f.sender chosen f.keys destination) (err : Bool) :
    Good o seen (c.onRequest i f destination chosen err) := by
  unfold Cluster.onRequest
  split
  · exact g.onProxy i aimed
  · have g' := g.setForward i (aimed.idle .sent nofun)
    refine ⟨g'.rings, g'.forwards, fun m hm => ?_⟩
    rcases List.mem_append.mp hm with old | new
    · exact g.messages m old
    · obtain rfl := List.mem_singleton.mp new
      exact ⟨⟨f.sender, h⟩, g.rings _, known _, rfl⟩

theorem Good.onSend (g : Good o seen c) (i : ℕ) {f : Forward} (aimed : Aimed o f) (ok : Bool) :
    Good o seen (c.onSend i f ok) := by
  unfold Cluster.onSend
  repeat' split
  · exact g.onProxy i aimed
  · exact g.onProxy i aimed
  · exact g.onProxy i aimed
  · exact g.setForward i (aimed.idle _ fun _ _ => nofun)

theorem Good.onResponse (g : Good o seen c) (entry : ℕ) : Good o seen (c.onResponse entry) := by
  unfold Cluster.onResponse
  split
  · exact g
  · rename_i receiver forward _
    have g' : Good o seen { c.setProxy receiver (c.proxy receiver).decrementInflightRequests with
      ingress := c.ingress.eraseIdx entry } := { g with }
    split
    · exact g'
    · simp only
      split
      · exact g'
      · rename_i found
        exact g'.onProxy _ (g.aimed found)

/-- A message whose request is emitted, before the application sees it. -/
structure Emitted (o : Options) (seen : HashRing → Prop) (c : Cluster) (receiver : Address)
    (m : Message) : Prop where
  enforced : (c.proxy receiver).enforceConsistency = true →
    m.head.ringpopChecksum = (c.ring receiver).checksum
  enforcedKeys : (c.proxy receiver).enforceKeyConsistency = true →
    ∀ key ∈ m.head.ringpopKeys, lookup o receiver (c.ring receiver) key = receiver.name
  origin : Sent o seen m ∧ m.destination = receiver.name ∨
    ∀ key ∈ m.head.ringpopKeys, lookup o receiver (c.ring receiver) key = receiver.name

theorem Emitted.of_setForward {i : ℕ} {f : Forward} {receiver : Address} {m : Message}
    (h : Emitted o seen (c.setForward i f) receiver m) : Emitted o seen c receiver m :=
  ⟨h.enforced, h.enforcedKeys, h.origin⟩

/-- A node that accepts a message whose sender was steady owns its keys. -/
theorem Emitted.owns {receiver : Address} {m : Message} (accepted : Emitted o seen c receiver m)
    (sent : Sent o seen m) (arrived : m.destination = receiver.name) (g : Good o seen c)
    (identifies : Identifies o seen) (known : ∀ a, seen (c.ring a))
    (enforced : (c.proxy receiver).enforceConsistency = true)
    (steady : ∀ s, m.built.servers.has s = m.chosen.servers.has s) :
    ∀ key ∈ m.head.ringpopKeys, (c.ring receiver).lookup o key = some receiver.name := by
  obtain ⟨sender, chosen⟩ := sent.chosen
  have agree := (g.rings receiver).same_servers sent.built identifies (known receiver) sent.seen
    ((accepted.enforced enforced).symm.trans sent.checksum)
  rw [← arrived]
  exact chosen.owns (g.rings receiver).consistent fun s => (agree s).trans (steady s)

/-- Nothing is emitted. -/
theorem silent {property : Address → Message → Prop} (a : Address) (m : Message)
    (h : (none : Option (Address × Message)) = some (a, m)) : property a m := by
  cases h

theorem Good.receive (g : Good o seen c) (receiver : Address) {m : Message} (forward : Option ℕ)
    (load : Load) (origin : Sent o seen m ∧ m.destination = receiver.name ∨
      ∀ key ∈ m.head.ringpopKeys, lookup o receiver (c.ring receiver) key = receiver.name) :
    Good o seen (c.receive o receiver m forward load).1 ∧
      ∀ a m', (c.receive o receiver m forward load).2 = some (a, m') → Emitted o seen c a m' := by
  unfold Cluster.receive
  simp only
  split
  case h_1 admitted =>
    obtain ⟨enforced, enforcedKeys⟩ := handleRequest_request admitted
    refine ⟨{ g with }, fun a m' h => ?_⟩
    obtain ⟨rfl, rfl⟩ := Prod.mk.inj (Option.some.inj h)
    exact ⟨enforced, enforcedKeys, origin⟩
  case h_2 => exact ⟨g.setProxy _ _, silent⟩

theorem receive_emits {receiver a : Address} {m m' : Message} {forward : Option ℕ} {load : Load}
    (h : (c.receive o receiver m forward load).2 = some (a, m')) : a = receiver ∧ m' = m := by
  unfold Cluster.receive at h
  simp only at h
  split at h
  · obtain ⟨rfl, rfl⟩ := Prod.mk.inj (Option.some.inj h)
    exact ⟨rfl, rfl⟩
  · cases h

/-- A request emitted on delivery is a message that was sent to the node. -/
theorem Good.delivered (g : Good o seen c) {i : ℕ} {receiver a : Address} {load : Load}
    {m : Message} (h : (step o c (.deliver i receiver load)).2 = some (a, m)) :
    Sent o seen m ∧ m.destination = a.name := by
  simp only [Forwarding.step] at h
  split at h
  case h_2 => cases h
  case h_1 message found =>
    split at h
    case isFalse => cases h
    case isTrue arrived =>
      obtain ⟨rfl, rfl⟩ := receive_emits h
      exact ⟨g.sent found, arrived⟩

theorem lookupKeys_singleton {sender : Address} {keys : List Str} {d : Str}
    (h : c.lookupKeys o sender keys = [d]) :
    ∀ key ∈ keys, lookup o sender (c.ring sender) key = d := by
  intro key hk
  have listed : lookup o sender (c.ring sender) key ∈ c.lookupKeys o sender keys := by
    rw [Cluster.lookupKeys, mem_propertyOrder, Dict.mem_keys, Dict.has_foldl_set]
    simp only [Dict.has_empty, Bool.false_or, decide_eq_true_eq]
    exact ⟨key, hk, rfl⟩
  rw [h] at listed
  exact List.mem_singleton.mp listed

theorem Good.rerouteRetry (g : Good o seen c) (i : ℕ) {f : Forward} (aimed : Aimed o f)
    {newDest : Str} (owner : ∀ key ∈ f.keys, lookup o f.sender (c.ring f.sender) key = newDest)
    (destroyed : Bool) (load : Load) :
    Good o seen (c.rerouteRetry o i f newDest destroyed load).1 ∧
      ∀ a m, (c.rerouteRetry o i f newDest destroyed load).2 = some (a, m) →
        Emitted o seen c a m := by
  unfold Cluster.rerouteRetry
  simp only
  split
  case isFalse remote =>
    exact ⟨g.send i aimed ⟨(g.rings _).consistent, remote, owner⟩ destroyed, silent⟩
  case isTrue self =>
    have idle (destination : Str) (chosen : HashRing) :
        Phase.handledLocally ≠ .identifying destination chosen := nofun
    obtain ⟨good, emitted⟩ := (g.setForward i (aimed.idle _ idle)).receive f.sender
      (m := ⟨newDest, (c.setForward i { f with phase := .handledLocally }).getHead f, f.body,
        c.ring f.sender, c.ring f.sender⟩) (some i) load
      (Or.inr fun key hk => (owner key hk).trans self)
    split
    case h_1 found => exact ⟨good, fun a m h => (emitted a m h).of_setForward⟩
    case h_2 => exact ⟨good.onProxy i aimed, silent⟩

theorem Good.attemptRetry (g : Good o seen c) (i : ℕ) {f : Forward} (aimed : Aimed o f)
    (destroyed : Bool) (load : Load) :
    Good o seen (c.attemptRetry o i f destroyed load).1 ∧
      ∀ a m, (c.attemptRetry o i f destroyed load).2 = some (a, m) → Emitted o seen c a m := by
  have counted : Aimed o { f with numRetries := f.numRetries + 1 } := ⟨aimed.host, aimed.phase⟩
  unfold Cluster.attemptRetry
  simp only
  split
  case isTrue => exact ⟨g.send i counted aimed.host destroyed, silent⟩
  case isFalse =>
    split
    case h_1 newDest found =>
      have owner := lookupKeys_singleton found
      split
      case isTrue same =>
        have again : Chosen o f.sender (c.ring f.sender) f.keys f.host :=
          ⟨(g.rings _).consistent, aimed.host.remote, same ▸ owner⟩
        exact ⟨g.send i counted again destroyed, silent⟩
      case isFalse => exact g.rerouteRetry i counted owner destroyed load
    case h_2 => exact ⟨g.onProxy i counted, silent⟩

/-- What one event keeps, and what an emitted request rests on. -/
theorem Good.step (g : Good o seen c) (known : ∀ a, seen (c.ring a)) (event : Event) :
    Good o seen (step o c event).1 ∧
      ∀ a m, (Forwarding.step o c event).2 = some (a, m) → Emitted o seen c a m := by
  cases event with
  | ringChange node op =>
    refine ⟨⟨fun a => ?_, g.forwards, g.messages⟩, silent⟩
    by_cases same : a = node
    · subst same
      simpa [Forwarding.step] using (g.rings a).apply op
    · simpa [Forwarding.step, Function.update_of_ne same] using g.rings a
  | handleOrProxy sender key req opts load =>
    exact ⟨g.handleOrProxy sender key req opts load, silent⟩
  | onBody i rawBody destroyed =>
    simp only [Forwarding.step]
    split
    case h_2 => exact ⟨g, silent⟩
    case h_1 f found =>
      have aimed := g.aimed found
      split
      case h_1 => exact ⟨g.onProxy i aimed, silent⟩
      case h_2 body _ =>
        have read : Aimed o { f with body := body } := ⟨aimed.host, aimed.phase⟩
        exact ⟨g.send i read aimed.host destroyed, silent⟩
      case h_3 => exact ⟨g, silent⟩
  | onRequest i err =>
    simp only [Forwarding.step]
    split
    case h_2 => exact ⟨g, silent⟩
    case h_1 f found =>
      have aimed := g.aimed found
      split
      case h_1 destination chosen phase =>
        exact ⟨g.onRequest known i aimed (aimed.phase destination chosen phase) err, silent⟩
      case h_2 => exact ⟨g, silent⟩
  | onSend i ok =>
    simp only [Forwarding.step]
    split
    case h_2 => exact ⟨g, silent⟩
    case h_1 f found =>
      split
      · exact ⟨g.onSend i (g.aimed found) ok, silent⟩
      · exact ⟨g, silent⟩
  | onTimeout i destroyed load =>
    simp only [Forwarding.step]
    split
    case h_2 => exact ⟨g, silent⟩
    case h_1 f found =>
      split
      · exact g.attemptRetry i (g.aimed found) destroyed load
      · exact ⟨g, silent⟩
  | deliver i receiver load =>
    simp only [Forwarding.step]
    split
    case h_2 => exact ⟨g, silent⟩
    case h_1 m found =>
      split
      case isTrue arrived =>
        exact g.receive receiver none load (Or.inl ⟨g.sent found, arrived⟩)
      case isFalse => exact ⟨g, silent⟩
  | onResponse entry => exact ⟨g.onResponse entry, silent⟩

/-- The rings that the nodes have in the course of a run. -/
def Occurs (o : Options) (opts : Address → RequestProxyOptions) (events : List Event)
    (ring : HashRing) : Prop :=
  ∃ reached, reached <+: events ∧ ∃ a, (run o opts reached).ring a = ring

theorem good_run (o : Options) (opts : Address → RequestProxyOptions) {events reached : List Event}
    (h : reached <+: events) : Good o (Occurs o opts events) (run o opts reached) := by
  induction reached using List.reverseRecOn with
  | nil => exact good_new o _ opts
  | append_singleton reached event ih =>
    have earlier : reached <+: events := (List.prefix_append reached [event]).trans h
    rw [run, List.foldl_concat]
    exact ((ih earlier).step (fun a => ⟨reached, earlier, a, rfl⟩) event).1

/-- The head was built with the servers among which the destination was looked up. -/
def Steady (m : Message) : Prop := ∀ s, m.built.servers.has s = m.chosen.servers.has s

/-- A forwarded request is executed by the owner of its keys where the receiver checks
the keys as well, or the sender's servers were steady. In the second case the ring of a
node that had the request from another node finds that node. -/
theorem run_forwarded (o : Options) (opts : Address → RequestProxyOptions)
    {events reached : List Event} {event : Event} (identifies : Identifies o (Occurs o opts events))
    (h : reached ++ [event] <+: events) {receiver : Address} {m : Message}
    (emitted : (step o (run o opts reached) event).2 = some (receiver, m))
    (enforced : ((run o opts reached).proxy receiver).enforceConsistency = true)
    (guarded : ((run o opts reached).proxy receiver).enforceKeyConsistency = true ∨ Steady m) :
    ∀ key ∈ m.head.ringpopKeys,
      lookup o receiver ((run o opts reached).ring receiver) key = receiver.name ∧
      (Steady m → (∃ i load, event = .deliver i receiver load) →
        ((run o opts reached).ring receiver).lookup o key = some receiver.name) := by
  have earlier : reached <+: events := (List.prefix_append reached [event]).trans h
  have good := good_run o opts earlier
  have known (a : Address) : Occurs o opts events ((run o opts reached).ring a) :=
    ⟨reached, earlier, a, rfl⟩
  have accepted := (good.step known event).2 receiver m emitted
  intro key hk
  constructor
  · rcases guarded with keys | steady
    · exact accepted.enforcedKeys keys key hk
    · rcases accepted.origin with ⟨sent, arrived⟩ | own
      · exact lookup_of_found
          (accepted.owns sent arrived good identifies known enforced steady key hk)
      · exact own key hk
  · rintro steady ⟨i, load, rfl⟩
    obtain ⟨sent, arrived⟩ := good.delivered emitted
    exact accepted.owns sent arrived good identifies known enforced steady key hk

@[simp] theorem ring_send (c : Cluster) (i : ℕ) (f : Forward) (destination : Str)
    (chosen : HashRing) (destroyed : Bool) :
    (c.send i f destination chosen destroyed).ring = c.ring := by
  unfold Cluster.send
  split <;> rfl

@[simp] theorem ring_receive (o : Options) (c : Cluster) (receiver : Address) (m : Message)
    (forward : Option ℕ) (load : Load) : (c.receive o receiver m forward load).1.ring = c.ring := by
  unfold Cluster.receive
  simp only
  split <;> rfl

theorem ring_attemptRetry (o : Options) (c : Cluster) (i : ℕ) (f : Forward) (destroyed : Bool)
    (load : Load) : (c.attemptRetry o i f destroyed load).1.ring = c.ring := by
  have rerouted (f : Forward) (newDest : Str) :
      (c.rerouteRetry o i f newDest destroyed load).1.ring = c.ring := by
    unfold Cluster.rerouteRetry
    simp only
    split
    · split
      · exact ring_receive o (c.setForward i _) f.sender _ _ load
      · exact ring_receive o (c.setForward i _) f.sender _ _ load
    · exact ring_send c i f newDest _ destroyed
  unfold Cluster.attemptRetry
  simp only
  repeat' split
  · exact ring_send c i _ _ _ destroyed
  · exact ring_send c i _ _ _ destroyed
  · exact rerouted _ _
  · rfl

/-- Only ring changes touch the rings. -/
theorem ring_step {event : Event} {a : Address} (quiet : ∀ op, event ≠ .ringChange a op) :
    (step o c event).1.ring a = c.ring a := by
  cases event with
  | ringChange node op =>
    have other : a ≠ node := by
      rintro rfl
      exact quiet op rfl
    exact Function.update_of_ne other _ _
  | handleOrProxy sender key req opts load =>
    simp only [step, Cluster.handleOrProxy, Cluster.proxyReq]
    repeat' split
    all_goals rfl
  | onBody i rawBody destroyed =>
    simp only [step]
    repeat' split
    all_goals first | rfl | rw [ring_send]
  | onRequest i err =>
    simp only [step, Cluster.onRequest]
    repeat' split
    all_goals rfl
  | onSend i ok =>
    simp only [step, Cluster.onSend]
    repeat' split
    all_goals rfl
  | onTimeout i destroyed load =>
    simp only [step]
    repeat' split
    all_goals first | rfl | rw [ring_attemptRetry]
  | deliver i receiver load =>
    simp only [step]
    repeat' split
    all_goals first | rfl | rw [ring_receive]
  | onResponse entry =>
    simp only [step, Cluster.onResponse]
    repeat' split
    all_goals rfl

/-- The node whose ring an event changes. -/
def Event.changes : Event → Option Address
  | .ringChange node _ => some node
  | _ => none

theorem identifies_of_listed {opts : Address → RequestProxyOptions} {events : List Event}
    (nodes : List Address) (listed : List (List Str))
    (others : ∀ event ∈ events, ∀ a ∈ event.changes, a ∈ nodes)
    (empty : [] ∈ listed)
    (along : ∀ a ∈ nodes, ∀ reached ∈ events.inits,
      ((run o opts reached).ring a).servers.keys ∈ listed)
    (apart : ∀ names ∈ listed, ∀ names' ∈ listed,
      o.hashFunc (join (str ";") (sort names)) = o.hashFunc (join (str ";") (sort names')) →
        names = names') : Identifies o (Occurs o opts events) := by
  have keys (r : HashRing) (occurs : Occurs o opts events r) : r.servers.keys ∈ listed := by
    obtain ⟨reached, h, a, rfl⟩ := occurs
    by_cases node : a ∈ nodes
    · exact along a node reached ((List.mem_inits _ _).mpr h)
    · have untouched : (run o opts reached).ring a = .new := by
        induction reached using List.reverseRecOn with
        | nil => rfl
        | append_singleton reached event ih =>
          have quiet (op : Op) : event ≠ .ringChange a op := by
            intro same
            have member : event ∈ events := h.subset (by simp)
            exact node (others event member a (by rw [same]; rfl))
          rw [run, List.foldl_concat, ring_step quiet]
          exact ih ((List.prefix_append reached [event]).trans h)
      rw [untouched]
      exact empty
  intro r r' occurs occurs' same s
  rw [Bool.eq_iff_iff, ← Dict.mem_keys, ← Dict.mem_keys,
    apart _ (keys r occurs) _ (keys r' occurs') same]

theorem run_forwarded_steady :
    let o : Options := ⟨1, fun s => s.length⟩
    let sender := Address.of "aaa" (by decide)
    let receiver := Address.of "bb" (by decide)
    let load : Load := ⟨false, 5000, 0, 0⟩
    let events : List Event := [.ringChange sender (.addRemoveServers [str "aaa", str "bb"] []),
      .ringChange receiver (.addRemoveServers [str "aaa", str "bb"] []),
      .handleOrProxy sender (str "k") ⟨[], [], [], []⟩ ⟨none, none, false⟩ load,
      .onBody 0 (some []) false, .onRequest 0 false]
    let c := run o (fun _ => ⟨none, none, none, none⟩) events
    (c.ring receiver).lookup o (str "k") = some receiver.name := by
  intro o sender receiver load events c
  have identifies : Identifies o (Occurs o (fun _ => ⟨none, none, none, none⟩)
      (events ++ [.deliver 0 receiver load])) := by
    exact identifies_of_listed [sender, receiver] [[], [str "aaa", str "bb"]] (by decide)
      (by decide) (by decide) (by decide)
  have arrival : ((step o c (.deliver 0 receiver load)).2.map fun emitted =>
      (emitted.1, emitted.2.head.ringpopKeys,
        decide (emitted.2.built.servers.keys = emitted.2.chosen.servers.keys))) =
      some (receiver, [str "k"], true) := by decide
  obtain ⟨⟨a, m⟩, emitted, facts⟩ := Option.map_eq_some_iff.mp arrival
  obtain ⟨rfl, facts⟩ := Prod.mk.inj facts
  obtain ⟨keys, servers⟩ := Prod.mk.inj facts
  have steady : Steady m := by
    intro s
    rw [Bool.eq_iff_iff, ← Dict.mem_keys, ← Dict.mem_keys, of_decide_eq_true servers]
  exact (run_forwarded o _ identifies (List.prefix_refl _) emitted (by decide) (Or.inr steady) _
    (by rw [keys]; exact List.mem_singleton_self _)).2 steady ⟨_, _, rfl⟩

/-- The sender's ring changes between the lookup and the head: the old owner executes
the request under the new checksum. And a sender whose ring has lost all servers handles
its retry itself, though its ring finds no owner. -/
theorem run_forwarded_stale :
    let o : Options := ⟨1, fun s => s.length⟩
    let opts : Address → RequestProxyOptions := fun _ => ⟨none, none, none, none⟩
    let sender := Address.of "aaa" (by decide)
    let receiver := Address.of "bb" (by decide)
    let load : Load := ⟨false, 5000, 0, 0⟩
    let request : Event := .handleOrProxy sender (str "k") ⟨[], [], [], []⟩ ⟨none, none, false⟩ load
    let reached : List Event := [.ringChange sender (.addRemoveServers [str "aaa", str "bb"] []),
      .ringChange receiver (.addRemoveServers [str "aaa", str "bb", str "c"] []),
      request, .ringChange sender (.addServer (str "c")), .onBody 0 (some []) false,
      .onRequest 0 false]
    let c := run o opts reached
    let arrival : Event := .deliver 0 receiver load
    let emptied : List Event := [.ringChange sender (.addServer (str "bb")), request,
      .onBody 0 (some []) false, .onRequest 0 false, .onSend 0 false,
      .ringChange sender (.removeServer (str "bb"))]
    let c' := run o opts emptied
    let retry : Event := .onTimeout 0 false load
    (Identifies o (Occurs o opts (reached ++ [arrival])) ∧
      (c.proxy receiver).enforceConsistency = true ∧
      ((step o c arrival).2.map fun emitted => (emitted.1, emitted.2.head.ringpopKeys)) =
        some (receiver, [str "k"]) ∧
      (c.ring receiver).lookup o (str "k") ≠ some receiver.name) ∧
    Identifies o (Occurs o opts (emptied ++ [retry])) ∧
      (c'.proxy sender).enforceConsistency = true ∧
      ((step o c' retry).2.map fun emitted => (emitted.1, emitted.2.head.ringpopKeys)) =
        some (sender, [str "k"]) ∧
      (c'.ring sender).lookup o (str "k") ≠ some sender.name := by
  intro o opts sender receiver load request reached c arrival emptied c' retry
  have identifies : Identifies o (Occurs o opts (reached ++ [arrival])) :=
    identifies_of_listed [sender, receiver]
      [[], [str "aaa", str "bb"], [str "aaa", str "bb", str "c"]] (by decide) (by decide)
      (by decide) (by decide)
  have identifies' : Identifies o (Occurs o opts (emptied ++ [retry])) :=
    identifies_of_listed [sender] [[], [str "bb"]] (by decide) (by decide) (by decide) (by decide)
  exact ⟨⟨identifies, by decide, by decide, by decide⟩, identifies', by decide, by decide,
    by decide⟩

end Ringpop.Forwarding
