import Ringpop.OneEach

/-! A cluster: instances that exchange messages over a network that may delay, reorder,
duplicate and lose them, and that may all fail and start again. What is known of a member
anywhere goes back to what the member has announced. -/
namespace Ringpop.Members
open JsString Dictionary

/-- The instances that take part, each at its own address. -/
structure Setup where
  config : Address → PeerConfig
  logarithm : ℕ → ℕ
  whoami : ∀ a, (config a).members.whoami = a

/-- `messages` is everything that has been sent. -/
structure Cluster where
  peer : Address → Peer
  messages : List Envelope

namespace Cluster
variable (setup : Setup)

def new : Cluster := ⟨fun a => .new (setup.config a), []⟩

/-- An event at one of the instances. It can only take what has been sent to it. -/
def step (c : Cluster) (event : Address × PeerEvent) : Cluster :=
  if ∀ e ∈ event.2.receives, e ∈ c.messages ∧ e.receiver = event.1 then
    let (p, sent) := (c.peer event.1).step (setup.config event.1) setup.logarithm event.2
    { peer := Function.update c.peer event.1 p, messages := c.messages ++ sent }
  else c

def after (c : Cluster) (events : List (Address × PeerEvent)) : Cluster :=
  events.foldl (step setup) c

def run (events : List (Address × PeerEvent)) : Cluster := (new setup).after setup events

def view (c : Cluster) (b a : Address) : Option Standing := (c.peer b).node.view a

def announced (c : Cluster) (a : Address) : List Standing := (c.peer a).announced

end Cluster

/-- What other members may make of an announcement. -/
def isAccusation : Status → Bool
  | .suspect | .faulty | .tombstone => true
  | .alive | .leave => false

/-- A standing that its member has announced, or that accuses an announced incarnation. -/
inductive Founded (announced : Address → List Standing) (a : Address) : Standing → Prop
  | announced {s : Standing} (said : s ∈ announced a) : Founded announced a s
  | accused {s : Standing} {status : Status} (said : s ∈ announced a)
      (accusation : isAccusation status = true) : Founded announced a ⟨s.incarnationNumber, status⟩

namespace Founded
variable {announced later : Address → List Standing} {a : Address} {s : Standing}

theorem mono (grows : ∀ a, announced a ⊆ later a) (founded : Founded announced a s) :
    Founded later a s := by
  cases founded with
  | announced said => exact .announced (grows a said)
  | accused said accusation => exact .accused (grows a said) accusation

/-- The announcement behind a standing. -/
theorem source (founded : Founded announced a s) :
    ∃ e ∈ announced a, e.incarnationNumber = s.incarnationNumber ∧
      (s = e ∨ isAccusation s.status = true) := by
  cases founded with
  | announced said => exact ⟨s, said, rfl, .inl rfl⟩
  | accused said accusation => exact ⟨_, said, rfl, .inr accusation⟩

theorem accuse (founded : Founded announced a s) {status : Status}
    (accusation : isAccusation status = true) :
    Founded announced a ⟨s.incarnationNumber, status⟩ := by
  obtain ⟨e, said, same, -⟩ := founded.source
  exact same ▸ .accused said accusation

theorem escalates (announced : Address → List Standing) : Escalates (Founded announced) where
  faulty _ _ founded := founded.accuse rfl
  tombstone _ _ founded := founded.accuse rfl

end Founded

theorem Update.Vouched.mono {P Q : Address → Standing → Prop} (le : ∀ a s, P a s → Q a s)
    {u : Update} (h : u.Vouched P) : u.Vouched Q := le _ _ h

theorem Node.Sourced.mono {P Q : Address → Standing → Prop} (le : ∀ a s, P a s → Q a s)
    {node : Node} (h : node.Sourced P) : node.Sourced Q where
  membership :=
    ⟨fun ref made => le _ _ (h.membership.heap ref made),
      fun stash known u hu => (h.membership.stashed stash known u hu).mono le⟩
  recorded a r found := (h.recorded a r found).mono le
  timers timer timeout live := by
    have vouched := h.timers timer timeout live
    cases transition : timeout.transition <;> rw [transition] at vouched
    · exact le _ _ vouched
    · exact le _ _ vouched
    · trivial

/-- Nodes that are alike but for what they have to disseminate. -/
def Node.Alike (node node' : Node) : Prop := node' = { node with changes := node'.changes }

theorem Node.Alike.trans {node node' node'' : Node} (h : node.Alike node')
    (h' : node'.Alike node'') : node.Alike node'' :=
  Eq.trans h' (congrArg (fun n : Node => { n with changes := node''.changes }) h)

/-- An update has at most one change for each member. -/
def NodeEvent.OneEach : NodeEvent → Prop
  | update changes => Members.OneEach (changes.map Prod.fst)
  | _ => True

namespace Peer
variable {config : PeerConfig} {each : Prop} {p : Peer}

/-- What an event does to the node of an instance and to its announcements. `each` says that
no message that comes with it says two things of one member. -/
inductive Moved (config : PeerConfig) (each : Prop) (p p' : Peer) : Prop
  | kept (announced : p'.announced = p.announced) (alike : p.node.Alike p'.node)
  | shuffled (order : List ℕ) (announced : p'.announced = p.announced)
      (alike : Node.Alike { p.node with membership := p.node.membership.shuffle order } p'.node)
  | performed (event : NodeEvent) (once : each → event.OneEach)
      (announced : p'.announced = (p.perform config event).announced)
      (alike : (p.perform config event).node.Alike p'.node)
  | restarted (announced : p'.announced = p.announced)
      (alike : (Node.new config.members config.periods).Alike p'.node)

theorem moved_idle (config : PeerConfig) (each : Prop) (p : Peer) : Moved config each p p :=
  .kept rfl rfl

theorem moved_update (config : PeerConfig) (p : Peer) {changes : List Update} (tick : ℕ → Tick)
    (once : each → OneEach changes) : Moved config each p (p.update config changes tick) := by
  refine .performed (.update (timed tick changes)) (fun h => ?_) rfl rfl
  rw [NodeEvent.OneEach, map_timed]
  exact once h

/-- Bookkeeping after a move. -/
theorem Moved.then {p' p'' : Peer} (moved : Moved config each p p')
    (announced : p''.announced = p'.announced) (alike : p'.node.Alike p''.node) :
    Moved config each p p'' := by
  cases moved with
  | kept announced' alike' => exact .kept (announced.trans announced') (alike'.trans alike)
  | shuffled order announced' alike' =>
    exact .shuffled order (announced.trans announced') (alike'.trans alike)
  | performed event once announced' alike' =>
    exact .performed event once (announced.trans announced') (alike'.trans alike)
  | restarted announced' alike' =>
    exact .restarted (announced.trans announced') (alike'.trans alike)

theorem Moved.weaken {p' : Peer} (moved : Moved config each p p') {each' : Prop}
    (sooner : each' → each) : Moved config each' p p' := by
  cases moved with
  | kept announced alike => exact .kept announced alike
  | shuffled order announced alike => exact .shuffled order announced alike
  | performed event once announced alike => exact .performed event (once ∘ sooner) announced alike
  | restarted announced alike => exact .restarted announced alike

theorem moved_tryStartReverseFullSync {p' : Peer} (moved : Moved config each p p')
    (target : Address) : Moved config each p (p'.tryStartReverseFullSync config target).1 := by
  unfold tryStartReverseFullSync
  split
  · exact moved
  · exact moved.then rfl rfl

theorem moved_issueAsReceiver {p' : Peer} (moved : Moved config each p p') (senderAddr : Address)
    (senderIncarnationNumber senderChecksum : Option ℤ) :
    Moved config each p
      (p'.issueAsReceiver config senderAddr senderIncarnationNumber senderChecksum).1 := by
  simp only [issueAsReceiver]
  exact moved.then rfl rfl

theorem moved_handlePing (config : PeerConfig) (p : Peer) {body : PingBody}
    (once : each → OneEach (body.changes.getD [])) (tick : ℕ → Tick) :
    Moved config each p (p.handlePing config (some body) tick).1 := by
  unfold handlePing
  split
  case h_1 => exact moved_idle config each p
  case h_2 source changes checksum sourceIncarnationNumber checked =>
    obtain ⟨-, b, same, -, brought, -⟩ := checkPing_ok checked
    obtain rfl := Option.some.inj same
    rw [brought] at once
    have issued := moved_issueAsReceiver (moved_update config p tick once) source
      sourceIncarnationNumber checksum
    simp only
    split
    · exact moved_tryStartReverseFullSync issued source
    · exact issued

theorem moved_handlePingReq (config : PeerConfig) (p : Peer) (requester : Address)
    {body : PingReqBody} (once : each → OneEach (body.changes.getD [])) (tick : ℕ → Tick) :
    Moved config each p (p.handlePingReq config requester (some body) tick).1 := by
  unfold handlePingReq
  split
  case h_1 => exact moved_idle config each p
  case h_2 pending changes checked =>
    obtain ⟨-, b, same, brought⟩ := checkPingReq_ok checked
    obtain rfl := Option.some.inj same
    rw [brought] at once
    exact (moved_update config p tick once).then rfl rfl

theorem moved_processHeal (config : PeerConfig) (p : Peer) {membershipB : List Update}
    (once : each → OneEach membershipB) (tick : ℕ → Tick) :
    Moved config each p (p.processHeal config membershipB tick).1 := by
  simp only [processHeal]
  split
  · split
    · exact moved_update config p tick fun h => (oneEach_generateChanges _ (once h)).1
    · exact moved_idle config each p
  · exact moved_update config p tick once

theorem moved_step (config : PeerConfig) (logarithm : ℕ → ℕ) (p : Peer) (event : PeerEvent) :
    Moved config (∀ e ∈ event.receives, e.OneEach) p (p.step config logarithm event).1 := by
  have idle := moved_idle config (∀ e ∈ event.receives, e.OneEach) p
  have alone (e : NodeEvent) (single : e.OneEach) :
      Moved config (∀ e ∈ event.receives, e.OneEach) p (p.perform config e) :=
    .performed e (fun _ => single) rfl rfl
  cases event with
  | setLocalStatus | rejoin | onJoin | fire => exact alone _ trivial
  | makeSuspect ref id tick =>
    simp only [step, makeSuspect]
    split
    · exact alone _ trivial
    · exact idle
  | reapMember ref id tick =>
    simp only [step, reapMember]
    split
    · exact alone _ trivial
    · exact idle
  | shuffle order => exact .shuffled order rfl rfl
  | sendPing | sendPingReq | sendJoin | clearChanges => exact idle.then rfl rfl
  | onIssue issue err =>
    simp only [step, Dissemination.onIssue]
    split
    · exact idle
    · split <;> exact idle.then rfl rfl
  | answerPingReq pending isOk =>
    simp only [step, answerPingReq]
    split
    case h_1 => exact idle
    case h_2 pingReq _ =>
      refine moved_issueAsReceiver ?_ pingReq.source pingReq.sourceIncarnationNumber
        pingReq.checksum
      exact idle.then rfl rfl
  | onRingChanged =>
    simp only [step, Dissemination.adjustMaxPiggybackCount]
    split <;> exact idle.then rfl rfl
  | receive envelope tick =>
    have brought {us : List Update} (same : envelope.message.updates = us)
        (h : ∀ e ∈ [envelope], e.OneEach) : OneEach us := same ▸ h envelope List.mem_cons_self
    simp only [step, receive]
    split
    case h_1 message => exact moved_handlePing config p (brought (by rw [message]; rfl)) tick
    case h_2 message => exact moved_handlePingReq config p _ (brought (by rw [message]; rfl)) tick
    case h_3 => exact idle
    case h_4 message => exact moved_update config p tick (brought (by rw [message]; rfl))
    case h_5 message => exact moved_update config p tick (brought (by rw [message]; rfl))
    case h_6 => exact idle
  | joined answers tick =>
    exact moved_update config p tick fun h => oneEach_mergeJoinResponses (oneEach_joinAnswers h)
  | onReverseFullSync job answer tick =>
    simp only [step, onReverseFullSync]
    split
    · exact idle
    · split
      case h_1 response rest found =>
        refine (moved_update config p tick fun h => ?_).then rfl rfl
        exact oneEach_joinAnswers h response (found ▸ List.mem_cons_self)
      case h_2 => exact idle.then rfl rfl
  | heal answer tick =>
    simp only [step, heal]
    split
    case h_1 body message =>
      refine moved_processHeal config p (fun h => ?_) tick
      have brought := h answer List.mem_cons_self
      rwa [Envelope.OneEach, message] at brought
    case h_2 => exact idle
  | restart => exact .restarted rfl rfl

/-- Announcements are never taken back. -/
theorem Moved.announced {p' : Peer} (moved : Moved config each p p') :
    ∃ more, p'.announced = p.announced ++ more := by
  cases moved with
  | kept announced | shuffled _ announced | restarted announced =>
    exact ⟨[], by rw [announced, List.append_nil]⟩
  | performed event _ announced => exact ⟨_, announced⟩

/-- What an instance believes of itself is the last that it has announced. -/
def SelfAware (config : PeerConfig) (p : Peer) : Prop :=
  ∀ s, p.node.view config.members.whoami = some s → p.announced.getLast? = some s

theorem SelfAware.moved (aware : SelfAware config p) (inv : Node.Inv config.members p.node)
    {p' : Peer} (moved : Moved config each p p') : SelfAware config p' := by
  intro s known
  cases moved with
  | kept announced alike =>
    rw [alike] at known
    rw [announced, aware s known]
  | shuffled order announced alike =>
    rw [alike] at known
    rw [announced, aware s ((Membership.view_shuffle _ order _).symm.trans known)]
  | restarted announced alike =>
    rw [alike] at known
    cases known
  | performed event once announced alike =>
    have accounts := inv.accounts event config.members.whoami
    cases accounts with
    | evicted remote | joined remote => exact absurd rfl remote
    | told belief =>
      have after : (p.node.apply config.members event).view config.members.whoami = some s := by
        rw [alike] at known
        exact known
      rw [belief.last] at after
      rw [announced, perform, List.getLast?_append, Node.announces, List.getLast?_map]
      cases last : (reportedAbout config.members.whoami
          (p.node.performs config.members event).2).getLast? with
      | none =>
        rw [last] at after
        rw [aware s after]
        rfl
      | some u =>
        rw [last] at after
        rw [← after]
        rfl

end Peer

theorem Peer.Sound.mono {P Q : Address → Standing → Prop} (le : ∀ a s, P a s → Q a s)
    {config : PeerConfig} {p : Peer} (sound : p.Sound config P) : p.Sound config Q :=
  ⟨sound.current, sound.sourced.mono le⟩

namespace Cluster
variable {setup : Setup} {c : Cluster}

/-- An event that could happen, with what it makes of the cluster. -/
theorem step_cases (setup : Setup) (c : Cluster) (event : Address × PeerEvent) :
    c.step setup event = c ∨
      (∀ e ∈ event.2.receives, e ∈ c.messages ∧ e.receiver = event.1) ∧
      c.step setup event =
        { peer := Function.update c.peer event.1
            ((c.peer event.1).step (setup.config event.1) setup.logarithm event.2).1
          messages := c.messages ++
            ((c.peer event.1).step (setup.config event.1) setup.logarithm event.2).2 } := by
  unfold step
  split
  case isTrue enabled => exact .inr ⟨enabled, rfl⟩
  case isFalse => exact .inl rfl

/-- Every instance moves on by itself or stays as it is. -/
theorem step_moved (setup : Setup) (c : Cluster) (event : Address × PeerEvent) (a : Address) :
    (c.peer a).Moved (setup.config a) (∀ e ∈ c.messages, e.OneEach)
      ((c.step setup event).peer a) := by
  rcases step_cases setup c event with idle | ⟨enabled, step⟩
  · rw [idle]
    exact Peer.moved_idle _ _ _
  · rw [step]
    by_cases here : a = event.1
    · subst here
      simp only [Function.update_self]
      exact (Peer.moved_step _ _ _ _).weaken fun each e he => each e (enabled e he).1
    · simp only [Function.update_of_ne here]
      exact Peer.moved_idle _ _ _

theorem announced_step (setup : Setup) (c : Cluster) (event : Address × PeerEvent) (a : Address) :
    ∃ more, (c.step setup event).announced a = c.announced a ++ more :=
  (step_moved setup c event a).announced

/-- All that the instances keep and that is on its way is vouched for, by what has been
announced. -/
structure Vouched (setup : Setup) (P : (Address → List Standing) → Address → Standing → Prop)
    (c : Cluster) : Prop where
  sound : ∀ a, (c.peer a).Sound (setup.config a) (P c.announced)
  messages : ∀ e ∈ c.messages, e.Vouched (P c.announced)

/-- What announcements can vouch for. -/
structure Voucher (P : (Address → List Standing) → Address → Standing → Prop) : Prop where
  mono : ∀ {announced later : Address → List Standing}, (∀ a, announced a ⊆ later a) →
    ∀ a s, P announced a s → P later a s
  said : ∀ {announced : Address → List Standing} {a s}, s ∈ announced a → P announced a s
  escalates : ∀ announced, Escalates (P announced)

theorem founded_voucher : Voucher Founded where
  mono grows _ _ founded := founded.mono grows
  said s := .announced s
  escalates := Founded.escalates

theorem vouched_new (setup : Setup) (P : (Address → List Standing) → Address → Standing → Prop) :
    Vouched setup P (new setup) where
  sound _ := Peer.sound_new _
  messages := List.forall_mem_nil _

variable {P : (Address → List Standing) → Address → Standing → Prop}

theorem Vouched.step (voucher : Voucher P) (vouched : Vouched setup P c)
    (event : Address × PeerEvent)
    (suspected : (∀ e ∈ event.2.receives, e ∈ c.messages ∧ e.receiver = event.1) →
      ∀ x ∈ (c.peer event.1).suspects (setup.config event.1) event.2, ∀ status,
        P (c.step setup event).announced x.1 ⟨x.2, status⟩ →
          P (c.step setup event).announced x.1 ⟨x.2, .suspect⟩) :
    Vouched setup P (c.step setup event) := by
  have grows := voucher.mono fun a => by
    obtain ⟨more, grown⟩ := announced_step setup c event a
    exact grown ▸ List.subset_append_left _ more
  have later (e : Envelope) (said : e.Vouched (P c.announced)) :
      e.Vouched (P (c.step setup event).announced) :=
    fun u hu => (said u hu).mono grows
  have sound (a : Address) : (c.peer a).Sound (setup.config a)
      (P (c.step setup event).announced) := (vouched.sound a).mono grows
  rcases step_cases setup c event with idle | ⟨enabled, step⟩
  · rwa [idle]
  · obtain ⟨a, event⟩ := event
    have own : ∀ s ∈ ((c.peer a).step (setup.config a) setup.logarithm event).1.announced,
        P (c.step setup (a, event)).announced (setup.config a).members.whoami s := by
      intro s said
      rw [setup.whoami]
      refine voucher.said ?_
      rw [step]
      simpa [announced] using said
    obtain ⟨moved, sent⟩ := (sound a).step setup.logarithm (voucher.escalates _)
      (fun e he => later e (vouched.messages e (enabled e he).1)) (suspected enabled) own
    refine ⟨fun b => ?_, ?_⟩
    · by_cases here : b = a
      · subst here
        have same : (c.step setup (b, event)).peer b =
            ((c.peer b).step (setup.config b) setup.logarithm event).1 := by
          rw [step]
          exact Function.update_self _ _ _
        rw [same]
        exact moved
      · have same : (c.step setup (a, event)).peer b = c.peer b := by
          rw [step]
          exact Function.update_of_ne here _ _
        rw [same]
        exact sound b
    · have grown : (c.step setup (a, event)).messages = c.messages ++
          ((c.peer a).step (setup.config a) setup.logarithm event).2 := by rw [step]
      rw [grown]
      exact List.forall_mem_append.mpr
        ⟨fun e he => later e (vouched.messages e he), sent⟩

theorem Vouched.view (vouched : Vouched setup P c) {a b : Address} {s : Standing}
    (known : c.view b a = some s) : P c.announced a s :=
  (vouched.sound b).sourced.membership.view
    (vouched.sound b).current.inv.wellFormed.toIndexed known

/-- All that the instances keep and that is on its way goes back to announcements. -/
structure Honest (setup : Setup) (c : Cluster) : Prop extends Vouched setup Founded c where
  aware : ∀ a, (c.peer a).SelfAware (setup.config a)

theorem honest_new (setup : Setup) : Honest setup (new setup) where
  toVouched := vouched_new setup _
  aware _ _ known := by cases known

theorem Honest.step (honest : Honest setup c) (event : Address × PeerEvent) :
    Honest setup (c.step setup event) where
  toVouched := honest.toVouched.step founded_voucher event fun _ _ _ _ founded => founded.accuse rfl
  aware a := (honest.aware a).moved (honest.sound a).current.inv (step_moved setup c event a)

theorem honest_run (setup : Setup) (events : List (Address × PeerEvent)) :
    Honest setup (run setup events) :=
  Runs.foldl_invariant (step setup) (Honest setup) (fun _ event honest => honest.step event)
    (honest_new setup) events

/-- Whatever happens, in whatever order, and whatever the network does: what an instance
believes, records, has stashed and waits for, and what is on its way, was announced by the
member that it is about, or accuses an incarnation that the member has announced. -/
theorem run_founded (setup : Setup) (events : List (Address × PeerEvent)) :
    let c := run setup events
    (∀ a b s, c.view b a = some s → Founded c.announced a s) ∧
      (∀ b, (c.peer b).node.Sourced (Founded c.announced)) ∧
      ∀ e ∈ c.messages, e.Vouched (Founded c.announced) := by
  intro c
  have honest := honest_run setup events
  exact ⟨fun a b s => honest.toVouched.view, fun b => (honest.sound b).sourced, honest.messages⟩

end Cluster
end Ringpop.Members
