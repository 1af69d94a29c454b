import Ringpop.Refutation

/-! Events of an instance that say nothing new of anybody. They are one update with what has
come in, and hand on what is believed and recorded after it. -/
namespace Ringpop.Members
open JsString Dictionary GreatestWins RecordedChange

/-- An event that says nothing new of any member. -/
def PeerEvent.passesOn : PeerEvent → Bool
  | setLocalStatus _ _ | rejoin _ | onJoin | fire _ _ _ | makeSuspect _ _ _ | reapMember _ _ _
  | heal _ _ | restart => false
  | _ => true

namespace Node
variable {env : Env} {node : Node}

/-- Changes that are not ahead of the local member make a ready node report what it has
heard, and nothing of itself. -/
theorem Inv.reports_heard (inv : Inv env node) (ready : node.isReady = true)
    {changes : List (Update × Tick)} {own : Standing} (self : node.view env.whoami = some own)
    (quiet : ∀ change ∈ changes, change.1.address = env.whoami → change.1.standing ≤ own) :
    ∀ u ∈ reported (node.performs env (.update changes)).2,
      u ∈ changes.map Prod.fst ∧ u.address ≠ env.whoami := by
  obtain ⟨ref, known⟩ := inv.started ready
  obtain ⟨applied, damping, checksum, old, damps, events⟩ := inv.wellFormed.update known changes
  have standing : node.membership.localStanding ref = own :=
    Option.some.inj ((inv.wellFormed.view_whoami known).symm.trans self)
  have reports : reported (node.performs env (.update changes)).2 =
      (Membership.update env true node.membership changes).2.1 := by
    rw [Node.performs, performs.updates, ready]
    simp only [events]
    rw [reported_append, reported_damping damps, reported_announce]
    rfl
  have silent := applied.own
  rw [standing, MemberList.refutations_of_quiet quiet] at silent
  intro u hu
  rw [reports] at hu
  have remote : u.address ≠ env.whoami := fun same => by
    have listed : u ∈ (Membership.update env true node.membership changes).2.1.filter
        fun u => u.address = env.whoami := by simp [hu, same]
    rw [List.map_eq_nil_iff.mp silent] at listed
    cases listed
  exact ⟨applied.reported hu remote, remote⟩

end Node

namespace Peer
variable {config : PeerConfig} {p q : Peer} {P : Address → Standing → Prop}

/-- The changes that an event makes an instance update its list with. -/
def takesIn (config : PeerConfig) (p : Peer) : PeerEvent → List Update
  | .receive envelope _ =>
    match envelope.message with
    | .ping body =>
      match p.checkPing config (some body) with
      | .ok (_, changes, _, _) => changes
      | .error _ => []
    | .pingReq body =>
      match p.checkPingReq envelope.sender (some body) with
      | .ok (_, changes) => changes
      | .error _ => []
    | .pingAnswer changes => changes
    | .pingReqAnswer changes _ _ => changes
    | .join _ | .joinAnswer _ => []
  | .joined answers _ => mergeJoinResponses config.members.whoami (some (joinAnswers answers))
  | .onReverseFullSync job answer _ =>
    match p.reverseFullSyncs[job]?, joinAnswers answer.toList with
    | some _, response :: _ => response.members
    | _, _ => []
  | _ => []

/-- Only what has come in is taken in. -/
theorem takesIn_received (config : PeerConfig) (p : Peer) (event : PeerEvent) :
    ∀ u ∈ p.takesIn config event, ∃ e ∈ event.receives, u ∈ e.message.updates := by
  intro u hu
  have merged {answers : List Envelope} {response : JoinResponse}
      (found : response ∈ joinAnswers answers) (listed : u ∈ response.members) :
      ∃ e ∈ answers, u ∈ e.message.updates := by
    obtain ⟨e, he, same⟩ := mem_joinAnswers found
    exact ⟨e, he, same ▸ listed⟩
  cases event with
  | receive envelope tick =>
    refine ⟨envelope, List.mem_cons_self, ?_⟩
    unfold takesIn at hu
    cases message : envelope.message with
    | ping body =>
      simp only [message] at hu
      split at hu
      case h_1 checked =>
        obtain ⟨-, b, same, -, brought, -⟩ := checkPing_ok checked
        obtain rfl := Option.some.inj same
        rw [Message.updates, brought]
        exact hu
      case h_2 => cases hu
    | pingReq body =>
      simp only [message] at hu
      split at hu
      case h_1 checked =>
        obtain ⟨-, b, same, brought⟩ := checkPingReq_ok checked
        obtain rfl := Option.some.inj same
        rw [Message.updates, brought]
        exact hu
      case h_2 => cases hu
    | pingAnswer changes | pingReqAnswer changes pingStatus target =>
      simp only [message] at hu
      exact hu
    | join body | joinAnswer body =>
      simp only [message] at hu
      cases hu
  | joined answers tick =>
    obtain ⟨response, found, listed⟩ := mem_mergeJoinResponses hu
    exact merged found listed
  | onReverseFullSync job answer tick =>
    simp only [takesIn] at hu
    split at hu
    case h_1 found => exact merged (found ▸ List.mem_cons_self) hu
    case h_2 => cases hu
  | _ => cases hu

/-- An update with nothing is no update. -/
theorem update_nil (ready : p.node.isReady = true) (tick : ℕ → Tick) :
    p.update config [] tick = p := by
  have idle : (p.node.performs config.members (.update [])).2 = [] := by
    rw [Node.performs, Node.performs.updates, ready]
    rfl
  have node : p.node.apply config.members (.update []) = p.node := by
    rw [Node.apply, Node.update, ready]
    rfl
  rw [update, perform, show timed tick [] = [] from rfl, node, Node.announces, reportedAbout, idle]
  simp [reported, Peer.node]

/-- An instance believes or has recorded what an update says. -/
def Says (p : Peer) (u : Update) : Prop :=
  p.node.view u.address = some u.standing ∨ ∃ a r, p.node.changes.get a = some r ∧ r.change = u

/-- `p` keeps and `sent` says what `q` believes and has recorded. -/
structure Mirrors (q p : Peer) (sent : List Envelope) : Prop where
  isReady : p.node.isReady = q.node.isReady
  view : ∀ a, p.node.view a = q.node.view a
  changes : ∀ a r, p.node.changes.get a = some r →
    ∃ r', q.node.changes.get a = some r' ∧ r'.change = r.change
  sent : ∀ e ∈ sent, ∀ u ∈ e.message.updates, q.Says u

theorem mirrors_self (p : Peer) : Mirrors p p [] :=
  ⟨rfl, fun _ => rfl, fun _ r h => ⟨r, h, rfl⟩, List.forall_mem_nil _⟩

/-- Bookkeeping aside, with more to send. -/
theorem Mirrors.and {p' : Peer} {sent more : List Envelope} (mirrors : Mirrors q p sent)
    (node : p'.node = p.node) (said : ∀ e ∈ more, ∀ u ∈ e.message.updates, q.Says u) :
    Mirrors q p' (sent ++ more) where
  isReady := node ▸ mirrors.isReady
  view := node ▸ mirrors.view
  changes := node ▸ mirrors.changes
  sent := List.forall_mem_append.mpr ⟨mirrors.sent, said⟩

/-- Recorded changes may be used up, and their counters do not matter. -/
theorem mirrors_weaker {p' : Peer} {changes : Dict Address RecordedChange}
    (node : p'.node = { p.node with changes := changes }) (sub : ∀ a r, changes.get a = some r →
      ∃ r', p.node.changes.get a = some r' ∧ r'.change = r.change) : Mirrors p p' [] where
  isReady := by rw [node]
  view a := by rw [node]; rfl
  changes a r h := sub a r (by rwa [node] at h)
  sent := List.forall_mem_nil _

theorem says_membershipAsChanges (inv : Node.Inv config.members p.node) :
    ∀ u ∈ p.membershipAsChanges config, p.Says u :=
  fun _ hu => .inl (Dissemination.view_membershipAsChanges inv.wellFormed hu).2

theorem mirrors_issueAsSender (config : PeerConfig) (p : Peer) :
    Mirrors p { p with dissemination := p.dissemination.issueAsSender } [] ∧
      ∀ u ∈ p.dissemination.handsOut config.members .issueAsSender, p.Says u :=
  ⟨mirrors_weaker rfl (issueAs_sub _ _ _), fun _ hu => .inr (mem_issueAs hu)⟩

theorem mirrors_sendPing (config : PeerConfig) (p : Peer) (target : Address) :
    Mirrors p (p.sendPing config target).1 (p.sendPing config target).2 :=
  have ⟨issued, said⟩ := mirrors_issueAsSender config p
  issued.and rfl (List.forall_mem_singleton.mpr said)

theorem mirrors_sendPingReq (config : PeerConfig) (p : Peer) (member target : Address) :
    Mirrors p (p.sendPingReq config member target).1 (p.sendPingReq config member target).2 :=
  have ⟨issued, said⟩ := mirrors_issueAsSender config p
  issued.and rfl (List.forall_mem_singleton.mpr said)

theorem mirrors_issueAsReceiver (inv : Node.Inv config.members p.node) (senderAddr : Address)
    (senderIncarnationNumber senderChecksum : Option ℤ) :
    let issued := p.issueAsReceiver config senderAddr senderIncarnationNumber senderChecksum
    Mirrors p issued.1 [] ∧ ∀ u ∈ issued.2.1, p.Says u := by
  simp only [Peer.issueAsReceiver, Dissemination.issueAsReceiver]
  refine ⟨mirrors_weaker rfl fun a r h => ?_, fun u hu => ?_⟩
  · obtain ⟨r', found, same⟩ := bumps_sub _ _ a r h
    obtain ⟨r'', found', same'⟩ := issueAs_sub _ _ _ a r' found
    exact ⟨r'', found', same'.trans same⟩
  · split at hu
    case isTrue => exact says_membershipAsChanges inv u hu
    case isFalse => exact .inr (mem_issueAs hu)

theorem says_sendJoin (config : PeerConfig) (p : Peer) (target : Address) :
    ∀ e ∈ [p.sendJoin config target], ∀ u ∈ e.message.updates, q.Says u :=
  List.forall_mem_singleton.mpr (List.forall_mem_nil _)

theorem Mirrors.tryStartReverseFullSync {sent : List Envelope} (mirrors : Mirrors q p sent)
    (target : Address) :
    Mirrors q (p.tryStartReverseFullSync config target).1
      (sent ++ (p.tryStartReverseFullSync config target).2) := by
  unfold Peer.tryStartReverseFullSync
  split
  · exact mirrors.and rfl (List.forall_mem_nil _)
  · exact mirrors.and rfl (says_sendJoin config p target)

theorem mirrors_handlePing (inv : Node.Inv config.members p.node) (ready : p.node.isReady = true)
    {request : Envelope} {body : PingBody} (message : request.message = .ping body)
    (tick : ℕ → Tick) :
    let handled := p.handlePing config (some body) tick
    Mirrors (p.update config (p.takesIn config (.receive request tick)) tick) handled.1
      (reply request .pingAnswer handled.2.1 ++ handled.2.2) := by
  simp only [takesIn, message, handlePing]
  cases p.checkPing config (some body) with
  | error error =>
    simp only
    rw [update_nil ready]
    exact mirrors_self p
  | ok read =>
    obtain ⟨source, changes, checksum, sourceIncarnationNumber⟩ := read
    have updated : Node.Inv config.members (p.update config changes tick).node :=
      inv.apply (.update (timed tick changes))
    obtain ⟨issued, said⟩ :=
      mirrors_issueAsReceiver updated source sourceIncarnationNumber checksum
    have answered := issued.and rfl (List.forall_mem_singleton.mpr said :
      ∀ e ∈ reply request .pingAnswer (.ok _), _)
    simp only
    split
    case isTrue => exact answered.tryStartReverseFullSync source
    case isFalse => exact answered.and rfl (List.forall_mem_nil _)

theorem mirrors_handlePingReq (ready : p.node.isReady = true) {request : Envelope}
    {body : PingReqBody} (message : request.message = .pingReq body) (tick : ℕ → Tick) :
    let handled := p.handlePingReq config request.sender (some body) tick
    Mirrors (p.update config (p.takesIn config (.receive request tick)) tick) handled.1
      handled.2.2 := by
  simp only [takesIn, message, handlePingReq]
  cases p.checkPingReq request.sender (some body) with
  | error error =>
    simp only
    rw [update_nil ready]
    exact mirrors_self p
  | ok read =>
    obtain ⟨pending, changes⟩ := read
    have issued := mirrors_sendPing config { p.update config changes tick with
      pingReqs := (p.update config changes tick).pingReqs ++ [pending] } pending.target
    exact ⟨issued.isReady, issued.view, issued.changes, issued.sent⟩

/-- What a ready instance keeps and sends after an event that says nothing new, it believes
or has recorded once it has taken in what comes with it. -/
theorem mirrors_step (current : Dissemination.Current config.members p.node)
    (ready : p.node.isReady = true) (logarithm : ℕ → ℕ) {event : PeerEvent}
    (passesOn : event.passesOn = true) :
    ∃ tick, Mirrors (p.update config (p.takesIn config event) tick)
      (p.step config logarithm event).1 (p.step config logarithm event).2 := by
  have alone {p' : Peer} {sent : List Envelope} (nothing : p.takesIn config event = [])
      (mirrors : Mirrors p p' sent) :
      ∃ tick, Mirrors (p.update config (p.takesIn config event) tick) p' sent :=
    ⟨fun _ => ⟨0, [], 0⟩, by rwa [nothing, update_nil ready]⟩
  have idle := mirrors_self p
  cases event with
  | setLocalStatus | rejoin | onJoin | fire | makeSuspect | reapMember | heal | restart =>
    cases passesOn
  | shuffle order =>
    exact alone rfl ⟨rfl, Membership.view_shuffle p.node.membership order, fun _ r h => ⟨r, h, rfl⟩,
      List.forall_mem_nil _⟩
  | sendPing target => exact alone rfl (mirrors_sendPing config p target)
  | sendPingReq member target => exact alone rfl (mirrors_sendPingReq config p member target)
  | sendJoin target => exact alone rfl (idle.and rfl (says_sendJoin config p target))
  | onIssue issue err =>
    refine alone rfl ?_
    simp only [step, Dissemination.onIssue]
    split
    · exact idle
    · split
      · exact idle.and rfl (List.forall_mem_nil _)
      · exact mirrors_weaker rfl (bumps_sub _ _)
  | answerPingReq pending isOk =>
    refine alone rfl ?_
    simp only [step, answerPingReq]
    split
    case h_1 => exact idle
    case h_2 pingReq _ =>
      obtain ⟨issued, said⟩ := mirrors_issueAsReceiver
        (p := { p with pingReqs := p.pingReqs.eraseIdx pending }) current.inv pingReq.source
        pingReq.sourceIncarnationNumber pingReq.checksum
      exact ⟨issued.isReady, issued.view, issued.changes, List.forall_mem_singleton.mpr said⟩
  | onRingChanged =>
    refine alone rfl (idle.and ?_ (List.forall_mem_nil _))
    simp only [step, Dissemination.adjustMaxPiggybackCount]
    split <;> rfl
  | clearChanges => exact alone rfl (mirrors_weaker rfl fun _ _ h => by cases h)
  | receive envelope tick =>
    simp only [step, receive]
    split
    case h_1 message => exact ⟨tick, mirrors_handlePing current.inv ready message tick⟩
    case h_2 message => exact ⟨tick, mirrors_handlePingReq ready message tick⟩
    case h_3 body message =>
      refine alone (by simp only [takesIn, message]) (idle.and rfl ?_)
      cases ok : p.handleJoin config (some body) with
      | error error => exact List.forall_mem_nil _
      | ok answer =>
        refine List.forall_mem_singleton.mpr ?_
        rw [Message.updates, handleJoin_ok ok]
        exact says_membershipAsChanges current.inv
    case h_4 message =>
      simp only [takesIn, message]
      exact ⟨tick, mirrors_self _⟩
    case h_5 message =>
      simp only [takesIn, message]
      exact ⟨tick, mirrors_self _⟩
    case h_6 message => exact alone (by simp only [takesIn, message]) idle
  | joined answers tick => exact ⟨tick, mirrors_self _⟩
  | onReverseFullSync job answer tick =>
    simp only [step, onReverseFullSync]
    split
    case h_1 absent => exact alone (by simp only [takesIn, absent]) idle
    case h_2 running =>
      split
      case h_1 response rest found =>
        refine ⟨tick, ?_⟩
        simp only [takesIn, running, found]
        exact (mirrors_self _).and rfl (List.forall_mem_nil _)
      case h_2 none =>
        exact alone (by simp only [takesIn, running, none]) (idle.and rfl (List.forall_mem_nil _))

/-- What an instance believes and has recorded to be handed out. -/
structure Within (P : Address → Standing → Prop) (p : Peer) : Prop where
  believes : ∀ a s, p.node.view a = some s → P a s
  recorded : ∀ a r, p.node.changes.get a = some r → r.change.Vouched P

theorem Mirrors.within {sent : List Envelope} (mirrors : Mirrors q p sent)
    (within : Within P q) : Within P p ∧ ∀ e ∈ sent, e.Vouched P := by
  refine ⟨⟨fun a s known => within.believes a s ((mirrors.view a).symm.trans known),
    fun a r found => ?_⟩, fun e he u hu => ?_⟩
  · obtain ⟨r', found', same⟩ := mirrors.changes a r found
    exact same ▸ within.recorded a r' found'
  · rcases mirrors.sent e he u hu with believed | ⟨a, r, found, rfl⟩
    · exact within.believes _ _ believed
    · exact within.recorded a r found

/-- Changes that are not ahead of the local member leave it as it is, and leave nothing that
was not there or has not come in. -/
theorem Within.update (within : Within P p) (inv : Node.Inv config.members p.node)
    (ready : p.node.isReady = true) {own : Standing}
    (self : p.node.view config.members.whoami = some own) {changes : List Update}
    (heard : ∀ u ∈ changes, u.Vouched P)
    (quiet : ∀ u ∈ changes, u.address = config.members.whoami → u.standing ≤ own)
    (tick : ℕ → Tick) :
    Within P (p.update config changes tick) ∧
      (p.update config changes tick).node.view config.members.whoami = some own := by
  have listed {change : Update × Tick} (hc : change ∈ timed tick changes) : change.1 ∈ changes := by
    have mem : change.1 ∈ (timed tick changes).map Prod.fst := List.mem_map_of_mem hc
    rwa [map_timed] at mem
  have reports := inv.reports_heard ready self fun change hc => quiet _ (listed hc)
  have told (a : Address) (u : Update) (last : (reportedAbout a (p.node.performs config.members
      (.update (timed tick changes))).2).getLast? = some u) :
      u ∈ changes ∧ u.address = a ∧ a ≠ config.members.whoami := by
    have mem := List.mem_filter.mp (List.mem_of_getLast? last)
    obtain ⟨here, remote⟩ := reports u mem.1
    have address : u.address = a := by simpa using mem.2
    rw [map_timed] at here
    exact ⟨here, address, address ▸ remote⟩
  have view (a : Address) : (p.update config changes tick).node.view a =
      ((reportedAbout a (p.node.performs config.members
        (.update (timed tick changes))).2).getLast?.map Update.standing).or (p.node.view a) ∨
      (p.update config changes tick).node.view a = none ∧ a ≠ config.members.whoami := by
    cases inv.accounts (.update (timed tick changes)) a with
    | told belief => exact .inl belief.last
    | evicted remote silent gone => exact .inr ⟨gone, remote⟩
    | joined remote silent joining => cases joining.symm.trans ready
  refine ⟨⟨fun a s known => ?_, fun a r found => ?_⟩, ?_⟩
  · rcases view a with after | ⟨gone, -⟩
    · rw [known] at after
      cases last : (reportedAbout a (p.node.performs config.members
          (.update (timed tick changes))).2).getLast? with
      | none =>
        rw [last] at after
        exact within.believes a s after.symm
      | some u =>
        obtain ⟨mem, rfl, -⟩ := told a u last
        rw [last] at after
        obtain rfl : s = u.standing := Option.some.inj after
        exact heard u mem
    · cases known.symm.trans gone
  · have after : (p.update config changes tick).node.changes.get a =
        ((reportedAbout a (p.node.performs config.members
          (.update (timed tick changes))).2).getLast?.map fun u => ⟨u, 0⟩).or
            (p.node.changes.get a) :=
      (congrArg (Dict.get · a) (Node.apply_performs config.members p.node
        (.update (timed tick changes))).changes).trans (get_recorded _ _ a)
    rw [found] at after
    cases last : (reportedAbout a (p.node.performs config.members
        (.update (timed tick changes))).2).getLast? with
    | none =>
      rw [last] at after
      exact within.recorded a r after.symm
    | some u =>
      rw [last] at after
      obtain rfl : r = ⟨u, 0⟩ := Option.some.inj after
      exact heard u (told a u last).1
  · rcases view config.members.whoami with after | ⟨-, remote⟩
    · cases last : (reportedAbout config.members.whoami (p.node.performs config.members
          (.update (timed tick changes))).2).getLast? with
      | none =>
        rw [last] at after
        exact after.trans self
      | some u => exact absurd rfl (told _ u last).2.2
    · exact absurd rfl remote

end Peer
end Ringpop.Members
