import Ringpop.Protocol

/-! What a ringpop instance knows and says after each of its events: nothing that did not
reach it and that it did not announce. -/
namespace Ringpop.Members
open JsString Dictionary RecordedChange

/-- What a message says about members. -/
def Message.updates : Message → List Update
  | ping body => body.changes.getD []
  | pingAnswer changes => changes
  | pingReq body => body.changes.getD []
  | pingReqAnswer changes _ _ => changes
  | join _ => []
  | joinAnswer body => body.membership

/-- The messages that an event takes from the network. -/
def PeerEvent.receives : PeerEvent → List Envelope
  | receive envelope _ => [envelope]
  | joined answers _ => answers
  | onReverseFullSync _ answer _ => answer.toList
  | heal answer _ => [answer]
  | _ => []

variable {P : Address → Standing → Prop} {env : Env} {node : Node} {d : Dissemination}

def Envelope.Vouched (P : Address → Standing → Prop) (e : Envelope) : Prop :=
  ∀ u ∈ e.message.updates, u.Vouched P

theorem vouched_membershipAsChanges {m : Membership} (h : m.Sourced P)
    (w : Membership.WellFormed env m) : ∀ u ∈ m.membershipAsChanges env, u.Vouched P :=
  fun _ hu => h.view w.toIndexed (Dissemination.view_membershipAsChanges w hu).2

/-- Counters do not matter, and entries may go. -/
theorem Node.Sourced.weaken (h : node.Sourced P) {changes : Dict Address RecordedChange}
    (sub : ∀ a r, changes.get a = some r → ∃ r', node.changes.get a = some r' ∧
      r'.change = r.change) : Node.Sourced P { node with changes := changes } where
  membership := h.membership
  recorded a r found := by
    obtain ⟨r', found', same⟩ := sub a r found
    exact same ▸ h.recorded a r' found'
  timers := h.timers

theorem issueAs_sub (maxPiggybackCount : ℕ) (filterChange : Update → Bool)
    (changes : Dict Address RecordedChange) (a : Address) (r : RecordedChange)
    (h : (issueAs maxPiggybackCount filterChange changes).1.get a = some r) :
    ∃ r', changes.get a = some r' ∧ r'.change = r.change := by
  rw [get_issueAs] at h
  exact ⟨r, (Option.filter_eq_some_iff.mp h).1, rfl⟩

theorem bumps_sub (changes : Dict Address RecordedChange) (issued : List Update) (a : Address)
    (r : RecordedChange) (h : (issued.foldl bump changes).get a = some r) :
    ∃ r', changes.get a = some r' ∧ r'.change = r.change := by
  rw [get_foldl_bump] at h
  obtain ⟨r', found, rfl⟩ := Option.map_eq_some_iff.mp h
  exact ⟨r', found, rfl⟩

theorem Node.Sourced.issued (h : node.Sourced P) (maxPiggybackCount : ℕ)
    (filterChange : Update → Bool) :
    ∀ u ∈ (issueAs maxPiggybackCount filterChange node.changes).2, u.Vouched P := by
  intro u hu
  obtain ⟨a, r, found, rfl⟩ := mem_issueAs hu
  exact h.recorded a r found

theorem mem_generateChange {index : Dict Address Update} {membershipA : List Update}
    (indexed : ∀ a u, index.get a = some u → u ∈ membershipA)
    (changes : List Update × List Update) (b c : Update) :
    (c ∈ (generateChange index changes b).1 → c ∈ changes.1 ∨ c = createSuspectChange b) ∧
      (c ∈ (generateChange index changes b).2 →
        c ∈ changes.2 ∨ ∃ a ∈ membershipA, c = createSuspectChange a) := by
  unfold generateChange
  cases found : index.get b.address with
  | none => exact ⟨Or.inl, Or.inl⟩
  | some a =>
    have known := indexed _ a found
    constructor
    · simp only
      split
      · simp [or_comm]
      · exact Or.inl
    · simp only
      split
      · intro h
        rcases List.mem_append.mp h with old | new
        · exact .inl old
        · exact .inr ⟨a, known, List.mem_singleton.mp new⟩
      · exact Or.inl

/-- The changes of a heal suspect members of the two lists. -/
theorem mem_generateChanges (membershipA membershipB : List Update) (c : Update) :
    (c ∈ (generateChanges membershipA membershipB).1 →
        ∃ b ∈ membershipB, c = createSuspectChange b) ∧
      (c ∈ (generateChanges membershipA membershipB).2 →
        ∃ a ∈ membershipA, c = createSuspectChange a) := by
  have indexed (a : Address) (u : Update) (h : (indexBy membershipA).get a = some u) :
      u ∈ membershipA := by
    rw [get_indexBy] at h
    exact (List.mem_filter.mp (List.mem_of_getLast? h)).1
  refine List.foldlRecOn (motive := fun changes : List Update × List Update =>
    (c ∈ changes.1 → ∃ b ∈ membershipB, c = createSuspectChange b) ∧
      (c ∈ changes.2 → ∃ a ∈ membershipA, c = createSuspectChange a)) membershipB _
    ⟨fun h => absurd h List.not_mem_nil, fun h => absurd h List.not_mem_nil⟩
    fun changes h b hb => ?_
  obtain ⟨first, second⟩ := mem_generateChange indexed changes b c
  exact ⟨fun hc => (first hc).elim h.1 fun made => ⟨b, hb, made⟩,
    fun hc => (second hc).elim h.2 id⟩

theorem mem_mergeJoinResponses {whoami : Address} {responses : List JoinResponse} {u : Update}
    (h : u ∈ mergeJoinResponses whoami (some responses)) :
    ∃ response ∈ responses, u ∈ response.members := by
  cases responses with
  | nil => cases h
  | cons first rest =>
    rw [mergeJoinResponses] at h
    split at h
    case isTrue => exact ⟨first, List.mem_cons_self, h⟩
    case isFalse =>
      have found := mem_mergeMembershipChangesets.mp h
      have remote := (merge_address _ found).2
      have listed := (List.mem_filter.mp ((newest_iff_merged remote _ u).mpr found).mem).1
      obtain ⟨members, hm, hu⟩ := List.mem_flatten.mp listed
      obtain ⟨response, hr, rfl⟩ := List.mem_map.mp hm
      exact ⟨response, hr, hu⟩

namespace Peer
variable {config : PeerConfig} {p : Peer}

/-- The incarnations that an event makes an instance suspect, or ask another to suspect. -/
def suspects (config : PeerConfig) (p : Peer) : PeerEvent → List (Address × ℤ)
  | .makeSuspect ref _ _ =>
    if ref < p.node.membership.next then
      [((p.node.membership.heap ref).address, (p.node.membership.heap ref).incarnationNumber)]
    else []
  | .heal answer _ =>
    match answer.message with
    | .joinAnswer body =>
      let (changesForA, changesForB) :=
        generateChanges (p.membershipAsChanges config) body.membership
      (changesForA ++ changesForB).map fun c => (c.address, c.incarnationNumber)
    | _ => []
  | _ => []

/-- Its list and its records are in order, and all that it keeps is vouched for. -/
structure Sound (config : PeerConfig) (P : Address → Standing → Prop) (p : Peer) : Prop where
  current : Dissemination.Current config.members p.node
  sourced : p.node.Sourced P

theorem sound_new (config : PeerConfig) : Sound config P (new config) where
  current := Dissemination.current_new _ _
  sourced := Node.sourced_new _ _

theorem Sound.perform (sound : Sound config P p) (escalates : Escalates P) {event : NodeEvent}
    (brought : ∀ x ∈ event.brings, P x.1 x.2)
    (own : ∀ s ∈ (p.perform config event).announced, P config.members.whoami s) :
    Sound config P (p.perform config event) where
  current := sound.current.apply event
  sourced := sound.sourced.apply sound.current.inv escalates brought fun s hs =>
    own s (List.mem_append_right _ hs)

theorem Sound.update (sound : Sound config P p) (escalates : Escalates P) {changes : List Update}
    {tick : ℕ → Tick} (heard : ∀ u ∈ changes, u.Vouched P)
    (own : ∀ s ∈ (p.update config changes tick).announced, P config.members.whoami s) :
    Sound config P (p.update config changes tick) := by
  refine sound.perform escalates (fun x hx => ?_) own
  obtain ⟨change, hc, rfl⟩ := List.mem_map.mp hx
  have listed : change.1 ∈ (timed tick changes).map Prod.fst := List.mem_map_of_mem hc
  rw [map_timed] at listed
  exact heard _ listed

theorem Sound.membershipAsChanges (sound : Sound config P p) :
    ∀ u ∈ p.membershipAsChanges config, u.Vouched P :=
  vouched_membershipAsChanges sound.sourced.membership sound.current.inv.wellFormed

theorem Sound.issueAsSender (sound : Sound config P p) :
    Sound config P { p with dissemination := p.dissemination.issueAsSender } ∧
      ∀ u ∈ p.dissemination.handsOut config.members .issueAsSender, u.Vouched P :=
  ⟨⟨(sound.current.issueAs _ _).1, sound.sourced.weaken (issueAs_sub _ _ _)⟩,
    sound.sourced.issued _ _⟩

theorem Sound.sendPing (sound : Sound config P p) (target : Address) :
    Sound config P (p.sendPing config target).1 ∧
      ∀ e ∈ (p.sendPing config target).2, e.Vouched P :=
  ⟨sound.issueAsSender.1, List.forall_mem_singleton.mpr sound.issueAsSender.2⟩

theorem Sound.sendPingReq (sound : Sound config P p) (member target : Address) :
    Sound config P (p.sendPingReq config member target).1 ∧
      ∀ e ∈ (p.sendPingReq config member target).2, e.Vouched P :=
  ⟨sound.issueAsSender.1, List.forall_mem_singleton.mpr sound.issueAsSender.2⟩

theorem vouched_sendJoin (config : PeerConfig) (p : Peer) (target : Address) :
    (p.sendJoin config target).Vouched P := List.forall_mem_nil _

theorem Sound.tryStartReverseFullSync (sound : Sound config P p) (target : Address) :
    Sound config P (p.tryStartReverseFullSync config target).1 ∧
      ∀ e ∈ (p.tryStartReverseFullSync config target).2, e.Vouched P := by
  unfold Peer.tryStartReverseFullSync
  split
  · exact ⟨sound, List.forall_mem_nil _⟩
  · exact ⟨⟨sound.current, sound.sourced⟩,
      List.forall_mem_singleton.mpr (vouched_sendJoin config p target)⟩

theorem Sound.issueAsReceiver (sound : Sound config P p) (senderAddr : Address)
    (senderIncarnationNumber senderChecksum : Option ℤ) :
    let issued := p.issueAsReceiver config senderAddr senderIncarnationNumber senderChecksum
    Sound config P issued.1 ∧ ∀ u ∈ issued.2.1, u.Vouched P := by
  have current := (sound.current.issueAsReceiver senderAddr senderIncarnationNumber
    senderChecksum).1
  simp only [Peer.issueAsReceiver, Dissemination.issueAsReceiver] at current ⊢
  refine ⟨⟨current, sound.sourced.weaken fun a r h => ?_⟩, ?_⟩
  · obtain ⟨r', found, same⟩ := bumps_sub _ _ a r h
    obtain ⟨r'', found', same'⟩ := issueAs_sub _ _ _ a r' found
    exact ⟨r'', found', same'.trans same⟩
  · split
    · exact sound.membershipAsChanges
    · exact sound.sourced.issued _ _

theorem checkPing_ok {body : Option PingBody} {source : Address} {changes : List Update}
    {checksum : ℤ} {sourceIncarnationNumber : Option ℤ}
    (h : p.checkPing config body = .ok (source, changes, checksum, sourceIncarnationNumber)) :
    p.node.isReady = true ∧ ∃ b, body = some b ∧ b.source = some source ∧
      b.changes = some changes ∧ b.checksum = some checksum ∧
      b.sourceIncarnationNumber = sourceIncarnationNumber := by
  unfold checkPing at h
  repeat' split at h
  all_goals cases h
  all_goals
    refine ⟨?_, _, rfl, by assumption, by assumption, by assumption, rfl⟩
    simp_all

theorem checkPingReq_ok {requester : Address} {body : Option PingReqBody}
    {pending : PendingPingReq} {changes : List Update}
    (h : p.checkPingReq requester body = .ok (pending, changes)) :
    p.node.isReady = true ∧ ∃ b, body = some b ∧ b.changes = some changes := by
  unfold checkPingReq at h
  repeat' split at h
  all_goals cases h
  all_goals
    refine ⟨?_, _, rfl, by assumption⟩
    simp_all

/-- A ping that is rejected changes nothing. -/
theorem handlePing_error {body : Option PingBody} {tick : ℕ → Tick} {error : ProtocolError}
    (h : p.checkPing config body = .error error) :
    p.handlePing config body tick = (p, .error error, []) := by
  rw [handlePing, h]

theorem Sound.handlePing (sound : Sound config P p) (escalates : Escalates P) {body : PingBody}
    {tick : ℕ → Tick} (heard : ∀ u ∈ body.changes.getD [], u.Vouched P)
    (own : ∀ s ∈ (p.handlePing config (some body) tick).1.announced, P config.members.whoami s) :
    Sound config P (p.handlePing config (some body) tick).1 ∧
      (∀ answer, (p.handlePing config (some body) tick).2.1 = .ok answer →
        ∀ u ∈ answer, u.Vouched P) ∧
      ∀ e ∈ (p.handlePing config (some body) tick).2.2, e.Vouched P := by
  cases checked : p.checkPing config (some body) with
  | error error =>
    rw [handlePing_error checked]
    exact ⟨sound, fun answer h => by (cases h), List.forall_mem_nil _⟩
  | ok read =>
    obtain ⟨source, changes, checksum, sourceIncarnationNumber⟩ := read
    obtain ⟨-, b, same, -, brought, -⟩ := checkPing_ok checked
    obtain rfl := Option.some.inj same
    rw [brought] at heard
    simp only [Peer.handlePing, checked] at own ⊢
    have kept (q : Peer) (target : Address) :
        (q.tryStartReverseFullSync config target).1.announced = q.announced := by
      unfold Peer.tryStartReverseFullSync
      split <;> rfl
    have updated : Sound config P (p.update config changes tick) := by
      refine sound.update escalates heard ?_
      split at own
      · rw [kept] at own
        exact own
      · exact own
    obtain ⟨issued, said⟩ := updated.issueAsReceiver source sourceIncarnationNumber checksum
    split
    · obtain ⟨started, sent⟩ := issued.tryStartReverseFullSync source
      exact ⟨started, fun answer h => by (cases h; exact said), sent⟩
    · exact ⟨issued, fun answer h => by (cases h; exact said), List.forall_mem_nil _⟩

theorem Sound.handlePingReq (sound : Sound config P p) (escalates : Escalates P)
    {requester : Address} {body : PingReqBody} {tick : ℕ → Tick}
    (heard : ∀ u ∈ body.changes.getD [], u.Vouched P)
    (own : ∀ s ∈ (p.handlePingReq config requester (some body) tick).1.announced,
      P config.members.whoami s) :
    Sound config P (p.handlePingReq config requester (some body) tick).1 ∧
      ∀ e ∈ (p.handlePingReq config requester (some body) tick).2.2, e.Vouched P := by
  cases checked : p.checkPingReq requester (some body) with
  | error error =>
    simp only [Peer.handlePingReq, checked]
    exact ⟨sound, List.forall_mem_nil _⟩
  | ok read =>
    obtain ⟨pending, changes⟩ := read
    obtain ⟨-, b, same, brought⟩ := checkPingReq_ok checked
    obtain rfl := Option.some.inj same
    rw [brought] at heard
    simp only [Peer.handlePingReq, checked] at own ⊢
    have updated : Sound config P (p.update config changes tick) :=
      sound.update escalates heard own
    have waiting : Sound config P { p.update config changes tick with
        pingReqs := (p.update config changes tick).pingReqs ++ [pending] } :=
      ⟨updated.current, updated.sourced⟩
    exact waiting.sendPing pending.target

theorem Sound.answerPingReq (sound : Sound config P p) (pending : ℕ) (isOk : Bool) :
    Sound config P (p.answerPingReq config pending isOk).1 ∧
      ∀ e ∈ (p.answerPingReq config pending isOk).2, e.Vouched P := by
  unfold Peer.answerPingReq
  cases p.pingReqs[pending]? with
  | none => exact ⟨sound, List.forall_mem_nil _⟩
  | some pingReq =>
    have waiting : Sound config P { p with pingReqs := p.pingReqs.eraseIdx pending } :=
      ⟨sound.current, sound.sourced⟩
    obtain ⟨issued, said⟩ := waiting.issueAsReceiver pingReq.source
      pingReq.sourceIncarnationNumber pingReq.checksum
    exact ⟨issued, List.forall_mem_singleton.mpr said⟩

theorem handleJoin_ok {body : Option JoinRequestBody} {answer : JoinAnswerBody}
    (h : p.handleJoin config body = .ok answer) :
    answer.membership = p.membershipAsChanges config := by
  unfold handleJoin at h
  simp only [bind, Except.bind, pure, Except.pure] at h
  repeat' split at h
  all_goals cases h
  rfl

theorem Sound.processHeal (sound : Sound config P p) (escalates : Escalates P)
    {membershipB : List Update} {tick : ℕ → Tick} (heard : ∀ u ∈ membershipB, u.Vouched P)
    (suspected : let (changesForA, changesForB) :=
        generateChanges (p.membershipAsChanges config) membershipB
      ∀ c ∈ changesForA ++ changesForB, ∀ status, P c.address ⟨c.incarnationNumber, status⟩ →
        P c.address ⟨c.incarnationNumber, .suspect⟩)
    (own : ∀ s ∈ (p.processHeal config membershipB tick).1.announced,
      P config.members.whoami s) :
    Sound config P (p.processHeal config membershipB tick).1 ∧
      ∀ changes, (p.processHeal config membershipB tick).2 = some changes →
        ∀ u ∈ changes, u.Vouched P := by
  obtain ⟨suspectedA, suspectedB⟩ := List.forall_mem_append.mp suspected
  have vouched {members changes : List Update} (known : ∀ u ∈ members, u.Vouched P)
      (made : ∀ c ∈ changes, ∃ u ∈ members, c = createSuspectChange u)
      (suspects : ∀ c ∈ changes, ∀ status, P c.address ⟨c.incarnationNumber, status⟩ →
        P c.address ⟨c.incarnationNumber, .suspect⟩) :
      ∀ c ∈ changes, c.Vouched P := by
    intro c hc
    obtain ⟨u, hu, rfl⟩ := made c hc
    exact suspects _ hc _ (known u hu)
  have forA := vouched heard (fun c =>
    (mem_generateChanges (p.membershipAsChanges config) membershipB c).1) suspectedA
  have forB := vouched sound.membershipAsChanges (fun c =>
    (mem_generateChanges (p.membershipAsChanges config) membershipB c).2) suspectedB
  simp only [Peer.processHeal] at own ⊢
  split
  case isTrue endangered =>
    rw [if_pos endangered] at own
    refine ⟨?_, fun changes h => ?_⟩
    · split
      case isTrue some =>
        simp only [if_pos some] at own
        exact sound.update escalates forA own
      case isFalse => exact sound
    · obtain ⟨-, made⟩ := Option.ite_none_right_eq_some.mp h
      exact Option.some.inj made ▸ forB
  case isFalse safe =>
    rw [if_neg safe] at own
    have merged := sound.update escalates heard own
    exact ⟨merged, fun changes h => Option.some.inj h ▸ merged.membershipAsChanges⟩

theorem mem_joinAnswers {answers : List Envelope} {response : JoinResponse}
    (h : response ∈ joinAnswers answers) :
    ∃ e ∈ answers, e.message.updates = response.members := by
  obtain ⟨e, he, found⟩ := List.mem_filterMap.mp h
  refine ⟨e, he, ?_⟩
  split at found
  case h_1 body same =>
    obtain rfl := Option.some.inj found
    rw [same]
    rfl
  case h_2 => cases found

theorem vouched_reply {α : Type} {request : Envelope} {message : α → Message}
    {answer : Except ProtocolError α}
    (said : ∀ a, answer = .ok a → ∀ u ∈ (message a).updates, u.Vouched P) :
    ∀ e ∈ reply request message answer, e.Vouched P := by
  cases answer with
  | error error => exact List.forall_mem_nil _
  | ok a => exact List.forall_mem_singleton.mpr (said a rfl)

theorem Sound.receive (sound : Sound config P p) (escalates : Escalates P) {envelope : Envelope}
    {tick : ℕ → Tick} (heard : envelope.Vouched P)
    (own : ∀ s ∈ (p.receive config envelope tick).1.announced, P config.members.whoami s) :
    Sound config P (p.receive config envelope tick).1 ∧
      ∀ e ∈ (p.receive config envelope tick).2, e.Vouched P := by
  unfold Envelope.Vouched at heard
  unfold Peer.receive at own ⊢
  cases message : envelope.message with
  | ping body =>
    rw [message] at heard
    simp only [message] at own ⊢
    obtain ⟨handled, said, sent⟩ := sound.handlePing escalates heard own
    exact ⟨handled, List.forall_mem_append.mpr ⟨vouched_reply said, sent⟩⟩
  | pingReq body =>
    rw [message] at heard
    simp only [message] at own ⊢
    exact sound.handlePingReq escalates heard own
  | join body =>
    refine ⟨sound, vouched_reply fun answer ok => ?_⟩
    rw [Message.updates, handleJoin_ok ok]
    exact sound.membershipAsChanges
  | pingAnswer changes =>
    rw [message] at heard
    simp only [message] at own ⊢
    exact ⟨sound.update escalates heard own, List.forall_mem_nil _⟩
  | pingReqAnswer changes pingStatus target =>
    rw [message] at heard
    simp only [message] at own ⊢
    exact ⟨sound.update escalates heard own, List.forall_mem_nil _⟩
  | joinAnswer body => exact ⟨sound, List.forall_mem_nil _⟩

theorem Sound.onJoined (sound : Sound config P p) (escalates : Escalates P)
    {answers : List Envelope} {tick : ℕ → Tick} (heard : ∀ e ∈ answers, e.Vouched P)
    (own : ∀ s ∈ (p.onJoined config answers tick).announced, P config.members.whoami s) :
    Sound config P (p.onJoined config answers tick) := by
  refine sound.update escalates (fun u hu => ?_) own
  obtain ⟨response, hr, listed⟩ := mem_mergeJoinResponses hu
  obtain ⟨e, he, same⟩ := mem_joinAnswers hr
  exact heard e he u (same ▸ listed)

theorem Sound.onReverseFullSync (sound : Sound config P p) (escalates : Escalates P) {job : ℕ}
    {answer : Option Envelope} {tick : ℕ → Tick} (heard : ∀ e ∈ answer.toList, e.Vouched P)
    (own : ∀ s ∈ (p.onReverseFullSync config job answer tick).announced,
      P config.members.whoami s) :
    Sound config P (p.onReverseFullSync config job answer tick) := by
  unfold Peer.onReverseFullSync at own ⊢
  split
  case h_1 => exact sound
  case h_2 running =>
    simp only [running] at own
    split
    case h_1 response rest found =>
      simp only [found] at own
      obtain ⟨e, he, same⟩ := mem_joinAnswers (found ▸ List.mem_cons_self)
      have synced := sound.update escalates (fun u hu => heard e he u (same ▸ hu)) own
      exact ⟨synced.current, synced.sourced⟩
    case h_2 => exact ⟨sound.current, sound.sourced⟩

theorem Sound.heal (sound : Sound config P p) (escalates : Escalates P) {answer : Envelope}
    {tick : ℕ → Tick} (heard : answer.Vouched P)
    (suspected : ∀ x ∈ p.suspects config (.heal answer tick), ∀ status,
      P x.1 ⟨x.2, status⟩ → P x.1 ⟨x.2, .suspect⟩)
    (own : ∀ s ∈ (p.heal config answer tick).1.announced, P config.members.whoami s) :
    Sound config P (p.heal config answer tick).1 ∧
      ∀ e ∈ (p.heal config answer tick).2, e.Vouched P := by
  unfold Envelope.Vouched at heard
  unfold Peer.heal at own ⊢
  split
  case h_1 body message =>
    rw [message] at heard
    simp only [message] at own
    simp only [suspects, message] at suspected
    obtain ⟨healed, said⟩ :=
      sound.processHeal escalates heard (List.forall_mem_map.mp suspected) own
    refine ⟨healed, fun e he => ?_⟩
    obtain ⟨changes, listed, rfl⟩ := List.mem_map.mp he
    exact said changes (Option.mem_toList.mp listed)
  case h_2 => exact ⟨sound, List.forall_mem_nil _⟩

theorem Sound.makeSuspect (sound : Sound config P p) (escalates : Escalates P) {ref : ℕ}
    {id : Str} {tick : Tick} (suspected : ∀ x ∈ p.suspects config (.makeSuspect ref id tick),
      ∀ status, P x.1 ⟨x.2, status⟩ → P x.1 ⟨x.2, .suspect⟩)
    (own : ∀ s ∈ (p.makeSuspect config ref id tick).announced, P config.members.whoami s) :
    Sound config P (p.makeSuspect config ref id tick) := by
  unfold Peer.makeSuspect at own ⊢
  split
  case isTrue made =>
    rw [if_pos made] at own
    simp only [suspects, if_pos made] at suspected
    refine sound.perform escalates (List.forall_mem_singleton.mpr ?_) own
    exact suspected _ List.mem_cons_self _ (sound.sourced.membership.heap ref made)
  case isFalse => exact sound

theorem Sound.reapMember (sound : Sound config P p) (escalates : Escalates P) {ref : ℕ}
    {id : Str} {tick : Tick}
    (own : ∀ s ∈ (p.reapMember config ref id tick).announced, P config.members.whoami s) :
    Sound config P (p.reapMember config ref id tick) := by
  unfold Peer.reapMember at own ⊢
  simp only at own ⊢
  split
  case isTrue faulty =>
    rw [if_pos faulty] at own
    refine sound.perform escalates (List.forall_mem_singleton.mpr ?_) own
    have made := sound.current.inv.wellFormed.fresh ref faulty.1
    refine escalates.tombstone _ _ ?_
    exact faulty.2 ▸ sound.sourced.membership.heap ref made
  case isFalse => exact sound

theorem Sound.shuffle (sound : Sound config P p) (order : List ℕ) :
    Sound config P { p with dissemination := { p.dissemination with
      node := { p.node with membership := p.node.membership.shuffle order } } } where
  current :=
    { inv := sound.current.inv.remembered (sound.current.inv.wellFormed.shuffle order)
        (Membership.localMember_shuffle _ order) (Membership.view_shuffle _ order)
      current := fun a r h => by
        obtain ⟨address, standing⟩ := sound.current.current a r h
        refine ⟨address, fun s known => standing s ?_⟩
        exact (Membership.view_shuffle p.node.membership order a).symm.trans known
      joining := sound.current.joining }
  sourced :=
    { membership := sound.sourced.membership.shuffle order
      recorded := sound.sourced.recorded
      timers := sound.sourced.timers }

/-- Every event of an instance: what it keeps and what it sends is vouched for, if what it
receives and what it has announced is, and what it suspects may be suspected. -/
theorem Sound.step (sound : Sound config P p) (logarithm : ℕ → ℕ) (escalates : Escalates P)
    {event : PeerEvent} (heard : ∀ e ∈ event.receives, e.Vouched P)
    (suspected : ∀ x ∈ p.suspects config event, ∀ status,
      P x.1 ⟨x.2, status⟩ → P x.1 ⟨x.2, .suspect⟩)
    (own : ∀ s ∈ (p.step config logarithm event).1.announced, P config.members.whoami s) :
    Sound config P (p.step config logarithm event).1 ∧
      ∀ e ∈ (p.step config logarithm event).2, e.Vouched P := by
  have silent (q : Peer) (h : Sound config P q) : Sound config P q ∧
      ∀ e ∈ ([] : List Envelope), e.Vouched P := ⟨h, List.forall_mem_nil _⟩
  cases event with
  | setLocalStatus | rejoin | onJoin | fire =>
    exact silent _ (sound.perform escalates (List.forall_mem_nil _) own)
  | makeSuspect => exact silent _ (sound.makeSuspect escalates suspected own)
  | reapMember => exact silent _ (sound.reapMember escalates own)
  | shuffle order => exact silent _ (sound.shuffle order)
  | sendPing target => exact sound.sendPing target
  | sendPingReq member target => exact sound.sendPingReq member target
  | sendJoin target =>
    exact ⟨sound, List.forall_mem_singleton.mpr (vouched_sendJoin config p target)⟩
  | onIssue issue err =>
    refine silent _ ?_
    have current : Dissemination.Current config.members (p.dissemination.onIssue issue err).node :=
      @Dissemination.Current.step logarithm _ _ sound.current (.onIssue issue err)
    refine ⟨current, ?_⟩
    change Node.Sourced P (p.dissemination.onIssue issue err).node
    unfold Dissemination.onIssue
    split
    case h_1 => exact sound.sourced
    case h_2 =>
      split
      · exact sound.sourced
      · exact sound.sourced.weaken (bumps_sub _ _)
  | answerPingReq pending isOk => exact sound.answerPingReq pending isOk
  | onRingChanged =>
    refine silent _ ?_
    have same : (p.step config logarithm .onRingChanged).1.node = p.node := by
      simp only [Peer.step, Peer.node, Dissemination.adjustMaxPiggybackCount]
      split <;> rfl
    constructor
    · exact same.symm ▸ sound.current
    · exact same.symm ▸ sound.sourced
  | clearChanges =>
    have none (a : Address) (r : RecordedChange)
        (h : (Dict.empty : Dict Address RecordedChange).get a = some r) :
        ∃ r', p.node.changes.get a = some r' ∧ r'.change = r.change := by cases h
    exact silent _ ⟨sound.current.weaken none, sound.sourced.weaken none⟩
  | receive envelope tick => exact sound.receive escalates (heard envelope List.mem_cons_self) own
  | joined answers tick => exact silent _ (sound.onJoined escalates heard own)
  | onReverseFullSync job answer tick =>
    exact silent _ (sound.onReverseFullSync escalates heard own)
  | heal answer tick => exact sound.heal escalates (heard answer List.mem_cons_self) suspected own
  | restart =>
    exact silent _ ⟨Dissemination.current_new _ _, Node.sourced_new _ _⟩

end Peer
end Ringpop.Members
