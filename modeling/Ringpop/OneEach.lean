import Ringpop.PeerSteps

/-! What an instance sends has at most one change for each member, if what it receives has. -/
namespace Ringpop.Members
open JsString Dictionary RecordedChange

/-- At most one change for each member. -/
def OneEach (changes : List Update) : Prop := (changes.map Update.address).Nodup

instance (changes : List Update) : Decidable (OneEach changes) :=
  inferInstanceAs (Decidable (changes.map Update.address).Nodup)

variable {env : Env} {m : Membership} {node : Node}

theorem oneEach_nil : OneEach [] := List.nodup_nil

theorem OneEach.length_le {changes : List Update} (each : OneEach changes) (a : Address) :
    (changes.filter fun u => u.address = a).length ≤ 1 := by
  have nodup := each.sublist ((List.filter_sublist (p := fun u : Update => u.address = a)).map
    Update.address)
  have same : (changes.filter fun u => u.address = a).map Update.address =
      List.replicate (changes.filter fun u => u.address = a).length a := by
    refine List.eq_replicate_iff.mpr ⟨List.length_map _, fun b hb => ?_⟩
    obtain ⟨u, hu, rfl⟩ := List.mem_map.mp hb
    simpa using (List.mem_filter.mp hu).2
  rw [same] at nodup
  exact List.nodup_replicate.mp nodup

/-- A loop that adds at most one change for each item, about the member that the item names. -/
theorem addresses_foldl {σ β : Type} (step : σ → β → σ) (inv : σ → Prop) (out : σ → List Update)
    (key : β → Address) (keeps : ∀ s b, inv s → inv (step s b))
    (adds : ∀ s b, inv s → out (step s b) = out s ∨
      ∃ u, u.address = key b ∧ out (step s b) = out s ++ [u])
    (items : List β) {s : σ} (start : inv s) :
    ((out (items.foldl step s)).map Update.address).Sublist
      ((out s).map Update.address ++ items.map key) := by
  induction items generalizing s with
  | nil => simp
  | cons b items ih =>
    refine (ih (keeps s b start)).trans ?_
    rcases adds s b start with same | ⟨u, about, grown⟩
    · rw [same]
      exact (List.Sublist.refl _).append (List.sublist_cons_self _ _)
    · rw [grown, List.map_append, List.append_assoc]
      simp [about]

theorem oneEach_merged (whoami : Address) (changesets : List (List Update)) :
    OneEach (mergeMembershipChangesets whoami changesets) :=
  List.pairwise_map.mpr (nodup_mergeMembershipChangesets whoami changesets)

theorem oneEach_mergeJoinResponses {whoami : Address} {responses : List JoinResponse}
    (each : ∀ response ∈ responses, OneEach response.members) :
    OneEach (mergeJoinResponses whoami (some responses)) := by
  cases responses with
  | nil => exact oneEach_nil
  | cons first rest =>
    rw [mergeJoinResponses]
    split
    · exact each first List.mem_cons_self
    · exact oneEach_merged whoami _

theorem oneEach_membershipAsChanges (w : m.Indexed) (env : Env) :
    OneEach (m.membershipAsChanges env) := by
  rw [OneEach, Membership.membershipAsChanges, List.map_map]
  refine w.nodup.map_on fun r hr r' hr' same => ?_
  have found := (w.index _ r).mpr ⟨hr, rfl⟩
  have found' := (w.index _ r').mpr ⟨hr', rfl⟩
  rw [show (m.heap r).address = (m.heap r').address from same] at found
  exact Option.some.inj (found.symm.trans found')

/-- Recorded changes are about the member under whose address they are recorded. -/
theorem oneEach_issueAs {changes : Dict Address RecordedChange}
    (keyed : ∀ a r, changes.get a = some r → r.change.address = a) (maxPiggybackCount : ℕ)
    (filterChange : Update → Bool) :
    OneEach (issueAs maxPiggybackCount filterChange changes).2 := by
  have sub := addresses_foldl (issueChange maxPiggybackCount filterChange)
    (fun issued => ∀ a r, issued.1.get a = some r → r.change.address = a) Prod.snd id
    (fun issued address keyed a r h => ?_) (fun issued address keyed => ?_) (objectKeys changes)
    (s := (changes, [])) keyed
  · rw [List.map_id] at sub
    exact (nodup_objectKeys changes).sublist sub
  · rw [issueChange_get] at h
    split at h
    · exact keyed a r (Option.filter_eq_some_iff.mp h).1
    · exact keyed a r h
  · unfold issueChange
    split
    case h_1 => exact .inl rfl
    case h_2 r found =>
      split
      · exact .inl rfl
      · split
        · exact .inl rfl
        · exact .inr ⟨r.change, keyed address r found, rfl⟩

theorem oneEach_generateChanges (membershipA : List Update) {membershipB : List Update}
    (each : OneEach membershipB) :
    OneEach (generateChanges membershipA membershipB).1 ∧
      OneEach (generateChanges membershipA membershipB).2 := by
  have indexed (a : Address) (u : Update) (h : (indexBy membershipA).get a = some u) :
      u.address = a := by
    rw [get_indexBy] at h
    simpa using (List.mem_filter.mp (List.mem_of_getLast? h)).2
  have sub (out : List Update × List Update → List Update)
      (adds : ∀ s b, out (generateChange (indexBy membershipA) s b) = out s ∨
        ∃ u, u.address = b.address ∧ out (generateChange (indexBy membershipA) s b) = out s ++ [u])
      (start : out ([], []) = []) : OneEach (out (generateChanges membershipA membershipB)) := by
    have all := addresses_foldl (generateChange (indexBy membershipA)) (fun _ => True) out
      Update.address (fun _ _ _ => trivial) (fun s b _ => adds s b) membershipB (s := ([], []))
      trivial
    rw [start] at all
    exact each.sublist all
  refine ⟨sub Prod.fst (fun changes b => ?_) rfl, sub Prod.snd (fun changes b => ?_) rfl⟩
  · unfold generateChange
    cases (indexBy membershipA).get b.address with
    | none => exact .inl rfl
    | some a =>
      simp only
      split
      · exact .inr ⟨createSuspectChange b, rfl, rfl⟩
      · exact .inl rfl
  · unfold generateChange
    cases found : (indexBy membershipA).get b.address with
    | none => exact .inl rfl
    | some a =>
      simp only
      split
      · exact .inr ⟨createSuspectChange a, indexed _ a found, rfl⟩
      · exact .inl rfl

/-- A message says at most one thing of each member. -/
def Envelope.OneEach (e : Envelope) : Prop := Members.OneEach e.message.updates

theorem oneEach_joinAnswers {answers : List Envelope} (each : ∀ e ∈ answers, e.OneEach) :
    ∀ response ∈ Peer.joinAnswers answers, OneEach response.members := by
  intro response found
  obtain ⟨e, he, same⟩ := Peer.mem_joinAnswers found
  exact same ▸ each e he

namespace Peer
variable {config : PeerConfig} {p : Peer}

theorem oneEach_whole (current : Dissemination.Current config.members p.node) :
    OneEach (p.membershipAsChanges config) :=
  oneEach_membershipAsChanges current.inv.wellFormed.toIndexed config.members

theorem oneEach_handsOut (current : Dissemination.Current config.members p.node) :
    OneEach (p.dissemination.handsOut config.members .issueAsSender) :=
  oneEach_issueAs (fun a r h => (current.current a r h).1) _ _

theorem oneEach_issueAsReceiver (current : Dissemination.Current config.members p.node)
    (senderAddr : Address) (senderIncarnationNumber senderChecksum : Option ℤ) :
    OneEach
      (p.issueAsReceiver config senderAddr senderIncarnationNumber senderChecksum).2.1 := by
  simp only [issueAsReceiver, Dissemination.issueAsReceiver]
  split
  · exact oneEach_whole current
  · exact oneEach_issueAs (fun a r h => (current.current a r h).1) _ _

theorem oneEach_sendJoin (config : PeerConfig) (p : Peer) (target : Address) :
    ∀ e ∈ [p.sendJoin config target], e.OneEach :=
  List.forall_mem_singleton.mpr oneEach_nil

theorem oneEach_handlePing (current : Dissemination.Current config.members p.node)
    (request : Envelope) (body : PingBody) (tick : ℕ → Tick) :
    ∀ e ∈ reply request .pingAnswer (p.handlePing config (some body) tick).2.1 ++
      (p.handlePing config (some body) tick).2.2, e.OneEach := by
  unfold handlePing
  split
  case h_1 => exact List.forall_mem_nil _
  case h_2 source changes checksum sourceIncarnationNumber _ =>
    have updated : Dissemination.Current config.members (p.update config changes tick).node :=
      current.apply (.update (timed tick changes))
    have answer : ∀ e ∈ reply request .pingAnswer (.ok ((p.update config changes
        tick).issueAsReceiver config source sourceIncarnationNumber checksum).2.1), e.OneEach :=
      List.forall_mem_singleton.mpr (oneEach_issueAsReceiver updated _ _ _)
    simp only
    split
    · refine List.forall_mem_append.mpr ⟨answer, ?_⟩
      unfold tryStartReverseFullSync
      split
      · exact List.forall_mem_nil _
      · exact oneEach_sendJoin config _ source
    · exact List.forall_mem_append.mpr ⟨answer, List.forall_mem_nil _⟩

theorem oneEach_processHeal (current : Dissemination.Current config.members p.node)
    {membershipB : List Update} (each : OneEach membershipB) (tick : ℕ → Tick) :
    ∀ changes, (p.processHeal config membershipB tick).2 = some changes → OneEach changes := by
  intro changes h
  simp only [processHeal] at h
  split at h
  case isTrue =>
    obtain ⟨-, same⟩ := Option.ite_none_right_eq_some.mp h
    exact Option.some.inj same ▸ (oneEach_generateChanges _ each).2
  case isFalse =>
    obtain rfl := Option.some.inj h
    exact oneEach_whole (current.apply (.update (timed tick membershipB)))

/-- No message says two things of one member, if the messages that are answered do not. -/
theorem oneEach_step (current : Dissemination.Current config.members p.node) (logarithm : ℕ → ℕ)
    {event : PeerEvent} (each : ∀ e ∈ event.receives, e.OneEach) :
    ∀ e ∈ (p.step config logarithm event).2, e.OneEach := by
  cases event with
  | sendPing target => exact List.forall_mem_singleton.mpr (oneEach_handsOut current)
  | sendPingReq member target => exact List.forall_mem_singleton.mpr (oneEach_handsOut current)
  | sendJoin target => exact oneEach_sendJoin config p target
  | answerPingReq pending isOk =>
    simp only [step, answerPingReq]
    split
    · exact List.forall_mem_nil _
    · exact List.forall_mem_singleton.mpr (oneEach_issueAsReceiver
        (p := { p with pingReqs := p.pingReqs.eraseIdx pending }) current _ _ _)
  | receive envelope tick =>
    simp only [step, receive]
    split
    case h_1 body _ => exact oneEach_handlePing current envelope body tick
    case h_2 body _ =>
      unfold handlePingReq
      split
      case h_1 => exact List.forall_mem_nil _
      case h_2 pending changes _ =>
        have updated : Dissemination.Current config.members (p.update config changes tick).node :=
          current.apply (.update (timed tick changes))
        exact List.forall_mem_singleton.mpr (oneEach_handsOut
          (p := { p.update config changes tick with
            pingReqs := (p.update config changes tick).pingReqs ++ [pending] }) updated)
    case h_3 body _ =>
      cases ok : p.handleJoin config (some body) with
      | error error => exact List.forall_mem_nil _
      | ok answer =>
        refine List.forall_mem_singleton.mpr ?_
        rw [Envelope.OneEach, Message.updates, handleJoin_ok ok]
        exact oneEach_whole current
    all_goals exact List.forall_mem_nil _
  | heal answer tick =>
    simp only [step, heal]
    split
    case h_1 body message =>
      have brought := each answer List.mem_cons_self
      rw [Envelope.OneEach, message] at brought
      intro e he
      obtain ⟨changes, listed, rfl⟩ := List.mem_map.mp he
      exact oneEach_processHeal current brought tick changes (Option.mem_toList.mp listed)
    case h_2 => exact List.forall_mem_nil _
  | _ => exact List.forall_mem_nil _

end Peer
end Ringpop.Members
