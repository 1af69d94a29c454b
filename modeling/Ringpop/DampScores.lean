import Ringpop.MembershipIndex
import Ringpop.NodeReports

/-! Damp scores under the operations of a member list. The two damping events tell who is
flapping, as long as the members they are about stay in the list. -/
namespace Ringpop.Members
open JsString Dictionary

/-- A flapper is a remote member above the reuse limit. That there is one tells something
of the configuration as well. -/
structure Flapping (env : Env) (a : Address) (dampScore : Option ℤ) : Prop where
  remote : a ≠ env.whoami
  penalty : 0 < env.config.dampScoringPenalty
  limit : env.config.dampScoringSuppressLimit ≤ env.config.dampScoringMax
  score : ∃ score, dampScore = some score ∧ env.config.dampScoringReuseLimit < score

/-- Whether `a` counts as a flapper after an event. -/
def flag (a : Address) (flapper : Bool) : MembershipEvent → Bool
  | .memberSuppressLimitExceeded b => flapper || decide (b = a)
  | .memberReusable b _ => flapper && !decide (b = a)
  | _ => flapper

/-- Events that keep account of whether `a` is flapping. -/
def Followed (env : Env) (a : Address) (before : Option ℤ) (events : List MembershipEvent)
    (after : Option ℤ) : Prop :=
  ∀ flapper, (flapper = true → Flapping env a before) →
    events.foldl (flag a) flapper = true → Flapping env a after

variable {env : Env} {a : Address}

theorem Flapping.above {score : ℤ} (h : Flapping env a (some score)) :
    env.config.dampScoringReuseLimit < score := by
  obtain ⟨_, same, above⟩ := h.score
  exact Option.some.inj same ▸ above

theorem flag_quiet {events : List MembershipEvent} (quiet : ∀ e ∈ events, e.isDamping = false)
    (flapper : Bool) : events.foldl (flag a) flapper = flapper := by
  induction events generalizing flapper with
  | nil => rfl
  | cons e events ih =>
    obtain ⟨first, rest⟩ := List.forall_mem_cons.mp quiet
    rw [List.foldl_cons, ih rest]
    cases e <;> first | rfl | cases first

theorem Followed.trans {before middle after : Option ℤ} {first second : List MembershipEvent}
    (h : Followed env a before first middle) (h' : Followed env a middle second after) :
    Followed env a before (first ++ second) after := by
  intro flapper start finish
  rw [List.foldl_append] at finish
  exact h' _ (h flapper start) finish

theorem followed_silent {before after : Option ℤ} {events : List MembershipEvent}
    (silent : ∀ flapper, events.foldl (flag a) flapper = flapper)
    (keeps : Flapping env a before → Flapping env a after) :
    Followed env a before events after := by
  intro flapper start finish
  rw [silent] at finish
  exact keeps (start finish)

theorem followed_quiet {before after : Option ℤ} {events : List MembershipEvent}
    (quiet : ∀ e ∈ events, e.isDamping = false) (same : a ≠ env.whoami → after = before) :
    Followed env a before events after :=
  followed_silent (flag_quiet quiet) fun flapping => same flapping.remote ▸ flapping

theorem followed_refl (score : Option ℤ) : Followed env a score [] score :=
  followed_quiet (List.forall_mem_nil _) fun _ => rfl

/-- Nobody takes an unknown member for a flapper. -/
theorem followed_unknown {after : Option ℤ} {events : List MembershipEvent}
    (quiet : ∀ e ∈ events, e.isDamping = false) : Followed env a none events after :=
  followed_silent (flag_quiet quiet) fun flapping => by
    obtain ⟨_, known, -⟩ := flapping.score
    cases known

namespace Member

theorem followed_decayDampScore (now : ℤ) (m : Member) :
    Followed env m.address (some m.dampScore) (m.decayDampScore env now).2
      (some (m.decayDampScore env now).1.dampScore) := by
  intro flapper start finish
  simp only [decayDampScore] at finish ⊢
  split at finish
  case isTrue => simp [flag] at finish
  case isFalse fell =>
    have flapping := start finish
    exact ⟨flapping.remote, flapping.penalty, flapping.limit, _, rfl,
      lt_of_not_ge fun below => fell ⟨flapping.above, below⟩⟩

/-- A penalty keeps a flapper above the reuse limit, and makes one of a member that
crosses the suppress limit. -/
theorem followed_penalty
    (low : env.config.dampScoringReuseLimit < env.config.dampScoringSuppressLimit)
    (remote : a ≠ env.whoami) (score : ℤ) :
    let raised := min (score + env.config.dampScoringPenalty) env.config.dampScoringMax
    Followed env a (some score)
      (if score < env.config.dampScoringSuppressLimit ∧
          raised ≥ env.config.dampScoringSuppressLimit then
        [.memberSuppressLimitExceeded a]
      else []) (some raised) := by
  intro raised flapper start finish
  split at finish
  case isTrue crossed =>
    obtain ⟨below, above⟩ := crossed
    obtain ⟨penalized, limit⟩ := le_min_iff.mp above
    exact ⟨remote, by omega, limit, _, rfl, low.trans_le above⟩
  case isFalse =>
    have flapping := start finish
    have penalty := flapping.penalty
    have above := flapping.above
    exact ⟨remote, penalty, flapping.limit, _, rfl,
      lt_min (by omega) (low.trans_le flapping.limit)⟩

theorem followed_applyUpdatePenalty
    (low : env.config.dampScoringReuseLimit < env.config.dampScoringSuppressLimit) (now : ℤ)
    {m : Member} (remote : m.address ≠ env.whoami) :
    Followed env m.address (some m.dampScore) (m.applyUpdatePenalty env now).2
      (some (m.applyUpdatePenalty env now).1.dampScore) :=
  (followed_decayDampScore now m).trans (followed_penalty low remote _)

theorem followed_applyUpdate
    (low : env.config.dampScoringReuseLimit < env.config.dampScoringSuppressLimit) (now : ℤ)
    {m : Member} (update : Update) (remote : m.address ≠ env.whoami) :
    Followed env m.address (some m.dampScore) (m.applyUpdate env now update).2
      (some (m.applyUpdate env now update).1.dampScore) := by
  by_cases penalized : env.config.dampScoringEnabled ∧ update.address ≠ env.whoami
  · rw [applyUpdate, if_pos penalized]
    exact followed_applyUpdatePenalty low now (m := { m with
      status := update.status, incarnationNumber := update.incarnationNumber }) remote
  · rw [applyUpdate, if_neg penalized]
    exact followed_refl _

theorem flag_decayDampScore (now : ℤ) {m : Member} (other : a ≠ m.address) (flapper : Bool) :
    (m.decayDampScore env now).2.foldl (flag a) flapper = flapper := by
  simp only [decayDampScore]
  split <;> simp [flag, other.symm]

theorem flag_applyUpdatePenalty (now : ℤ) {m : Member} (other : a ≠ m.address) (flapper : Bool) :
    (m.applyUpdatePenalty env now).2.foldl (flag a) flapper = flapper := by
  simp only [applyUpdatePenalty, List.foldl_append, flag_decayDampScore now other]
  split <;> simp [flag, decayDampScore, other.symm]

theorem flag_applyUpdate (now : ℤ) {m : Member} (update : Update) (other : a ≠ m.address)
    (flapper : Bool) : (m.applyUpdate env now update).2.foldl (flag a) flapper = flapper := by
  by_cases penalized : env.config.dampScoringEnabled ∧ update.address ≠ env.whoami
  · rw [applyUpdate, if_pos penalized]
    exact flag_applyUpdatePenalty now (m := { m with
      status := update.status, incarnationNumber := update.incarnationNumber }) other flapper
  · rw [applyUpdate, if_neg penalized]
    rfl

end Member

namespace Membership
variable {m : Membership}

def dampScore (m : Membership) (a : Address) : Option ℤ :=
  (m.findMemberByAddress a).map Member.dampScore

theorem Indexed.dampScore_write (w : m.Indexed) {b : Address} {ref : ℕ} (member : Member)
    (h : m.membersByAddress.get b = some ref) (a : Address) :
    (m.write ref member).dampScore a = if a = b then some member.dampScore else m.dampScore a := by
  rw [dampScore, w.find_write member h]
  split <;> rfl

theorem Indexed.dampScore_insertMember (w : m.Indexed) (position : ℕ) (member : Member)
    (a : Address) : (m.insertMember position member).dampScore a =
      if a = member.address then some member.dampScore else m.dampScore a := by
  rw [dampScore, w.find_insertMember]
  split <;> rfl

/-- An operation on one member is followed in the list when the member follows it. -/
theorem Indexed.followed_write (w : m.Indexed) {ref : ℕ} {result : Member × List MembershipEvent}
    (h : m.membersByAddress.get (m.heap ref).address = some ref)
    (follows : Followed env (m.heap ref).address (some (m.heap ref).dampScore) result.2
      (some result.1.dampScore))
    (silent : ∀ a ≠ (m.heap ref).address, ∀ flapper,
      result.2.foldl (flag a) flapper = flapper) (a : Address) :
    Followed env a (m.dampScore a) result.2 ((m.write ref result.1).dampScore a) := by
  rw [w.dampScore_write result.1 h]
  split
  case isTrue same =>
    have score : m.dampScore a = some (m.heap ref).dampScore := by
      rw [same, dampScore, findMemberByAddress, h]
      rfl
    rwa [score, same]
  case isFalse other => exact followed_silent (silent a other) id

theorem WellFormed.dampScore_reincarnate (w : WellFormed env m) {ref : ℕ}
    (known : m.localMember = some ref) (tick : Tick) (remote : a ≠ env.whoami) :
    (Membership.reincarnate tick m ref).1.dampScore a = m.dampScore a := by
  rw [Membership.reincarnate, w.dampScore_write _ (w.self.trans known), if_neg remote]

theorem WellFormed.followed_processChange (w : WellFormed env m)
    (low : env.config.dampScoringReuseLimit < env.config.dampScoringSuppressLimit) {ref : ℕ}
    (known : m.localMember = some ref) (change : Update) (tick : Tick) (a : Address) :
    Followed env a (m.dampScore a) (processChange env m change tick).2.2
      ((processChange env m change tick).1.dampScore a) := by
  rw [processChange]
  split
  case isFalse => exact followed_refl _
  case isTrue =>
    simp only [known]
    split
    case isTrue =>
      exact followed_quiet (List.forall_mem_nil _) (w.dampScore_reincarnate known tick)
    case isFalse other =>
      rw [processChange.applyOther]
      cases found : m.membersByAddress.get change.address with
      | none =>
        simp only
        rw [w.dampScore_insertMember]
        split
        case isTrue same =>
          have unknown : m.dampScore a = none := by
            rw [dampScore, findMemberByAddress, same, Member.address_ofUpdate, found]
            rfl
          rw [unknown]
          exact followed_unknown (List.forall_mem_nil _)
        case isFalse => exact followed_refl _
      | some r =>
        have address := w.address found
        have remote : (m.heap r).address ≠ env.whoami := by
          rw [address, ← w.local_address known]
          exact other
        exact w.followed_write (address.symm ▸ found)
          (Member.followed_applyUpdate low tick.now change remote)
          (fun a other => Member.flag_applyUpdate tick.now change other) a

theorem WellFormed.followed_processChanges (w : WellFormed env m)
    (low : env.config.dampScoringReuseLimit < env.config.dampScoringSuppressLimit) {ref : ℕ}
    (known : m.localMember = some ref) (changes : List (Update × Tick)) (a : Address) :
    Followed env a (m.dampScore a) (processChanges env m changes).2.2
      ((processChanges env m changes).1.dampScore a) := by
  induction changes generalizing m with
  | nil => exact followed_refl _
  | cons change rest ih =>
    obtain ⟨change, tick⟩ := change
    have one := (processChanges_applied w known [(change, tick)]).1
    have here : (processChanges env m [(change, tick)]).1 = (processChange env m change tick).1 :=
      rfl
    rw [here] at one
    exact (w.followed_processChange low known change tick a).trans
      (ih one.wellFormed one.localMember)

theorem WellFormed.followed_update (w : WellFormed env m)
    (low : env.config.dampScoringReuseLimit < env.config.dampScoringSuppressLimit) {ref : ℕ}
    (known : m.localMember = some ref) (changes : List (Update × Tick)) (a : Address) :
    Followed env a (m.dampScore a) (Membership.update env true m changes).2.2
      ((Membership.update env true m changes).1.dampScore a) := by
  by_cases none : changes = []
  · subst none
    exact followed_refl _
  · have follows := w.followed_processChanges low known changes a
    rw [update_ready env m none]
    simp only
    split
    case isTrue => exact follows
    case isFalse =>
      rw [List.append_assoc]
      refine follows.trans (followed_quiet ?_ fun _ => rfl)
      simp [Membership.computeChecksum, MembershipEvent.isDamping]

theorem WellFormed.followed_setLocalStatus (w : WellFormed env m) (tick : Tick) (status : Status)
    (a : Address) :
    Followed env a (m.dampScore a) (Membership.setLocalStatus env tick m status).2
      ((Membership.setLocalStatus env tick m status).1.dampScore a) := by
  refine followed_quiet ?_ fun remote => ?_
  · obtain ⟨-, -, -, u, checksum, old, -, -, events⟩ := w.setLocalStatus tick status
    rw [events, leaving]
    cases m.localMember with
    | none => simp [MembershipEvent.isDamping]
    | some ref => by_cases leave : status = .leave <;> simp [leave, MembershipEvent.isDamping]
  · cases known : m.localMember with
    | some ref =>
      have step := w.rewritten_write { m.heap ref with status := status } (w.self.trans known)
        (w.local_address known)
      simp only [Membership.setLocalStatus, known]
      refine (step.wellFormed.dampScore_reincarnate (step.localMember.trans known) tick
        remote).trans ?_
      rw [w.dampScore_write _ (w.self.trans known), if_neg remote]
    | none =>
      let member := Member.ofUpdate env ⟨env.whoami, status, tick.now, some tick.uuid, none, none⟩
      have made := w.localMember_made known member rfl
      simp only [Membership.setLocalStatus, known]
      refine (made.dampScore_reincarnate rfl tick remote).trans ?_
      exact (w.dampScore_insertMember m.members.length member a).trans (if_neg remote)

theorem dampScore_evict (m : Membership) {a b : Address} (other : a ≠ b) :
    (m.evict env b).1.dampScore a = m.dampScore a := by
  rw [Membership.evict]
  split
  case isTrue => rfl
  case isFalse =>
    rw [removeMember]
    cases m.membersByAddress.get b with
    | none => rfl
    | some r =>
      simp only [dampScore, findMemberByAddress, Membership.computeChecksum, Dict.get_delete,
        if_neg other]

theorem dampScore_shuffle (m : Membership) (order : List ℕ) (a : Address) :
    (m.shuffle order).dampScore a = m.dampScore a := by
  unfold shuffle
  split <;> rfl

/-- The loop of `_decayMembersDampScore`; each pass reads the clock. -/
def decayMembers (env : Env) (clock : ℕ → ℤ) (m : Membership) :
    List ℕ → Membership × List MembershipEvent
  | [] => (m, [])
  | ref :: rest =>
    let (member, events) := (m.heap ref).decayDampScore env (clock ref)
    let (m, more) := decayMembers env clock (m.write ref member) rest
    (m, events ++ more)

def decayMembersDampScore (env : Env) (clock : ℕ → ℤ) (m : Membership) :
    Membership × List MembershipEvent :=
  decayMembers env clock m m.members

/-- A list in which nothing but damp scores has changed. -/
structure Decayed (env : Env) (m : Membership) (result : Membership × List MembershipEvent) :
    Prop where
  wellFormed : WellFormed env result.1
  localMember : result.1.localMember = m.localMember
  view : ∀ a, result.1.view a = m.view a
  follows : ∀ a, Followed env a (m.dampScore a) result.2 (result.1.dampScore a)

theorem WellFormed.decayMembers (w : WellFormed env m) (clock : ℕ → ℤ) {refs : List ℕ}
    (listed : ∀ ref ∈ refs, ref ∈ m.members) : Decayed env m (m.decayMembers env clock refs) := by
  induction refs generalizing m with
  | nil => exact ⟨w, rfl, fun _ => rfl, fun a => followed_refl _⟩
  | cons ref rest ih =>
    obtain ⟨here, later⟩ := List.forall_mem_cons.mp listed
    have found : m.membersByAddress.get (m.heap ref).address = some ref :=
      (w.index _ _).mpr ⟨here, rfl⟩
    have step := w.rewritten_write ((m.heap ref).decayDampScore env (clock ref)).1 found rfl
    have rest := ih step.wellFormed later
    refine ⟨rest.wellFormed, rest.localMember, fun a => ?_, fun a => ?_⟩
    · refine (rest.view a).trans ((step.view a).trans ?_)
      split
      case isTrue same => exact (same ▸ view_of_get found).symm
      case isFalse => rfl
    · exact (w.followed_write found (Member.followed_decayDampScore _ _)
        (fun a other => Member.flag_decayDampScore _ other) a).trans (rest.follows a)

end Membership
end Ringpop.Members
