import Ringpop.BootstrapMerge
import Ringpop.Runs

/-! Every sequence of operations of the member list: the array, the index and the
published checksum agree after each of them. -/
namespace Ringpop.Members
open JsString Dictionary GreatestWins

/-- The member list with the flag of its ringpop instance that it reads. -/
structure ListState where
  isReady : Bool
  membership : Membership

inductive Call where
  | setLocalStatus (status : Status) (tick : Tick)
  | update (changes : List (Update × Tick))
  | set
  | evict (address : Address)
  | shuffle (order : List ℕ)
  | ready

namespace Membership

/-- `_.shuffle`; `order` is the permutation that it picks. -/
def shuffle (m : Membership) (order : List ℕ) : Membership :=
  if order.Perm m.members then { m with members := order } else m

end Membership

namespace ListState

def new (env : Env) : ListState := ⟨false, .new env⟩

/-- Without a local member, `evict` and an `update` that takes a change read the address
of `null` and throw before anything is changed. -/
def call (env : Env) (s : ListState) : Call → ListState
  | .setLocalStatus status tick =>
    { s with membership := (s.membership.setLocalStatus env tick status).1 }
  | .update changes =>
    if s.isReady ∧ s.membership.localMember = none then s
    else { s with membership := (s.membership.update env s.isReady changes).1 }
  | .set => { s with membership := (s.membership.set env s.isReady).1 }
  | .evict address =>
    if s.membership.localMember = none then s
    else { s with membership := (s.membership.evict env address).1 }
  | .shuffle order => { s with membership := s.membership.shuffle order }
  | .ready => { s with isReady := true }

def run (env : Env) (calls : List Call) : ListState := calls.foldl (call env) (new env)

end ListState

namespace Membership
variable {env : Env} {m : Membership}

/-- A checksum that has been computed is the one of the current members. -/
def Fresh (env : Env) (m : Membership) : Prop :=
  ∀ checksum, m.checksum = some checksum → checksum = env.hashFunc m.generateChecksumString

theorem fresh_computeChecksum (env : Env) (m : Membership) :
    Fresh env (computeChecksum env m).1 := by
  intro checksum h
  exact (Option.some.inj h).symm

theorem fresh_setLocalStatus (env : Env) (m : Membership) (tick : Tick) (status : Status) :
    Fresh env (setLocalStatus env tick m status).1 := by
  unfold setLocalStatus
  split <;> exact fresh_computeChecksum env _

/-- A batch that reports no update has changed nothing. -/
theorem processChanges_idle (env : Env) (m : Membership) (changes : List (Update × Tick))
    (idle : (processChanges env m changes).2.1 = []) : (processChanges env m changes).1 = m := by
  induction changes generalizing m with
  | nil => rfl
  | cons change rest ih =>
    obtain ⟨change, tick⟩ := change
    cases h : m.takes change with
    | false =>
      rw [processChanges, processChange_skip h] at idle ⊢
      exact ih m idle
    | true =>
      obtain ⟨u, taken⟩ : ∃ u, (processChange env m change tick).2.1 = some u := by
        rw [processChange, shouldProcessGossip_takes, h, if_pos rfl]
        split <;> try split
        all_goals first | exact ⟨_, rfl⟩ | skip
        all_goals
          rw [processChange.applyOther]
          split <;> exact ⟨_, rfl⟩
      simp [processChanges, taken] at idle

theorem Fresh.update (fresh : Fresh env m) (isReady : Bool) (changes : List (Update × Tick)) :
    Fresh env (Membership.update env isReady m changes).1 := by
  cases isReady with
  | false =>
    rw [update_stash]
    exact fresh
  | true =>
    by_cases none : changes = []
    · subst none
      exact fresh
    · rw [update_ready env m none]
      simp only
      split
      case isTrue idle =>
        rw [processChanges_idle env m changes idle]
        exact fresh
      case isFalse => exact fresh_computeChecksum env _

theorem Fresh.set (fresh : Fresh env m) (isReady : Bool) :
    Fresh env (Membership.set env isReady m).1 := by
  unfold Membership.set
  split
  · exact fresh
  · split
    · exact fresh
    · exact fresh
    · exact fresh_computeChecksum env _

theorem Fresh.evict (fresh : Fresh env m) (address : Address) :
    Fresh env (Membership.evict env m address).1 := by
  unfold Membership.evict Membership.removeMember
  split
  · exact fresh
  · split
    · exact fresh
    · exact fresh_computeChecksum env _

theorem stashedUpdates_setLocalStatus (env : Env) (m : Membership) (tick : Tick)
    (status : Status) : (setLocalStatus env tick m status).1.stashedUpdates = m.stashedUpdates := by
  unfold setLocalStatus
  split <;> rfl

theorem stashedUpdates_evict (env : Env) (m : Membership) (address : Address) :
    (Membership.evict env m address).1.stashedUpdates = m.stashedUpdates := by
  unfold Membership.evict Membership.removeMember
  split
  · rfl
  · split <;> rfl

theorem evict_whoami (w : WellFormed env m) {ref : ℕ} (known : m.localMember = some ref) :
    Membership.evict env m env.whoami = (m, []) := by
  have address : m.localAddress = some env.whoami := by
    simp [localAddress, known, w.local_address known]
  rw [Membership.evict, if_pos address]

theorem view_shuffle (m : Membership) (order : List ℕ) (a : Address) :
    (m.shuffle order).view a = m.view a := by
  unfold shuffle
  split <;> rfl

theorem localMember_shuffle (m : Membership) (order : List ℕ) :
    (m.shuffle order).localMember = m.localMember := by
  unfold shuffle
  split <;> rfl

theorem Indexed.shuffle (w : Indexed m) (order : List ℕ) : Indexed (m.shuffle order) := by
  unfold Membership.shuffle
  split
  case isFalse => exact w
  case isTrue perm =>
    refine ⟨fun r h => w.fresh r (perm.mem_iff.mp h), perm.nodup_iff.mpr w.nodup, fun a r => ?_⟩
    rw [w.index]
    exact and_congr_left' perm.mem_iff.symm

theorem WellFormed.shuffle (w : WellFormed env m) (order : List ℕ) :
    WellFormed env (m.shuffle order) := by
  refine ⟨w.toIndexed.shuffle order, ?_⟩
  unfold Membership.shuffle
  split <;> exact w.self

theorem members_shuffle (m : Membership) (order : List ℕ) :
    (m.shuffle order).members.Perm m.members := by
  unfold shuffle
  split
  case isFalse => exact .refl _
  case isTrue perm => exact perm

theorem heap_shuffle (m : Membership) (order : List ℕ) : (m.shuffle order).heap = m.heap := by
  unfold shuffle
  split <;> rfl

theorem Fresh.shuffle (fresh : Fresh env m) (w : WellFormed env m) (order : List ℕ) :
    Fresh env (m.shuffle order) := by
  have same : (m.shuffle order).generateChecksumString = m.generateChecksumString :=
    generateChecksumString_congr (w.shuffle order).toIndexed w.toIndexed fun a s _ => by
      rw [view_shuffle]
  have checksum : (m.shuffle order).checksum = m.checksum := by
    unfold Membership.shuffle
    split <;> rfl
  intro value h
  rw [same]
  exact fresh value (checksum ▸ h)

end Membership

namespace ListState
variable {env : Env} {s : ListState}

/-- What holds between two calls. -/
structure Sound (env : Env) (s : ListState) : Prop where
  wellFormed : s.membership.WellFormed env
  fresh : s.membership.Fresh env
  /-- `set` finds no other member -/
  stashing : s.isReady = false → s.membership.stashedUpdates ≠ none →
    ∀ a ≠ env.whoami, s.membership.view a = none

theorem sound_new (env : Env) : Sound env (new env) where
  wellFormed := Membership.wellFormed_new env
  fresh _ h := by cases h
  stashing _ _ _ _ := rfl

/-- A call keeps the invariant, and the local member stays the one that it is. -/
structure Kept (env : Env) (s s' : ListState) : Prop where
  sound : Sound env s'
  localMember : ∀ ref, s.membership.localMember = some ref → s'.membership.localMember = some ref

theorem Sound.kept (sound : Sound env s) : Kept env s s := ⟨sound, fun _ known => known⟩

theorem Sound.setLocalStatus (sound : Sound env s) (status : Status) (tick : Tick) :
    Kept env s (s.call env (.setLocalStatus status tick)) := by
  obtain ⟨w, known, view, -⟩ := sound.wellFormed.setLocalStatus tick status
  refine ⟨⟨w, Membership.fresh_setLocalStatus env _ tick status, fun joining stash a ha => ?_⟩,
    fun ref h => ?_⟩
  · have stash' : s.membership.stashedUpdates ≠ none :=
      Membership.stashedUpdates_setLocalStatus env s.membership tick status ▸ stash
    exact (view a).trans ((if_neg ha).trans (sound.stashing joining stash' a ha))
  · rw [Membership.localRef, h] at known
    exact known

theorem Sound.update (sound : Sound env s) (changes : List (Update × Tick)) :
    Kept env s (s.call env (.update changes)) := by
  obtain ⟨isReady, m⟩ := s
  have fresh := sound.fresh.update isReady changes
  rw [call]
  split
  case isTrue => exact sound.kept
  case isFalse runs =>
    cases isReady with
    | false =>
      rw [Membership.update_stash] at fresh ⊢
      refine ⟨⟨⟨⟨sound.wellFormed.fresh, sound.wellFormed.nodup, sound.wellFormed.index⟩,
        sound.wellFormed.self⟩, fresh, fun _ stash => ?_⟩, fun _ known => known⟩
      exact sound.stashing rfl fun missing => stash (Option.map_eq_none_iff.mpr missing)
    | true =>
      obtain ⟨ref, known⟩ := Option.ne_none_iff_exists'.mp fun none => runs ⟨rfl, none⟩
      obtain ⟨applied, -⟩ := sound.wellFormed.update known changes
      refine ⟨⟨applied.wellFormed, fresh, nofun⟩, fun other h => ?_⟩
      exact applied.localMember.trans (known.symm.trans h)

theorem Sound.set (sound : Sound env s) : Kept env s (s.call env .set) := by
  obtain ⟨isReady, m⟩ := s
  have fresh := sound.fresh.set isReady
  rw [call]
  cases isReady with
  | true => exact sound.kept
  | false =>
    rcases stash : m.stashedUpdates with _ | _ | ⟨first, rest⟩
    case none =>
      have idle : m.set env false = (m, []) := by simp [Membership.set, stash]
      rw [idle]
      exact sound.kept
    case some.nil =>
      have idle : m.set env false = (m, []) := by simp [Membership.set, stash]
      rw [idle]
      exact sound.kept
    case some.cons =>
      have unknown := sound.stashing rfl (by simp [stash])
      obtain ⟨w, known, -, stashed, -⟩ :=
        sound.wellFormed.set (List.cons_ne_nil first rest) stash unknown
      exact ⟨⟨w, fresh, fun _ kept => absurd stashed kept⟩, fun ref h => known.trans h⟩

theorem Sound.evict (sound : Sound env s) (address : Address) :
    Kept env s (s.call env (.evict address)) := by
  have fresh := sound.fresh.evict address
  rw [call]
  cases known : s.membership.localMember with
  | none => exact sound.kept
  | some ref =>
    rw [if_neg (Option.some_ne_none ref)]
    by_cases self : address = env.whoami
    · rw [self, Membership.evict_whoami sound.wellFormed known]
      exact sound.kept
    · obtain ⟨w, known', view, -⟩ := sound.wellFormed.evict known self
      refine ⟨⟨w, fresh, fun joining stash a ha => ?_⟩, fun other h => ?_⟩
      · have stash' : s.membership.stashedUpdates ≠ none :=
          Membership.stashedUpdates_evict env s.membership address ▸ stash
        rw [view]
        split
        · rfl
        · exact sound.stashing joining stash' a ha
      · exact known'.trans (known.symm.trans h)

theorem Sound.shuffle (sound : Sound env s) (order : List ℕ) :
    Kept env s (s.call env (.shuffle order)) where
  sound :=
    { wellFormed := sound.wellFormed.shuffle order
      fresh := sound.fresh.shuffle sound.wellFormed order
      stashing := fun joining stash a ha => by
        have stash' : s.membership.stashedUpdates ≠ none := by
          simp only [call, Membership.shuffle] at stash
          split at stash <;> exact stash
        exact (Membership.view_shuffle _ _ a).trans (sound.stashing joining stash' a ha) }
  localMember ref known := by
    simp only [call, Membership.shuffle]
    split <;> exact known

theorem Sound.call (sound : Sound env s) (c : Call) : Kept env s (s.call env c) := by
  cases c with
  | setLocalStatus status tick => exact sound.setLocalStatus status tick
  | update changes => exact sound.update changes
  | set => exact sound.set
  | evict address => exact sound.evict address
  | shuffle order => exact sound.shuffle order
  | ready =>
    refine ⟨⟨sound.wellFormed, sound.fresh, fun joining => ?_⟩, fun _ known => known⟩
    cases joining

theorem sound_run (env : Env) (calls : List Call) : Sound env (run env calls) :=
  Runs.foldl_invariant (call env) (Sound env) (fun _ c sound => (sound.call c).sound)
    (sound_new env) calls

theorem Sound.localMember_stays (sound : Sound env s) (calls : List Call) {ref : ℕ}
    (known : s.membership.localMember = some ref) :
    (calls.foldl (ListState.call env) s).membership.localMember = some ref := by
  induction calls generalizing s with
  | nil => exact known
  | cons c calls ih =>
    have kept := sound.call c
    exact ih kept.sound (kept.localMember ref known)

theorem run_index (env : Env) (calls : List Call) :
    let m := (run env calls).membership
    (m.members.map fun r => (m.heap r).address).Nodup ∧
      (∀ a r, m.membersByAddress.get a = some r ↔ r ∈ m.members ∧ (m.heap r).address = a) ∧
      (∀ earlier ref, earlier <+: calls →
        (run env earlier).membership.localMember = some ref →
          m.localMember = some ref ∧ ref ∈ m.members ∧
            m.membersByAddress.get env.whoami = some ref) ∧
      ∀ checksum, m.checksum = some checksum →
        checksum = env.hashFunc m.generateChecksumString := by
  have sound := sound_run env calls
  refine ⟨?_, sound.wellFormed.index, fun earlier ref upTo known => ?_, sound.fresh⟩
  · refine sound.wellFormed.nodup.map_on fun r hr r' hr' same => ?_
    have first := (sound.wellFormed.index _ r).mpr ⟨hr, same⟩
    have second := (sound.wellFormed.index _ r').mpr ⟨hr', rfl⟩
    exact Option.some.inj (first.symm.trans second)
  · obtain ⟨later, rfl⟩ := upTo
    have stays := (sound_run env earlier).localMember_stays later known
    rw [run, ← List.foldl_append] at stays
    have indexed := sound.wellFormed.self.trans stays
    exact ⟨stays, ((sound.wellFormed.index _ ref).mp indexed).1, indexed⟩

end ListState
end Ringpop.Members
