import Ringpop.Membership

/-! A member list as a map from addresses to standings. Every operation keeps the
array, the index and the heap in agreement, and is described by its effect on the map. -/
namespace Ringpop.Members
open JsString Dictionary GreatestWins

namespace Membership

/-- The array and the index hold the same objects, each under its own address. -/
structure Indexed (m : Membership) : Prop where
  fresh : ∀ r ∈ m.members, r < m.next
  nodup : m.members.Nodup
  index : ∀ a r, m.membersByAddress.get a = some r ↔ r ∈ m.members ∧ (m.heap r).address = a

structure WellFormed (env : Env) (m : Membership) : Prop extends Indexed m where
  self : m.membersByAddress.get env.whoami = m.localMember

def view (m : Membership) (a : Address) : Option Standing :=
  (m.findMemberByAddress a).map Member.standing

variable {env : Env} {m : Membership}

theorem view_of_get {a : Address} {r : ℕ} (h : m.membersByAddress.get a = some r) :
    m.view a = some (m.heap r).standing := by
  simp [view, findMemberByAddress, h]

theorem view_eq_none {a : Address} : m.view a = none ↔ m.membersByAddress.get a = none := by
  simp [view, findMemberByAddress]

theorem wellFormed_new (env : Env) : WellFormed env (new env) where
  fresh r h := by simp [new] at h
  nodup := List.nodup_nil
  index a r := by simp [new]
  self := rfl

theorem Indexed.address (w : m.Indexed) {a : Address} {r : ℕ}
    (h : m.membersByAddress.get a = some r) : (m.heap r).address = a :=
  ((w.index a r).mp h).2

theorem Indexed.write (w : m.Indexed) {r : ℕ} {member : Member}
    (same : member.address = (m.heap r).address) : (m.write r member).Indexed where
  fresh := w.fresh
  nodup := w.nodup
  index a r' := by
    have address : (Function.update m.heap r member r').address = (m.heap r').address := by
      by_cases h : r' = r
      · subst h
        rw [Function.update_self, same]
      · rw [Function.update_of_ne h]
    simp only [Membership.write, address]
    exact w.index a r'

theorem Indexed.find_write (w : m.Indexed) {a : Address} {r : ℕ} (member : Member)
    (h : m.membersByAddress.get a = some r) (b : Address) :
    (m.write r member).findMemberByAddress b =
      if b = a then some member else m.findMemberByAddress b := by
  simp only [findMemberByAddress, Membership.write]
  by_cases same : b = a
  · subst same
    simp [h]
  · cases other : m.membersByAddress.get b with
    | none => simp [same]
    | some r' =>
      have differs : r' ≠ r := by
        rintro rfl
        exact same ((w.address other).symm.trans (w.address h))
      simp [same, Function.update_of_ne differs]

theorem Indexed.view_write (w : m.Indexed) {a : Address} {r : ℕ} {member : Member}
    (h : m.membersByAddress.get a = some r) (b : Address) :
    (m.write r member).view b = if b = a then some member.standing else m.view b := by
  rw [view, w.find_write member h]
  split <;> rfl

theorem Indexed.unused (w : m.Indexed) {r : ℕ} (h : r ∈ m.members) : r ≠ m.next :=
  (w.fresh r h).ne

theorem Indexed.insertMember (w : m.Indexed) {position : ℕ} {member : Member}
    (inside : position ≤ m.members.length)
    (new : m.membersByAddress.get member.address = none) :
    (m.insertMember position member).Indexed where
  fresh r h := by
    simp only [Membership.insertMember, List.mem_insertIdx inside] at h ⊢
    rcases h with rfl | h
    · omega
    · have := w.fresh r h
      omega
  nodup := by
    have absent : m.next ∉ m.members := fun h => (w.fresh _ h).false
    simp only [Membership.insertMember]
    exact (List.perm_insertIdx _ _ inside).nodup_iff.mpr (List.nodup_cons.mpr ⟨absent, w.nodup⟩)
  index a r := by
    simp only [Membership.insertMember, Dict.get_set, List.mem_insertIdx inside]
    by_cases isNew : r = m.next
    · subst isNew
      simp only [Function.update_self, true_or, true_and]
      by_cases same : a = member.address
      · simp [same]
      · simp only [same, if_false, eq_comm (a := member.address), iff_false]
        intro h
        exact w.unused ((w.index a _).mp h).1 rfl
    · simp only [Function.update_of_ne isNew, isNew, false_or]
      by_cases same : a = member.address
      · subst same
        simp only [if_true, Option.some.injEq, eq_comm (a := m.next), isNew, false_iff]
        intro h
        rw [(w.index _ _).mpr h] at new
        cases new
      · simp only [same, if_false]
        exact w.index a r

theorem Indexed.find_insertMember (w : m.Indexed) (position : ℕ) (member : Member) (b : Address) :
    (m.insertMember position member).findMemberByAddress b =
      if b = member.address then some member else m.findMemberByAddress b := by
  simp only [findMemberByAddress, Membership.insertMember, Dict.get_set]
  by_cases same : b = member.address
  · simp [same]
  · cases other : m.membersByAddress.get b with
    | none => simp [same]
    | some r =>
      have old := w.unused ((w.index b r).mp other).1
      simp [same, Function.update_of_ne old]

theorem Indexed.view_insertMember (w : m.Indexed) (position : ℕ) (member : Member) (b : Address) :
    (m.insertMember position member).view b =
      if b = member.address then some member.standing else m.view b := by
  rw [view, w.find_insertMember]
  split <;> rfl

theorem Indexed.delete (w : m.Indexed) {a : Address} {r : ℕ}
    (h : m.membersByAddress.get a = some r) :
    Indexed { m with
      membersByAddress := m.membersByAddress.delete a
      members := m.members.filter (· ≠ r) } where
  fresh r' h' := w.fresh r' (List.mem_of_mem_filter h')
  nodup := w.nodup.filter _
  index b r' := by
    simp only [Dict.get_delete, List.mem_filter, decide_eq_true_eq, ne_eq]
    by_cases same : b = a
    · subst same
      simp only [if_true, false_iff, reduceCtorEq]
      rintro ⟨⟨h', differs⟩, address⟩
      have := (w.index b r').mpr ⟨h', address⟩
      exact differs (Option.some.inj (this.symm.trans h))
    · have differs (hb : (m.heap r').address = b) : r' ≠ r := by
        rintro rfl
        exact same (hb.symm.trans (w.address h))
      simp only [same, if_false, w.index]
      constructor
      · intro here
        exact ⟨⟨here.1, differs here.2⟩, here.2⟩
      · intro here
        exact ⟨here.1.1, here.2⟩

theorem getJoinPosition_le (tick : Tick) (m : Membership) :
    getJoinPosition tick m ≤ m.members.length := by
  unfold getJoinPosition
  split
  case isTrue => exact Nat.zero_le _
  case isFalse some => exact (Nat.mod_lt _ (Nat.pos_of_ne_zero some)).le

theorem WellFormed.local_address (w : WellFormed env m) {ref : ℕ}
    (known : m.localMember = some ref) : (m.heap ref).address = env.whoami :=
  w.address (w.self.trans known)

theorem WellFormed.computeChecksum (w : WellFormed env m) :
    WellFormed env (computeChecksum env m).1 where
  fresh := w.fresh
  nodup := w.nodup
  index := w.index
  self := w.self

@[simp] theorem view_computeChecksum (env : Env) (m : Membership) (a : Address) :
    (computeChecksum env m).1.view a = m.view a := rfl

/-- The local standing, for a list with a local member. -/
def localStanding (m : Membership) (ref : ℕ) : Standing := (m.heap ref).standing

theorem WellFormed.view_whoami (w : WellFormed env m) {ref : ℕ} (known : m.localMember = some ref) :
    m.view env.whoami = some (m.localStanding ref) :=
  view_of_get (w.self.trans known)

/-- A list that differs from `m` in the standing of one known member. -/
structure Rewritten (env : Env) (m m' : Membership) (a : Address) (s : Standing) : Prop where
  wellFormed : WellFormed env m'
  localMember : m'.localMember = m.localMember
  view : ∀ b, m'.view b = if b = a then some s else m.view b

theorem WellFormed.rewritten_write (w : WellFormed env m) (member : Member) {a : Address} {r : ℕ}
    (h : m.membersByAddress.get a = some r) (same : member.address = a) :
    Rewritten env m (m.write r member) a member.standing where
  wellFormed :=
    { toIndexed := w.toIndexed.write (same.trans (w.address h).symm)
      self := w.self }
  localMember := rfl
  view := w.view_write h

theorem WellFormed.rewritten_insertMember (w : WellFormed env m) (member : Member) {position : ℕ}
    (inside : position ≤ m.members.length)
    (new : m.membersByAddress.get member.address = none) (other : member.address ≠ env.whoami) :
    Rewritten env m (m.insertMember position member) member.address member.standing where
  wellFormed :=
    { toIndexed := w.toIndexed.insertMember inside new
      self := by
        simp only [insertMember, Dict.get_set, if_neg other.symm]
        exact w.self }
  localMember := rfl
  view := w.view_insertMember position member

theorem WellFormed.reincarnate (w : WellFormed env m) {ref : ℕ} (known : m.localMember = some ref)
    (tick : Tick) :
    Rewritten env m (reincarnate tick m ref).1 env.whoami ⟨tick.now, (m.localStanding ref).status⟩ ∧
      (reincarnate tick m ref).2.address = env.whoami ∧
      (reincarnate tick m ref).2.standing = ⟨tick.now, (m.localStanding ref).status⟩ := by
  have address := w.local_address known
  refine ⟨w.rewritten_write _ (w.self.trans known) address, ?_, ?_⟩
  · simpa [Membership.reincarnate, Update.new, write] using address
  · simp [Membership.reincarnate, Update.new, write, Update.standing, localStanding,
      Member.standing]

/-- Whether `update` would take the change. -/
def takes (m : Membership) (change : Update) : Bool :=
  admits refused (m.view change.address) change.standing

theorem shouldProcessGossip_takes (m : Membership) (change : Update) :
    shouldProcessGossip (m.findMemberByAddress change.address) change = m.takes change :=
  shouldProcessGossip_eq _ _

theorem processChange_skip {change : Update} {tick : Tick} (h : m.takes change = false) :
    processChange env m change tick = (m, none, []) := by
  rw [processChange, shouldProcessGossip_takes, h, if_neg Bool.false_ne_true]

theorem WellFormed.processChange_local (w : WellFormed env m) {ref : ℕ}
    (known : m.localMember = some ref) {change : Update} (tick : Tick)
    (h : m.takes change = true) (about : change.address = env.whoami) :
    processChange env m change tick =
      ((Membership.reincarnate tick m ref).1, some (Membership.reincarnate tick m ref).2, []) := by
  rw [processChange, shouldProcessGossip_takes, h, if_pos rfl, known]
  simp only
  rw [if_pos (about.trans (w.local_address known).symm)]

theorem WellFormed.processChange_other (w : WellFormed env m) {change : Update} (tick : Tick)
    (h : m.takes change = true) (about : change.address ≠ env.whoami) :
    ∃ m' events, processChange env m change tick = (m', some change, events) ∧
      Rewritten env m m' change.address change.standing ∧ ∀ e ∈ events, e.isDamping = true := by
  have direct : processChange env m change tick = processChange.applyOther env m change tick := by
    rw [processChange, shouldProcessGossip_takes, h, if_pos rfl]
    cases known : m.localMember with
    | none => rfl
    | some ref => exact if_neg fun same => about (same.trans (w.local_address known))
  rw [direct, processChange.applyOther]
  cases found : m.membersByAddress.get change.address with
  | none =>
    exact ⟨_, _, rfl, w.rewritten_insertMember _ (getJoinPosition_le tick m) found about, nofun⟩
  | some r =>
    refine ⟨_, _, rfl, ?_, Member.damping_applyUpdate env tick.now (m.heap r) change⟩
    have same : ((m.heap r).applyUpdate env tick.now change).1.address = change.address := by
      rw [Member.address_applyUpdate, w.address found]
    have rewritten := w.rewritten_write _ found same
    rwa [Member.standing_applyUpdate] at rewritten

end Membership
end Ringpop.Members
