import Ringpop.MembershipUpdate

/-! The member list of a ready node, bundled with its invariant, and what its
checksum string depends on. -/
namespace Ringpop.Members
open JsString Dictionary GreatestWins

namespace Membership
variable {env : Env} {m : Membership}

theorem update_ready (env : Env) (m : Membership) {changes : List (Update × Tick)}
    (some : changes ≠ []) :
    update env true m changes =
      let (m', updates, events) := processChanges env m changes
      if updates = [] then (m', updates, events)
      else ((computeChecksum env m').1, updates,
        events ++ (computeChecksum env m').2 ++ [.updated updates]) := by
  have length : changes.length ≠ 0 := by simpa using some
  rw [update, if_neg length]
  simp only [Bool.not_true, Bool.false_eq_true, if_false]
  cases (processChanges env m changes).2.1 <;> rfl

/-- The events of `update` on a ready node, the damping events aside. -/
def announce (updates : List Update) (checksum : ℤ) (old : Option ℤ) : List MembershipEvent :=
  if updates = [] then [] else [.checksumComputed checksum old, .updated updates]

theorem WellFormed.update (w : WellFormed env m) {ref : ℕ} (known : m.localMember = some ref)
    (changes : List (Update × Tick)) :
    let result := Membership.update env true m changes
    Applied env m ref changes result.1 result.2.1 ∧
      ∃ damping checksum old, (∀ e ∈ damping, e.isDamping = true) ∧
        result.2.2 = damping ++ announce result.2.1 checksum old := by
  by_cases none : changes = []
  · subst none
    exact ⟨w.applied_nil known, [], 0, Option.none, nofun, rfl⟩
  · obtain ⟨applied, damping⟩ := processChanges_applied w known changes
    rw [update_ready env m none]
    simp only
    split
    case isTrue idle =>
      exact ⟨applied, _, 0, Option.none, damping, by simp [announce, idle]⟩
    case isFalse acted =>
      refine ⟨⟨applied.wellFormed.computeChecksum, applied.localMember, applied.view,
        applied.taken, applied.self, applied.own⟩, _,
        env.hashFunc (processChanges env m changes).1.generateChecksumString,
        (processChanges env m changes).1.checksum, damping, ?_⟩
      rw [announce, if_neg acted, List.append_assoc]
      rfl

theorem WellFormed.localMember_made (w : WellFormed env m) (missing : m.localMember = none)
    (member : Member) (address : member.address = env.whoami) :
    WellFormed env { m.insertMember m.members.length member with localMember := some m.next } := by
  have new : m.membersByAddress.get member.address = none := by rw [address, w.self, missing]
  have indexed := w.toIndexed.insertMember le_rfl new
  refine ⟨⟨indexed.fresh, indexed.nodup, indexed.index⟩, ?_⟩
  simp [insertMember, address]

/-- The end of `setLocalStatus`: a new incarnation of the local member is announced. -/
theorem WellFormed.publish (w : WellFormed env m) {ref : ℕ} (known : m.localMember = some ref)
    (tick : Tick) :
    let reborn := Membership.reincarnate tick m ref
    let posted := postLocalUpdate env reborn.1 reborn.2
    WellFormed env posted.1 ∧ posted.1.localMember = some ref ∧
      (∀ b, posted.1.view b =
        if b = env.whoami then some ⟨tick.now, (m.localStanding ref).status⟩ else m.view b) ∧
      ∃ u checksum old, u.address = env.whoami ∧
        u.standing = ⟨tick.now, (m.localStanding ref).status⟩ ∧
        posted.2 = [.checksumComputed checksum old, .updated [u]] := by
  obtain ⟨step, address, standing⟩ := w.reincarnate known tick
  exact ⟨step.wellFormed.computeChecksum, step.localMember.trans known, step.view, _, _, _,
    address, standing, rfl⟩

/-- The reference of the local member after `setLocalStatus`. -/
def localRef (m : Membership) : ℕ := m.localMember.getD m.next

/-- The event that `setLocalStatus` emits before it changes anything. -/
def leaving (m : Membership) (status : Status) : List MembershipEvent :=
  match m.localMember with
  | some ref => if status = .leave then [.localMemberLeave (m.heap ref).status] else []
  | none => []

theorem WellFormed.setLocalStatus (w : WellFormed env m) (tick : Tick) (status : Status) :
    let result := Membership.setLocalStatus env tick m status
    WellFormed env result.1 ∧ result.1.localMember = some m.localRef ∧
      (∀ b, result.1.view b = if b = env.whoami then some ⟨tick.now, status⟩ else m.view b) ∧
      ∃ u checksum old, u.address = env.whoami ∧ u.standing = ⟨tick.now, status⟩ ∧
        result.2 = m.leaving status ++ [.checksumComputed checksum old, .updated [u]] := by
  cases known : m.localMember with
  | some ref =>
    have step := w.rewritten_write { m.heap ref with status := status } (w.self.trans known)
      (w.local_address known)
    obtain ⟨w', known', view, u, checksum, old, address, standing, events⟩ :=
      step.wellFormed.publish (step.localMember.trans known) tick
    have now : (Membership.localStanding (m.write ref { m.heap ref with status := status })
        ref).status = status := by
      simp [Membership.localStanding, write, Member.standing]
    rw [now] at standing
    simp only [Membership.setLocalStatus, leaving, localRef, known, Option.getD_some]
    refine ⟨w', known', fun b => ?_, u, checksum, old, address, standing, by rw [events]⟩
    rw [view, now, step.view]
    split <;> rfl
  | none =>
    let member := Member.ofUpdate env ⟨env.whoami, status, tick.now, some tick.uuid, none, none⟩
    have made := w.localMember_made known member rfl
    obtain ⟨w', known', view, u, checksum, old, address, standing, events⟩ := made.publish rfl tick
    have now : (Membership.localStanding { m.insertMember m.members.length member with
        localMember := some m.next } m.next).status = status := by
      simp [Membership.localStanding, insertMember, Member.standing, Member.ofUpdate, member]
    rw [now] at standing
    simp only [Membership.setLocalStatus, leaving, localRef, known, Option.getD_none]
    refine ⟨w', known', fun b => ?_, u, checksum, old, address, standing, events⟩
    rw [view, now]
    split
    case isTrue => rfl
    case isFalse other =>
      exact (w.toIndexed.view_insertMember m.members.length member b).trans (if_neg other)

/-- `evict` of another member. -/
theorem WellFormed.evict (w : WellFormed env m) {ref : ℕ} (known : m.localMember = some ref)
    {a : Address} (other : a ≠ env.whoami) :
    let result := Membership.evict env m a
    WellFormed env result.1 ∧ result.1.localMember = some ref ∧
      (∀ b, result.1.view b = if b = a then none else m.view b) ∧
      ∀ e ∈ result.2, ∃ checksum old, e = .checksumComputed checksum old := by
  have address : m.localAddress ≠ some a := by
    simpa [Membership.localAddress, known, w.local_address known] using other.symm
  simp only [Membership.evict, if_neg address, Membership.removeMember]
  cases found : m.membersByAddress.get a with
  | none =>
    refine ⟨w, known, fun b => ?_, List.forall_mem_nil _⟩
    by_cases same : b = a
    · rw [if_pos same, same]
      exact view_eq_none.mpr found
    · rw [if_neg same]
  | some r =>
    let m' := { m with
      membersByAddress := m.membersByAddress.delete a
      members := m.members.filter (· ≠ r) }
    have indexed : m'.Indexed := w.toIndexed.delete found
    have self : m'.membersByAddress.get env.whoami = m'.localMember := by
      simp only [m', Dict.get_delete, if_neg other.symm]
      exact w.self
    refine ⟨WellFormed.computeChecksum ⟨indexed, self⟩, known, fun b => ?_, ?_⟩
    · rw [view_computeChecksum, view, findMemberByAddress]
      simp only [Dict.get_delete]
      split <;> rfl
    · intro e he
      exact ⟨_, _, List.mem_singleton.mp he⟩

/-- The entries of the checksum string. -/
def listing (m : Membership) : List (Address × Standing) :=
  (((m.members.map m.heap).insertionSort fun a b => a.address ≤ b.address).filter
    fun member => member.status ≠ .tombstone).map fun member => (member.address, member.standing)

def listedBefore (a b : Address × Standing) : Prop := a.1 < b.1

instance : Std.Irrefl listedBefore where
  irrefl a := lt_irrefl a.1

instance : Std.Antisymm listedBefore where
  antisymm _ _ hab hba := absurd hab hba.not_gt

def listingEntry (entry : Address × Standing) : Str :=
  entry.1.name ++ entry.2.status.name ++ intString entry.2.incarnationNumber ++ str ";"

theorem generateChecksumString_listing (m : Membership) :
    m.generateChecksumString = (m.listing.flatMap listingEntry).dropLast := by
  rw [generateChecksumString, listing, List.flatMap_map]
  rfl

/-- What the list says, in its own order. -/
def entries (m : Membership) : List (Address × Standing) :=
  m.members.map fun r => ((m.heap r).address, (m.heap r).standing)

/-- The entries that the checksum string shows, by address. -/
def listed (entries : List (Address × Standing)) : List (Address × Standing) :=
  (entries.insertionSort fun a b => a.1 ≤ b.1).filter fun entry => entry.2.status ≠ .tombstone

theorem listing_eq (m : Membership) : m.listing = listed m.entries := by
  have sorted := List.map_insertionSort (fun a b : Member => a.address ≤ b.address)
    (fun a b : Address × Standing => a.1 ≤ b.1) (fun member => (member.address, member.standing))
    (m.members.map m.heap) fun _ _ _ _ => Iff.rfl
  rw [List.map_map] at sorted
  change _ = List.filter _ (List.insertionSort _ (m.members.map _))
  rw [listing,
    ← Function.comp_def (fun member : Member => (member.address, member.standing)) m.heap, ← sorted,
    List.filter_map]
  rfl

theorem mem_listed {entries : List (Address × Standing)} {entry : Address × Standing} :
    entry ∈ listed entries ↔ entry ∈ entries ∧ entry.2.status ≠ .tombstone := by
  rw [listed, List.mem_filter, List.mem_insertionSort, decide_eq_true_eq]

theorem pairwise_listed {entries : List (Address × Standing)}
    (distinct : (entries.map Prod.fst).Nodup) : (listed entries).Pairwise listedBefore := by
  have sorted := List.pairwise_insertionSort (fun a b : Address × Standing => a.1 ≤ b.1) entries
  have perm := List.perm_insertionSort (fun a b : Address × Standing => a.1 ≤ b.1) entries
  have differ := perm.symm.pairwise (List.pairwise_map.mp distinct) fun h => h.symm
  have strict := (sorted.and differ).filter fun entry => entry.2.status ≠ .tombstone
  exact strict.imp fun h => lt_of_le_of_ne h.1 h.2

theorem Indexed.nodup_entries (w : m.Indexed) : (m.entries.map Prod.fst).Nodup := by
  rw [entries, List.map_map]
  refine List.pairwise_map.mpr (w.nodup.imp_of_mem fun {r r'} hr hr' differs same => differs ?_)
  have first := (w.index _ r).mpr ⟨hr, same⟩
  have second := (w.index _ r').mpr ⟨hr', rfl⟩
  exact Option.some.inj (first.symm.trans second)

theorem Indexed.mem_entries (w : m.Indexed) {a : Address} {s : Standing} :
    (a, s) ∈ m.entries ↔ m.view a = some s := by
  simp only [entries, List.mem_map, Prod.mk.injEq]
  constructor
  · rintro ⟨r, hr, address, rfl⟩
    exact view_of_get ((w.index a r).mpr ⟨hr, address⟩)
  · intro view
    cases found : m.membersByAddress.get a with
    | none =>
      rw [view_eq_none.mpr found] at view
      cases view
    | some r =>
      obtain ⟨hr, address⟩ := (w.index a r).mp found
      rw [view_of_get found, Option.some.injEq] at view
      exact ⟨r, hr, address, view⟩

/-- The checksum string depends on the standings that are not tombstones. -/
theorem generateChecksumString_congr {m' : Membership} (w : m.Indexed) (w' : m'.Indexed)
    (same : ∀ a s, s.status ≠ .tombstone → (m.view a = some s ↔ m'.view a = some s)) :
    m.generateChecksumString = m'.generateChecksumString := by
  have listings : listed m.entries = listed m'.entries :=
    (pairwise_listed w.nodup_entries).eq_of_mem_iff (pairwise_listed w'.nodup_entries)
      fun entry => by
        rw [mem_listed, mem_listed, w.mem_entries, w'.mem_entries]
        exact and_congr_left (same entry.1 entry.2)
  rw [generateChecksumString_listing, generateChecksumString_listing, listing_eq, listing_eq,
    listings]

end Membership

/-- The member list of a ready node. -/
structure MemberList (env : Env) where
  membership : Membership
  ref : ℕ
  wellFormed : Membership.WellFormed env membership
  known : membership.localMember = some ref

namespace MemberList
variable {env : Env}

def view (l : MemberList env) (a : Address) : Option Standing := l.membership.view a

def localStanding (l : MemberList env) : Standing := l.membership.localStanding l.ref

def generateChecksumString (l : MemberList env) : Str := l.membership.generateChecksumString

/-- The list of a node that knows only itself. -/
def alone (env : Env) (tick : Tick) : MemberList env where
  membership := (Membership.makeLocalAlive env tick (.new env)).1
  ref := (Membership.new env).localRef
  wellFormed := ((Membership.wellFormed_new env).setLocalStatus tick .alive).1
  known := ((Membership.wellFormed_new env).setLocalStatus tick .alive).2.1

theorem view_alone (env : Env) (tick : Tick) (b : Address) :
    (alone env tick).view b = if b = env.whoami then some ⟨tick.now, .alive⟩ else none :=
  ((Membership.wellFormed_new env).setLocalStatus tick .alive).2.2.1 b

def update (l : MemberList env) (changes : List (Update × Tick)) : MemberList env where
  membership := (l.membership.update env true changes).1
  ref := l.ref
  wellFormed := (l.wellFormed.update l.known changes).1.wellFormed
  known := (l.wellFormed.update l.known changes).1.localMember

theorem view_whoami (l : MemberList env) : l.view env.whoami = some l.localStanding :=
  l.wellFormed.view_whoami l.known

theorem view_update (l : MemberList env) (changes : List (Update × Tick)) {a : Address}
    (other : a ≠ env.whoami) :
    (l.update changes).view a = absorbAll refused Update.standing (l.view a) (about a changes) :=
  (l.wellFormed.update l.known changes).1.view a other

theorem localStanding_update (l : MemberList env) (changes : List (Update × Tick)) :
    (l.update changes).localStanding =
      answered l.localStanding (refutations env.whoami l.localStanding changes) :=
  (l.wellFormed.update l.known changes).1.self

theorem refutations_of_quiet {whoami : Address} {s : Standing} {changes : List (Update × Tick)}
    (quiet : ∀ change ∈ changes, change.1.address = whoami → change.1.standing ≤ s) :
    refutations whoami s changes = [] := by
  induction changes with
  | nil => rfl
  | cons change rest ih =>
    obtain ⟨change, tick⟩ := change
    obtain ⟨head, tail⟩ := List.forall_mem_cons.mp quiet
    rw [refutations, if_neg fun taken => (head taken.1).not_gt taken.2]
    exact ih tail

/-- Old rumours about the local member change nothing in its own entry. -/
theorem view_update_whoami (l : MemberList env) {changes : List (Update × Tick)}
    (quiet : ∀ change ∈ changes, change.1.address = env.whoami →
      change.1.standing ≤ l.localStanding) :
    (l.update changes).view env.whoami = l.view env.whoami := by
  rw [view_whoami, view_whoami, localStanding_update, refutations_of_quiet quiet]
  rfl

end MemberList
end Ringpop.Members
