import Ringpop.MemberList
import Mathlib.Data.List.Induction

/-! `Membership.set`: the changes stashed while a node joins are merged by
incarnation number alone, so among changes of one incarnation the first wins. -/
namespace Ringpop.Members
open JsString Dictionary GreatestWins

/-- The first change among those of the greatest incarnation. -/
def Newest (changes : List Update) (u : Update) : Prop :=
  ∃ before after, changes = before ++ u :: after ∧
    (∀ v ∈ before, v.incarnationNumber < u.incarnationNumber) ∧
    ∀ v ∈ after, v.incarnationNumber ≤ u.incarnationNumber

namespace Newest
variable {changes : List Update} {u : Update}

theorem mem (h : Newest changes u) : u ∈ changes := by
  obtain ⟨before, after, rfl, -, -⟩ := h
  simp

theorem le (h : Newest changes u) {v : Update} (hv : v ∈ changes) :
    v.incarnationNumber ≤ u.incarnationNumber := by
  obtain ⟨before, after, rfl, hb, ha⟩ := h
  rcases List.mem_append.mp hv with hv | hv
  · exact (hb v hv).le
  · rcases List.mem_cons.mp hv with rfl | hv
    · exact le_rfl
    · exact ha v hv

theorem snoc_newer (h : Newest changes u) {c : Update}
    (newer : u.incarnationNumber < c.incarnationNumber) : Newest (changes ++ [c]) c :=
  ⟨changes, [], rfl, fun _ hv => (h.le hv).trans_lt newer, nofun⟩

theorem snoc_older (h : Newest changes u) {c : Update}
    (older : ¬ u.incarnationNumber < c.incarnationNumber) : Newest (changes ++ [c]) u := by
  obtain ⟨before, after, rfl, hb, ha⟩ := h
  refine ⟨before, after ++ [c], by simp, hb, fun v hv => ?_⟩
  rcases List.mem_append.mp hv with hv | hv
  · exact ha v hv
  · rw [List.mem_singleton.mp hv]
    exact not_lt.mp older

theorem unique (h : Newest changes u) {v : Update} (h' : Newest changes v) : u = v := by
  have le := h.le h'.mem
  have ge := h'.le h.mem
  obtain ⟨before, after, split, hb, -⟩ := h
  obtain ⟨before', after', split', hb', -⟩ := h'
  rw [split, List.append_eq_append_iff] at split'
  rcases split' with ⟨mid, rfl, tail⟩ | ⟨mid, rfl, tail⟩
  · cases mid with
    | nil => exact (List.cons.inj tail).1
    | cons c mid =>
      have := hb' u (by rw [(List.cons.inj tail).1]; simp)
      omega
  · cases mid with
    | nil => exact (List.cons.inj tail).1.symm
    | cons c mid =>
      have := hb v (by rw [(List.cons.inj tail).1]; simp)
      omega

end Newest

/-- What the merge has kept of the changes about one address. -/
def Kept (changes : List Update) : Option Update → Prop
  | none => changes = []
  | some u => Newest changes u

theorem mergeChange_other {whoami a : Address} {index : Dict Address Update} {c : Update}
    (differs : c.address ≠ a) : (mergeChange whoami index c).get a = index.get a := by
  unfold mergeChange
  split
  · rfl
  · split
    · rw [Dict.get_set, if_neg differs.symm]
    · split
      · rw [Dict.get_set, if_neg differs.symm]
      · rfl

theorem Kept.mergeChange {whoami : Address} {index : Dict Address Update} {changes : List Update}
    {c : Update} (remote : c.address ≠ whoami) (h : Kept changes (index.get c.address)) :
    Kept (changes ++ [c]) ((mergeChange whoami index c).get c.address) := by
  rw [Members.mergeChange, if_neg remote]
  cases found : index.get c.address with
  | none =>
    rw [found] at h
    obtain rfl : changes = [] := h
    simp only [Dict.get_set, if_true]
    exact ⟨[], [], rfl, List.forall_mem_nil _, List.forall_mem_nil _⟩
  | some indexVal =>
    rw [found] at h
    simp only
    split
    case isTrue newer =>
      rw [Dict.get_set, if_pos rfl]
      exact h.snoc_newer newer
    case isFalse older =>
      rw [found]
      exact h.snoc_older older

theorem kept_merge {whoami a : Address} (remote : a ≠ whoami) (changes : List Update) :
    Kept (changes.filter fun c => c.address = a)
      ((changes.foldl (mergeChange whoami) .empty).get a) := by
  induction changes using List.reverseRecOn with
  | nil => rfl
  | append_singleton changes c ih =>
    rw [List.foldl_concat, List.filter_append]
    by_cases same : c.address = a
    · subst same
      rw [List.filter_cons_of_pos (by simp), List.filter_nil]
      exact ih.mergeChange remote
    · rw [List.filter_cons_of_neg (by simpa using same), List.filter_nil, List.append_nil,
        mergeChange_other same]
      exact ih

theorem merge_address {whoami : Address} (changes : List Update) {a : Address} {u : Update}
    (h : (changes.foldl (mergeChange whoami) .empty).get a = some u) :
    u.address = a ∧ a ≠ whoami := by
  induction changes using List.reverseRecOn with
  | nil => cases h
  | append_singleton changes c ih =>
    rw [List.foldl_concat] at h
    by_cases same : c.address = a
    · subst same
      unfold mergeChange at h
      split at h
      · exact ih h
      · rename_i remote
        split at h
        · rw [Dict.get_set, if_pos rfl] at h
          exact ⟨by rw [Option.some.inj h], remote⟩
        · split at h
          · rw [Dict.get_set, if_pos rfl] at h
            exact ⟨by rw [Option.some.inj h], remote⟩
          · exact ih h
    · rw [mergeChange_other same] at h
      exact ih h

theorem mem_mergeMembershipChangesets {whoami : Address} {changesets : List (List Update)}
    {u : Update} :
    u ∈ mergeMembershipChangesets whoami changesets ↔
      (changesets.flatten.foldl (mergeChange whoami) .empty).get u.address = some u := by
  rw [mergeMembershipChangesets, ← List.foldl_flatten, List.mem_filterMap]
  constructor
  · rintro ⟨a, -, h⟩
    rwa [(merge_address _ h).1]
  · intro h
    exact ⟨u.address, mem_objectKeys.mpr (by rw [Dict.has, h]; rfl), h⟩

theorem merged_about {whoami a : Address} {changesets : List (List Update)} {u : Update} :
    u ∈ mergeMembershipChangesets whoami changesets ∧ u.address = a ↔
      (changesets.flatten.foldl (mergeChange whoami) .empty).get a = some u := by
  rw [mem_mergeMembershipChangesets]
  constructor
  · rintro ⟨h, rfl⟩
    exact h
  · intro h
    obtain ⟨rfl, -⟩ := merge_address _ h
    exact ⟨h, rfl⟩

/-- The merge keeps the first change of the newest incarnation. -/
theorem newest_iff_merged {whoami a : Address} (remote : a ≠ whoami) (changes : List Update)
    (u : Update) :
    Newest (changes.filter fun c => c.address = a) u ↔
      (changes.foldl (mergeChange whoami) .empty).get a = some u := by
  have kept := kept_merge remote changes
  cases found : (changes.foldl (mergeChange whoami) .empty).get a with
  | none =>
    rw [found] at kept
    have empty : (changes.filter fun c => c.address = a) = [] := kept
    rw [empty]
    exact iff_of_false (fun h => List.not_mem_nil h.mem) (Option.some_ne_none u).symm
  | some v =>
    rw [found] at kept
    exact ⟨fun h => by rw [Newest.unique kept h], fun h => Option.some.inj h ▸ kept⟩

theorem nodup_mergeMembershipChangesets (whoami : Address) (changesets : List (List Update)) :
    (mergeMembershipChangesets whoami changesets).Pairwise fun u v => u.address ≠ v.address := by
  rw [mergeMembershipChangesets, ← List.foldl_flatten]
  refine List.Pairwise.filterMap _ (fun a b differs u hu v hv => ?_) (nodup_objectKeys _)
  rw [(merge_address _ hu).1, (merge_address _ hv).1]
  exact differs

namespace Membership
variable {env : Env} {m : Membership}

theorem WellFormed.createMember (w : WellFormed env m) {u : Update}
    (new : m.view u.address = none) (remote : u.address ≠ env.whoami) :
    WellFormed env (createMember env m u) ∧
      (Membership.createMember env m u).localMember = m.localMember ∧
      ∀ b, (Membership.createMember env m u).view b =
        if b = u.address ∧ u.status ≠ .tombstone then some u.standing else m.view b := by
  unfold Membership.createMember
  split
  case isTrue tombstone => exact ⟨w, rfl, fun b => by simp [tombstone]⟩
  case isFalse kept =>
    have step := w.rewritten_insertMember (.ofUpdate env u) le_rfl (view_eq_none.mp new) remote
    refine ⟨step.wellFormed, step.localMember, fun b => ?_⟩
    rw [step.view]
    by_cases same : b = u.address <;> simp [same, kept]

theorem WellFormed.createMembers (w : WellFormed env m) {updates : List Update}
    (distinct : updates.Pairwise fun u v => u.address ≠ v.address)
    (new : ∀ u ∈ updates, m.view u.address = none ∧ u.address ≠ env.whoami) :
    WellFormed env (updates.foldl (Membership.createMember env) m) ∧
      (updates.foldl (Membership.createMember env) m).localMember = m.localMember ∧
      ∀ b s, (updates.foldl (Membership.createMember env) m).view b = some s ↔
        m.view b = some s ∨
          ∃ u ∈ updates, u.address = b ∧ u.status ≠ .tombstone ∧ u.standing = s := by
  induction updates generalizing m with
  | nil => exact ⟨w, rfl, fun b s => by simp⟩
  | cons u updates ih =>
    obtain ⟨others, distinct⟩ := List.pairwise_cons.mp distinct
    obtain ⟨⟨new₁, remote⟩, new⟩ := List.forall_mem_cons.mp new
    obtain ⟨w₁, local₁, view₁⟩ := w.createMember new₁ remote
    have new' : ∀ v ∈ updates, (Membership.createMember env m u).view v.address = none ∧
        v.address ≠ env.whoami := by
      intro v hv
      rw [view₁, if_neg fun same => others v hv same.1.symm]
      exact new v hv
    obtain ⟨w₂, local₂, view₂⟩ := ih w₁ distinct new'
    refine ⟨w₂, local₂.trans local₁, fun b s => ?_⟩
    rw [List.foldl_cons, view₂, view₁]
    simp only [List.mem_cons, exists_eq_or_imp]
    by_cases same : b = u.address ∧ u.status ≠ .tombstone
    · obtain ⟨rfl, kept⟩ := same
      simp [kept, new₁]
    · rw [if_neg same]
      have other : ¬ (u.address = b ∧ u.status ≠ .tombstone ∧ u.standing = s) :=
        fun h => same ⟨h.1.symm, h.2.1⟩
      simp [other]

/-- `set` on a list that knows only itself. -/
theorem WellFormed.set (w : WellFormed env m) {stashed : List (List Update)}
    (nonempty : stashed ≠ []) (stash : m.stashedUpdates = some stashed)
    (unknown : ∀ a ≠ env.whoami, m.view a = none) :
    WellFormed env (set env false m).1 ∧
      (Membership.set env false m).1.localMember = m.localMember ∧
      (∀ b s, (Membership.set env false m).1.view b = some s ↔ m.view b = some s ∨
        ∃ u ∈ mergeMembershipChangesets env.whoami stashed,
          u.address = b ∧ u.status ≠ .tombstone ∧ u.standing = s) ∧
      (Membership.set env false m).1.stashedUpdates = none ∧
      ∃ checksum old, (Membership.set env false m).2 =
        [.checksumComputed checksum old, .set (mergeMembershipChangesets env.whoami stashed)] := by
  have new : ∀ u ∈ mergeMembershipChangesets env.whoami stashed,
      m.view u.address = none ∧ u.address ≠ env.whoami := by
    intro u hu
    have remote := (merge_address _ (mem_mergeMembershipChangesets.mp hu)).2
    exact ⟨unknown _ remote, remote⟩
  obtain ⟨w₁, local₁, view₁⟩ :=
    w.createMembers (nodup_mergeMembershipChangesets env.whoami stashed) new
  obtain ⟨first, rest, rfl⟩ := List.exists_cons_of_ne_nil nonempty
  simp only [Membership.set, stash, Bool.false_eq_true, if_false]
  exact ⟨⟨⟨w₁.fresh, w₁.nodup, w₁.index⟩, w₁.self⟩, local₁, view₁, rfl, _, _, rfl⟩

/-- Buffer join responses as `update` does before the node is ready. -/
def stash (env : Env) (m : Membership) (responses : List (List (Update × Tick))) : Membership :=
  responses.foldl (fun m changes => (update env false m changes).1) m

theorem update_stash (env : Env) (m : Membership) (changes : List (Update × Tick)) :
    (update env false m changes).1 =
      { m with stashedUpdates := m.stashedUpdates.map fun stashed =>
          stashed ++ if changes = [] then [] else [changes.map Prod.fst] } := by
  cases changes with
  | nil =>
    obtain ⟨heap, next, members, index, checksum, stashed, localMember⟩ := m
    cases stashed <;> simp [update]
  | cons change changes => simp [update]

theorem stash_eq (env : Env) (m : Membership) (responses : List (List (Update × Tick))) :
    stash env m responses = { m with stashedUpdates := m.stashedUpdates.map fun stashed =>
      stashed ++ (responses.filter (· ≠ [])).map (·.map Prod.fst) } := by
  induction responses generalizing m with
  | nil =>
    obtain ⟨heap, next, members, index, checksum, stashed, localMember⟩ := m
    cases stashed <;> simp [stash]
  | cons changes responses ih =>
    have step : stash env m (changes :: responses) =
      stash env (update env false m changes).1 responses := rfl
    rw [step, ih, update_stash]
    by_cases none : changes = [] <;> simp [none, Function.comp_def]

/-- The list of a node at the end of its join. -/
def joined (env : Env) (tick : Tick) (responses : List (List (Update × Tick))) : Membership :=
  (set env false (stash env (makeLocalAlive env tick (.new env)).1 responses)).1

theorem flatten_stashed (responses : List (List (Update × Tick))) :
    ((responses.filter (· ≠ [])).map (·.map Prod.fst)).flatten =
      responses.flatten.map Prod.fst := by
  induction responses with
  | nil => rfl
  | cons changes responses ih =>
    by_cases none : changes = [] <;> simp_all

theorem view_joined (env : Env) (tick : Tick) (responses : List (List (Update × Tick)))
    {a : Address} (remote : a ≠ env.whoami) (s : Standing) :
    (joined env tick responses).view a = some s ↔
      ∃ u, Newest (about a responses.flatten) u ∧ u.status ≠ .tombstone ∧ u.standing = s := by
  obtain ⟨w, -, view, -⟩ := (wellFormed_new env).setLocalStatus tick .alive
  have unknown : ∀ b ≠ env.whoami, (makeLocalAlive env tick (.new env)).1.view b = none :=
    fun b hb => (view b).trans (if_neg hb)
  simp only [about, newest_iff_merged remote]
  rw [joined, stash_eq]
  generalize hs : (responses.filter (· ≠ [])).map (·.map Prod.fst) = stashed
  have flat : stashed.flatten = responses.flatten.map Prod.fst := hs ▸ flatten_stashed responses
  cases stashed with
  | nil =>
    rw [← flat]
    refine iff_of_false (fun h => ?_) (by simp)
    cases (unknown a remote).symm.trans h
  | cons first rest =>
    obtain ⟨-, -, view', -⟩ := WellFormed.set (m := { (makeLocalAlive env tick (.new env)).1 with
      stashedUpdates := some (first :: rest) })
      { w with } (List.cons_ne_nil first rest) rfl unknown
    refine (view' a s).trans ?_
    have old : ¬ Membership.view { (makeLocalAlive env tick (.new env)).1 with
        stashedUpdates := some (first :: rest) } a = some s := by
      intro h
      cases (unknown a remote).symm.trans h
    simp only [old, false_or, ← flat, ← merged_about, and_assoc]

/-- The first change of the newest incarnation also has the greatest precedence in it. -/
def NewestIsGreatest (changes : List Update) : Prop :=
  ∀ u, Newest changes u → ∀ v ∈ changes, v.incarnationNumber = u.incarnationNumber →
    statusPrecedence v.status ≤ statusPrecedence u.status

/-- The greatest change that was heard, unless it is a tombstone. -/
def expected (changes : List Update) : Option Standing :=
  (greatest Update.standing none changes).filter fun s => s.status ≠ .tombstone

theorem newestIsGreatest_iff {changes : List Update} {u : Update} (newest : Newest changes u) :
    NewestIsGreatest changes ↔ greatest Update.standing none changes = some u.standing := by
  rw [greatest_eq_some]
  constructor
  · intro h
    refine ⟨Or.inr ⟨u, newest.mem, rfl⟩, nofun, fun v hv => Standing.le_iff.mpr ?_⟩
    rcases (newest.le hv).lt_or_eq with less | equal
    · exact Or.inl less
    · exact Or.inr ⟨equal, h u newest v hv equal⟩
  · rintro ⟨-, -, bound⟩ u' newest' v hv equal
    obtain rfl := newest.unique newest'
    rcases Standing.le_iff.mp (bound v hv) with less | ⟨-, le⟩
    · exact absurd equal less.ne
    · exact le

theorem newest_exists {changes : List Update} (nonempty : changes ≠ []) :
    ∃ u, Newest changes u := by
  induction changes using List.reverseRecOn with
  | nil => exact absurd rfl nonempty
  | append_singleton changes c ih =>
    by_cases none : changes = []
    · exact ⟨c, [], [], by simp [none], nofun, nofun⟩
    · obtain ⟨u, newest⟩ := ih none
      by_cases newer : u.incarnationNumber < c.incarnationNumber
      · exact ⟨c, newest.snoc_newer newer⟩
      · exact ⟨u, newest.snoc_older newer⟩

/-- A tombstone has the greatest precedence of its incarnation. -/
theorem greatest_of_tombstone {changes : List Update} {u : Update} (newest : Newest changes u)
    (tombstone : u.status = .tombstone) : NewestIsGreatest changes := by
  intro u' newest' v _ _
  obtain rfl := newest.unique newest'
  rw [tombstone]
  cases v.status <;> decide

theorem view_joined_iff (env : Env) (tick : Tick) (responses : List (List (Update × Tick)))
    (a : Address) (remote : a ≠ env.whoami) :
    (joined env tick responses).view a = expected (about a responses.flatten) ↔
      NewestIsGreatest (about a responses.flatten) := by
  have view := view_joined env tick responses remote
  generalize about a responses.flatten = changes at *
  by_cases none : changes = []
  · subst none
    have absent : (joined env tick responses).view a = Option.none := by
      refine Option.eq_none_iff_forall_ne_some.mpr fun s h => ?_
      obtain ⟨u, newest, -⟩ := (view s).mp h
      cases newest.mem
    exact iff_of_true absent fun u newest => by cases newest.mem
  · obtain ⟨u, newest⟩ := newest_exists none
    rw [newestIsGreatest_iff newest]
    by_cases tombstone : u.status = .tombstone
    · have great := (newestIsGreatest_iff newest).mp (greatest_of_tombstone newest tombstone)
      have absent : (joined env tick responses).view a = Option.none := by
        refine Option.eq_none_iff_forall_ne_some.mpr fun s h => ?_
        obtain ⟨u', newest', kept, -⟩ := (view s).mp h
        exact kept (newest.unique newest' ▸ tombstone)
      rw [absent, expected, great]
      exact iff_of_true (by simp [Option.filter, Update.standing, tombstone]) rfl
    · rw [(view u.standing).mpr ⟨u, newest, tombstone, rfl⟩, expected]
      constructor
      · intro h
        exact (Option.filter_eq_some_iff.mp h.symm).1
      · intro h
        rw [h]
        simp [Option.filter, Update.standing, tombstone]

theorem view_joined_iff_two_responses :
    let env := Env.sample (.of "a:1" (by decide))
    let b := Address.of "b:1" (by decide)
    let tick : Tick := ⟨7, [], 0⟩
    let responses : List (List (Update × Tick)) :=
      [[(⟨b, .alive, 3, none, none, none⟩, tick)], [(⟨b, .suspect, 4, none, none, none⟩, tick)]]
    (joined env tick responses).view b = expected (about b responses.flatten) ↔
      NewestIsGreatest (about b responses.flatten) :=
  view_joined_iff _ _ _ _ (by decide)

theorem view_joined_first_of_incarnation :
    let env := Env.sample (.of "a:1" (by decide))
    let b := Address.of "b:1" (by decide)
    let tick : Tick := ⟨7, [], 0⟩
    let alive : Update × Tick := (⟨b, .alive, 3, none, none, none⟩, tick)
    let faulty : Update × Tick := (⟨b, .faulty, 3, none, none, none⟩, tick)
    (joined env tick [[alive], [faulty]]).view b = some ⟨3, .alive⟩ ∧
      (joined env tick [[faulty], [alive]]).view b = some ⟨3, .faulty⟩ ∧
      (joined env tick [[alive], [faulty]]).view b ≠
        expected (about b [[alive], [faulty]].flatten) := by
  decide

end Membership
end Ringpop.Members
