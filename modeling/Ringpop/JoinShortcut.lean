import Ringpop.Joiner
import Ringpop.BootstrapMerge
import Ringpop.ChecksumString

/-! The shortcut of `join-response-merge.js`: join responses with one checksum need no
merge. They may still differ in their tombstones, which `Membership.set` leaves out. -/
namespace Ringpop.Members
open JsString

/-- What a response says, in its own order. -/
def JoinResponse.entries (response : JoinResponse) : List (Address × Standing) :=
  response.members.map fun u => (u.address, u.standing)

theorem JoinResponse.mem_entries {response : JoinResponse} {a : Address} {s : Standing} :
    (a, s) ∈ response.entries ↔ ∃ u ∈ response.members, u.address = a ∧ u.standing = s := by
  simp [entries]

/-- Among changes about distinct addresses the only one about an address is the newest. -/
theorem newest_of_distinct {changes : List Update} {a : Address} {u : Update}
    (distinct : changes.Pairwise fun u v => u.address ≠ v.address) :
    Newest (changes.filter fun c => c.address = a) u ↔ u ∈ changes ∧ u.address = a := by
  constructor
  · intro newest
    simpa using newest.mem
  · rintro ⟨member, rfl⟩
    obtain ⟨before, after, rfl⟩ := List.append_of_mem member
    obtain ⟨-, tail, others⟩ := List.pairwise_append.mp distinct
    have later := (List.pairwise_cons.mp tail).1
    have quiet_before : before.filter (fun c => c.address = u.address) = [] :=
      List.filter_eq_nil_iff.mpr fun v hv => by
        simpa using others v hv u List.mem_cons_self
    have quiet_after : after.filter (fun c => c.address = u.address) = [] :=
      List.filter_eq_nil_iff.mpr fun v hv => by simpa using (later v hv).symm
    refine ⟨[], [], ?_, List.forall_mem_nil _, List.forall_mem_nil _⟩
    rw [List.filter_append, List.filter_cons_of_pos (by simp), quiet_before, quiet_after,
      List.nil_append]

namespace Membership
variable {env : Env} {m : Membership}

/-- The end of a join: the updates are stashed, and `set` puts them into the list. -/
def afterJoin (env : Env) (tick : Tick) (m : Membership) (updates : List Update) : Membership :=
  (set env false (update env false m (updates.map fun u => (u, tick))).1).1

/-- A node that has only heard of itself, and has stashed nothing. -/
structure Joining (env : Env) (m : Membership) : Prop where
  wellFormed : WellFormed env m
  unknown : ∀ a ≠ env.whoami, m.view a = none
  stash : m.stashedUpdates = some []

theorem Joining.view_afterJoin (joining : Joining env m) (tick : Tick) (updates : List Update)
    (a : Address) (s : Standing) :
    (afterJoin env tick m updates).view a = some s ↔ m.view a = some s ∨ a ≠ env.whoami ∧
      ∃ u, Newest (updates.filter fun c => c.address = a) u ∧ u.status ≠ .tombstone ∧
        u.standing = s := by
  have merged (stashed : List (List Update)) (flat : stashed.flatten = updates) :
      (∃ u ∈ mergeMembershipChangesets env.whoami stashed,
        u.address = a ∧ u.status ≠ .tombstone ∧ u.standing = s) ↔
      a ≠ env.whoami ∧ ∃ u, Newest (updates.filter fun c => c.address = a) u ∧
        u.status ≠ .tombstone ∧ u.standing = s := by
    by_cases remote : a = env.whoami
    · refine iff_of_false ?_ fun h => h.1 remote
      rintro ⟨u, member, rfl, -⟩
      exact (merge_address _ (mem_mergeMembershipChangesets.mp member)).2 remote
    · simp only [newest_iff_merged remote, ← flat, ← merged_about, and_assoc, ne_eq, remote,
        not_false_iff, true_and]
  rw [afterJoin, update_stash, joining.stash]
  cases updates with
  | nil =>
    rw [← merged [] rfl]
    simp [set, mergeMembershipChangesets, objectKeys, view, findMemberByAddress]
  | cons u updates =>
    have stashed : ((u :: updates).map fun v => (v, tick)).map Prod.fst = u :: updates := by
      rw [List.map_map]
      exact List.map_id _
    obtain ⟨-, -, view', -⟩ := WellFormed.set
      (m := { m with stashedUpdates := some [u :: updates] }) { joining.wellFormed with }
      (List.cons_ne_nil _ []) rfl joining.unknown
    have stash : (some ([] : List (List Update))).map (fun stashed => stashed ++
        if (u :: updates).map (fun v => (v, tick)) = [] then []
        else [((u :: updates).map fun v => (v, tick)).map Prod.fst]) = some [u :: updates] := by
      rw [stashed]
      simp
    rw [stash, ← merged [u :: updates] (by simp)]
    exact view' a s

end Membership

/-- The responses carry the checksums of their own members, and the hash function tells
their checksum strings apart. -/
structure Checksummed (env : Env) (responses : List JoinResponse) : Prop where
  checksum : ∀ r ∈ responses,
    r.checksum = some (env.hashFunc (Membership.checksumString r.entries))
  noCollision : ∀ r ∈ responses, ∀ r' ∈ responses,
    env.hashFunc (Membership.checksumString r.entries) =
      env.hashFunc (Membership.checksumString r'.entries) →
    Membership.checksumString r.entries = Membership.checksumString r'.entries
  distinct : ∀ r ∈ responses, (r.members.map Update.address).Nodup
  plain : ∀ r ∈ responses, Membership.Plain r.entries

section
variable {env : Env} {m : Membership} {responses : List JoinResponse}

/-- Equal checksums: two responses list the same members but for tombstones. -/
theorem Checksummed.agree (sums : Checksummed env responses) {r r' : JoinResponse}
    (hr : r ∈ responses) (hr' : r' ∈ responses) (equal : r.checksum = r'.checksum)
    (a : Address) (s : Standing) (kept : s.status ≠ .tombstone) :
    (a, s) ∈ r.entries ↔ (a, s) ∈ r'.entries := by
  rw [sums.checksum r hr, sums.checksum r' hr', Option.some.injEq] at equal
  have keys (r : JoinResponse) : r.entries.map Prod.fst = r.members.map Update.address := by
    rw [JoinResponse.entries, List.map_map]
    rfl
  have distinct (r : JoinResponse) (hr : r ∈ responses) : (r.entries.map Prod.fst).Nodup := by
    rw [keys]
    exact sums.distinct r hr
  exact (Membership.checksumString_eq_iff (distinct r hr) (distinct r' hr') (sums.plain r hr)
    (sums.plain r' hr')).mp (sums.noCollision r hr r' hr' equal) a s kept

/-- One response tells of a member what the merge of all tells. -/
theorem Checksummed.newest_iff (sums : Checksummed env responses)
    (equal : ∀ r ∈ responses, ∀ r' ∈ responses, r.checksum = r'.checksum)
    {first : JoinResponse} (hf : first ∈ responses) (a : Address) (s : Standing)
    (kept : s.status ≠ .tombstone) :
    (∃ u, Newest ((responses.flatMap JoinResponse.members).filter fun c => c.address = a) u ∧
      u.standing = s) ↔ (a, s) ∈ first.entries := by
  have told (u : Update) (about : u ∈ (responses.flatMap JoinResponse.members).filter
      fun c => c.address = a) : ∃ r ∈ responses, u ∈ r.members ∧ u.address = a := by
    obtain ⟨member, address⟩ := List.mem_filter.mp about
    obtain ⟨r, hr, hu⟩ := List.mem_flatMap.mp member
    exact ⟨r, hr, hu, by simpa using address⟩
  constructor
  · rintro ⟨u, newest, rfl⟩
    obtain ⟨r, hr, hu, rfl⟩ := told u newest.mem
    refine (sums.agree hf hr (equal _ hf _ hr) _ _ kept).mpr ?_
    exact JoinResponse.mem_entries.mpr ⟨u, hu, rfl, rfl⟩
  · intro listed
    obtain ⟨v, hv, rfl, rfl⟩ := JoinResponse.mem_entries.mp listed
    have nonempty : (responses.flatMap JoinResponse.members).filter
        (fun c => c.address = v.address) ≠ [] :=
      List.ne_nil_of_mem (List.mem_filter.mpr ⟨List.mem_flatMap.mpr ⟨first, hf, hv⟩, by simp⟩)
    obtain ⟨u, newest⟩ := Membership.newest_exists nonempty
    obtain ⟨r, hr, hu, address⟩ := told u newest.mem
    -- the response that tells the newest also tells what the first tells, and nothing else
    have also := (sums.agree hf hr (equal _ hf _ hr) _ _ kept).mp listed
    obtain ⟨v', hv', address', standing⟩ := JoinResponse.mem_entries.mp also
    have same : u = v' := List.inj_on_of_nodup_map (sums.distinct r hr) hu hv'
      (address.trans address'.symm)
    exact ⟨u, newest, by rw [same, standing]⟩

theorem newest_merged {changesets : List (List Update)} {a : Address} {u : Update}
    (remote : a ≠ env.whoami) :
    Newest ((mergeMembershipChangesets env.whoami changesets).filter fun c => c.address = a) u ↔
      Newest (changesets.flatten.filter fun c => c.address = a) u := by
  rw [newest_of_distinct (nodup_mergeMembershipChangesets env.whoami changesets), merged_about,
    newest_iff_merged remote]

theorem Checksummed.view_first (sums : Checksummed env responses)
    (joining : Membership.Joining env m) (tick : Tick)
    (equal : ∀ r ∈ responses, ∀ r' ∈ responses, r.checksum = r'.checksum)
    {first : JoinResponse} (hf : first ∈ responses) (a : Address) :
    (Membership.afterJoin env tick m first.members).view a =
      (Membership.afterJoin env tick m
        (mergeMembershipChangesets env.whoami (responses.map JoinResponse.members))).view a := by
  refine Option.ext fun s => ?_
  rw [joining.view_afterJoin, joining.view_afterJoin]
  refine or_congr_right (and_congr_right fun remote => ?_)
  have distinct := List.pairwise_map.mp (sums.distinct first hf)
  have newest := sums.newest_iff equal hf a s
  simp only [newest_merged remote, ← List.flatMap_def, newest_of_distinct distinct]
  constructor
  · rintro ⟨u, ⟨hu, address⟩, kept, rfl⟩
    obtain ⟨v, newest, standing⟩ := (newest kept).mpr
      (JoinResponse.mem_entries.mpr ⟨u, hu, address, rfl⟩)
    have status : v.status = u.status := congrArg Standing.status standing
    exact ⟨v, newest, by rwa [status], standing⟩
  · rintro ⟨u, newest', kept, rfl⟩
    obtain ⟨v, hv, address, standing⟩ := JoinResponse.mem_entries.mp
      ((newest kept).mp ⟨u, newest', rfl⟩)
    have status : v.status = u.status := congrArg Standing.status standing
    exact ⟨v, ⟨hv, address⟩, by rwa [status], standing⟩

/-- The shortcut and the merge of all responses put the same members into the list. -/
theorem mergeJoinResponses_shortcut (joining : Membership.Joining env m) (tick : Tick)
    (sums : Checksummed env responses)
    (equal : ∀ r ∈ responses, ∀ r' ∈ responses, r.checksum = r'.checksum) (a : Address) :
    (Membership.afterJoin env tick m (mergeJoinResponses env.whoami (some responses))).view a =
      (Membership.afterJoin env tick m
        (mergeMembershipChangesets env.whoami (responses.map JoinResponse.members))).view a ∧
    ∀ first ∈ responses.head?, (Membership.afterJoin env tick m first.members).view a =
      (Membership.afterJoin env tick m
        (mergeMembershipChangesets env.whoami (responses.map JoinResponse.members))).view a := by
  cases responses with
  | nil =>
    exact ⟨rfl, fun first hf => by cases hf⟩
  | cons first rest =>
    have shortcut := sums.view_first joining tick equal List.mem_cons_self a
    refine ⟨?_, fun r hr => ?_⟩
    · rw [mergeJoinResponses]
      split
      · exact shortcut
      · rfl
    · obtain rfl := Option.some.inj hr
      exact shortcut

theorem mergeJoinResponses_shortcut_tombstones :
    let env := Env.sample (.of "a:1" (by decide))
    let b := Address.of "b:1" (by decide)
    let c := Address.of "c:1" (by decide)
    let tick : Tick := ⟨7, [], 0⟩
    let m := (Membership.makeLocalAlive env tick (.new env)).1
    let alive : Update := ⟨b, .alive, 12, none, none, none⟩
    let tombstone : Update := ⟨c, .tombstone, 5, none, none, none⟩
    let self : Update := ⟨env.whoami, .tombstone, 3, none, none, none⟩
    -- the checksum is the length of `b:1alive12`
    let responses : List JoinResponse :=
      [⟨some 10, [alive]⟩, ⟨some 10, [tombstone, alive, self]⟩]
    hasSameChecksums (-1) responses = true ∧
      (Membership.afterJoin env tick m (mergeJoinResponses env.whoami (some responses))).view b =
        (Membership.afterJoin env tick m
          (mergeMembershipChangesets env.whoami (responses.map JoinResponse.members))).view b := by
  intro env b c tick m alive tombstone self responses
  have joining : Membership.Joining env m := by
    obtain ⟨w, -, view, -⟩ := (Membership.wellFormed_new env).setLocalStatus tick .alive
    exact ⟨w, fun a ha => (view a).trans (if_neg ha), rfl⟩
  have sums : Checksummed env responses :=
    ⟨by decide, by decide, by decide, by decide⟩
  exact ⟨by decide, (mergeJoinResponses_shortcut joining tick sums (by decide) b).1⟩

end
end Ringpop.Members
