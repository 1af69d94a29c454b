import Ringpop.Joiner
import Mathlib.Data.List.Perm.Basic
import Mathlib.Data.List.Perm.Subperm
import Mathlib.Data.List.Nodup
import Mathlib.Tactic.Positivity

/-! What `selectGroup` can pick, and the supply of hosts that it is picked from. With a
host listed twice, a group can hold it twice or a later one can hold it again. -/
namespace Ringpop.Members
open JsString

/-- The nodes of a selection, the preferred ones first, and the nodes that are left, when
`start` nodes are in the group at the start and `finish` at the end. -/
structure Selected (limit : ℚ) (start finish : ℕ)
    (preferred nonPreferred taken others left right : List Str) : Prop where
  preferred : preferred.Perm (taken ++ left)
  nonPreferred : nonPreferred.Perm (others ++ right)
  ordered : others = [] ∨ left = []
  length : finish = start + taken.length + others.length
  stops : (finish : ℚ) = limit ∨ left = [] ∧ right = []
  below : ∀ n, start ≤ n → n < finish → (n : ℚ) ≠ limit

section
variable {limit : ℚ} {start finish : ℕ}
  {preferred nonPreferred taken others left right rest : List Str} {host : Str}

theorem selected_nothing (stops : (start : ℚ) = limit ∨ preferred = [] ∧ nonPreferred = []) :
    Selected limit start start preferred nonPreferred [] [] preferred nonPreferred where
  preferred := .refl _
  nonPreferred := .refl _
  ordered := .inl rfl
  length := rfl
  stops := stops
  below _ h h' := absurd h h'.not_ge

theorem Selected.below_start (selected : Selected limit (start + 1) finish preferred nonPreferred
    taken others left right) (room : (start : ℚ) ≠ limit) (n : ℕ) (h : start ≤ n)
    (h' : n < finish) : (n : ℚ) ≠ limit := by
  rcases h.eq_or_lt with rfl | later
  · exact room
  · exact selected.below n later h'

theorem Selected.prefer (selected : Selected limit (start + 1) finish rest nonPreferred
    taken others left right) (room : (start : ℚ) ≠ limit) (perm : preferred.Perm (host :: rest)) :
    Selected limit start finish preferred nonPreferred (host :: taken) others left right where
  preferred := perm.trans (selected.preferred.cons host)
  nonPreferred := selected.nonPreferred
  ordered := selected.ordered
  length := by
    rw [selected.length, List.length_cons]
    omega
  stops := selected.stops
  below := selected.below_start room

theorem Selected.fallBack (selected : Selected limit (start + 1) finish [] rest
    taken others left right) (room : (start : ℚ) ≠ limit)
    (perm : nonPreferred.Perm (host :: rest)) :
    Selected limit start finish [] nonPreferred taken (host :: others) left right where
  preferred := selected.preferred
  nonPreferred := perm.trans (selected.nonPreferred.cons host)
  ordered := .inr (List.append_eq_nil_iff.mp selected.preferred.symm.eq_nil).2
  length := by
    rw [selected.length, List.length_cons]
    omega
  stops := selected.stops
  below := selected.below_start room

end

theorem takeNode_some (random : ℕ) {hosts : List Str} (some : hosts.length > 0) :
    ∃ host rest, takeNode random hosts = (Option.some host, rest) ∧
      hosts.Perm (host :: rest) := by
  have inside : random % hosts.length < hosts.length := Nat.mod_lt _ some
  refine ⟨hosts[random % hosts.length], hosts.eraseIdx (random % hosts.length), ?_, ?_⟩
  · simp only [takeNode, List.getElem?_eq_getElem inside]
  · exact (List.getElem_cons_eraseIdx_perm inside).symm

theorem selectNodes_selected (limit : ℚ) (random : ℕ → ℕ) {available : ℕ}
    (group preferred nonPreferred : List Str)
    (all : preferred.length + nonPreferred.length = available) :
    let result := selectNodes limit random available group preferred nonPreferred
    ∃ taken others, result.1 = group ++ (taken ++ others) ∧
      Selected limit group.length result.1.length preferred nonPreferred taken others
        result.2.1 result.2.2 := by
  induction available generalizing group preferred nonPreferred with
  | zero =>
    have none : preferred = [] ∧ nonPreferred = [] := by
      constructor <;> refine List.length_eq_zero_iff.mp ?_ <;> omega
    exact ⟨[], [], by simp [selectNodes], selected_nothing (.inr none)⟩
  | succ available ih =>
    rw [selectNodes]
    split
    case isTrue full => exact ⟨[], [], by simp, selected_nothing (.inl full)⟩
    case isFalse room =>
      split
      case isTrue some =>
        obtain ⟨host, rest, take, perm⟩ := takeNode_some (random group.length) some
        have length := perm.length_eq
        rw [List.length_cons] at length
        obtain ⟨taken, others, result, selected⟩ :=
          ih (group ++ [host]) rest nonPreferred (by omega)
        simp only [take, Option.toList_some]
        rw [List.length_append, List.length_singleton] at selected
        exact ⟨host :: taken, others, by simp [result], selected.prefer room perm⟩
      case isFalse none =>
        obtain rfl : preferred = [] := List.length_eq_zero_iff.mp (Nat.eq_zero_of_not_pos none)
        rw [List.length_nil] at all
        have some : nonPreferred.length > 0 := by omega
        obtain ⟨host, rest, take, perm⟩ := takeNode_some (random group.length) some
        have length := perm.length_eq
        rw [List.length_cons] at length
        obtain ⟨taken, others, result, selected⟩ :=
          ih (group ++ [host]) [] rest (by rw [List.length_nil]; omega)
        simp only [if_pos some, take, Option.toList_some]
        rw [List.length_append, List.length_singleton] at selected
        obtain rfl : taken = [] := (List.append_eq_nil_iff.mp selected.preferred.symm.eq_nil).1
        exact ⟨[], host :: others, by simp [result], selected.fallBack room perm⟩

/-- Two nodes of this host are left for two groups that each need one more. -/
def Paired (parallelismFactor : ℚ) (preferred nonPreferred : List Str) : Prop :=
  preferred.Nodup ∧ ∃ host factor : _, host ∉ preferred ∧ nonPreferred = [host, host] ∧
    parallelismFactor = (factor : ℕ) ∧ factor ∣ preferred.length + 1

/-- The hosts of a round that can be selected from: all distinct and not yet joined, or
met one by one when one host is enough. -/
def Supply (joinSize : ℕ) (parallelismFactor : ℚ) (nodesJoined preferred nonPreferred : List Str) :
    Prop :=
  (nodesJoined ++ (preferred ++ nonPreferred)).Nodup ∨
    joinSize = 1 ∧ nodesJoined = [] ∧
      (parallelismFactor = 1 ∨ Paired parallelismFactor preferred nonPreferred)

section
variable {joinSize : ℕ} {parallelismFactor : ℚ} {nodesJoined preferred nonPreferred taken others
  left right : List Str}

/-- A group from a supply, and the supply that is left when it has not been enough. -/
structure Supplied (joinSize : ℕ) (parallelismFactor : ℚ)
    (nodesJoined group left right : List Str) : Prop where
  some : group ≠ []
  nodup : group.Nodup
  new : ∀ host ∈ group, host ∉ nodesJoined
  supply : ∀ successes, successes.Subperm group →
    nodesJoined.length + successes.length < joinSize →
    Supply joinSize parallelismFactor (nodesJoined ++ successes) left right

theorem Selected.nonempty {limit : ℚ} {finish : ℕ}
    (selected : Selected limit 0 finish preferred nonPreferred taken others left right)
    (positive : 0 < limit) (available : preferred ≠ [] ∨ nonPreferred ≠ []) :
    taken ++ others ≠ [] := by
  intro none
  obtain ⟨rfl, rfl⟩ := List.append_eq_nil_iff.mp none
  have zero : finish = 0 := selected.length
  rcases selected.stops with full | ⟨rfl, rfl⟩
  · rw [zero, Nat.cast_zero] at full
    exact positive.ne full
  · have noPreferred : preferred = [] := selected.preferred.eq_nil
    have noOther : nonPreferred = [] := selected.nonPreferred.eq_nil
    exact available.elim (· noPreferred) (· noOther)

theorem Selected.perm {limit : ℚ} {start finish : ℕ}
    (selected : Selected limit start finish preferred nonPreferred taken others left right) :
    (preferred ++ nonPreferred).Perm ((taken ++ others) ++ (left ++ right)) := by
  refine (selected.preferred.append selected.nonPreferred).trans ?_
  rw [List.append_assoc, List.append_assoc]
  refine List.Perm.append_left taken ?_
  rw [← List.append_assoc, ← List.append_assoc]
  exact List.perm_append_comm.append_right right

/-- From distinct hosts. -/
theorem Selected.supplied_distinct {limit : ℚ} {finish : ℕ}
    (selected : Selected limit 0 finish preferred nonPreferred taken others left right)
    (some : taken ++ others ≠ [])
    (nodup : (nodesJoined ++ (preferred ++ nonPreferred)).Nodup) :
    Supplied joinSize parallelismFactor nodesJoined (taken ++ others) left right := by
  have all := ((selected.perm.append_left nodesJoined).nodup_iff).mp nodup
  obtain ⟨-, inner, apart⟩ := List.nodup_append.mp all
  refine ⟨some, (List.nodup_append.mp inner).1, fun host here joined => ?_,
    fun successes part _ => .inl ?_⟩
  · exact apart host joined host (List.mem_append_left _ here) rfl
  · have kept : ((nodesJoined ++ successes) ++ (left ++ right)).Subperm
        (nodesJoined ++ ((taken ++ others) ++ (left ++ right))) := by
      rw [List.append_assoc]
      exact (List.subperm_append_left _).mpr ((List.subperm_append_right _).mpr part)
    obtain ⟨_, same, sublist⟩ := kept
    exact same.nodup_iff.mp (all.sublist sublist)

theorem Selected.finish_le {limit finish : ℕ} (selected : Selected limit 0 finish preferred
    nonPreferred taken others left right) : finish ≤ limit := by
  by_contra more
  exact selected.below limit limit.zero_le (not_le.mp more) rfl

/-- With one host to join, no success leaves another group to come. -/
theorem supply_first {successes : List Str} (few : ([] : List Str).length + successes.length < 1)
    (supply : Supply 1 parallelismFactor [] left right) :
    Supply 1 parallelismFactor ([] ++ successes) left right := by
  obtain rfl : successes = [] := List.length_eq_zero_iff.mp (by simpa using few)
  exact supply

/-- Hosts that are tried one by one. -/
theorem Selected.supplied_single {finish : ℕ} (selected : Selected (1 : ℕ) 0 finish preferred
    nonPreferred taken others left right) (some : taken ++ others ≠ []) :
    Supplied 1 1 [] (taken ++ others) left right where
  some := some
  nodup := by
    have few : (taken ++ others).length ≤ 1 := by
      have := selected.finish_le
      rw [selected.length] at this
      rw [List.length_append]
      omega
    exact List.nodup_iff_count_le_one.mpr fun host => List.count_le_length.trans few
  new _ _ := List.not_mem_nil
  supply _ _ few := supply_first few (.inr ⟨rfl, rfl, .inl rfl⟩)

/-- The two nodes of one host come into different groups. -/
theorem Selected.supplied_paired {limit finish : ℕ} (selected : Selected limit 0 finish preferred
    nonPreferred taken others left right) (some : taken ++ others ≠ [])
    (paired : Paired limit preferred nonPreferred) :
    Supplied 1 limit [] (taken ++ others) left right := by
  obtain ⟨nodup, host, factor, absent, rfl, same, divides⟩ := paired
  obtain rfl : limit = factor := Nat.cast_injective same
  have length := selected.preferred.length_eq
  have few := selected.finish_le
  rw [List.length_append] at length
  rw [selected.length] at few
  have distinct := selected.preferred.nodup_iff.mp nodup
  have pair : others ++ right = [host, host] :=
    List.perm_replicate (n := 2).mp selected.nonPreferred.symm
  rcases others with _ | ⟨first, more⟩
  case nil =>
    have full : taken.length = limit := by
      rcases selected.stops with full | ⟨-, rfl⟩
      · have := Nat.cast_injective full
        rw [selected.length] at this
        simpa using this
      · cases pair
    rw [List.append_nil] at some ⊢
    refine ⟨some, (List.nodup_append.mp distinct).1, fun _ _ => List.not_mem_nil,
      fun _ _ few => supply_first few (.inr ⟨rfl, rfl, .inr ?_⟩)⟩
    refine ⟨(List.nodup_append.mp distinct).2.1, host, limit, fun h => ?_, pair, rfl, ?_⟩
    · exact absent (selected.preferred.mem_iff.mpr (List.mem_append_right _ h))
    · rw [length, full, add_assoc] at divides
      exact (Nat.dvd_add_right (dvd_refl limit)).mp divides
  case cons =>
    obtain rfl : left = [] := selected.ordered.resolve_left (List.cons_ne_nil first more)
    rw [List.append_nil] at distinct
    rw [length, List.length_nil] at divides
    have last := Nat.le_of_dvd (Nat.succ_pos _) divides
    rw [List.length_cons] at few
    obtain rfl : more = [] := List.length_eq_zero_iff.mp (by omega)
    obtain ⟨rfl, rest⟩ := List.cons_eq_cons.mp pair
    obtain rfl : right = [first] := rest
    refine ⟨some, ?_, fun _ _ => List.not_mem_nil,
      fun _ _ few => supply_first few (.inl (List.nodup_singleton first))⟩
    refine List.nodup_append.mpr ⟨distinct, List.nodup_singleton first, fun a ha b hb same => ?_⟩
    obtain rfl := List.mem_singleton.mp hb
    exact absent (selected.preferred.mem_iff.mpr (by simpa [← same] using ha))

/-- A group is selected when there are hosts to select from. -/
theorem Supply.supplied
    (supply : Supply joinSize parallelismFactor nodesJoined preferred nonPreferred)
    (available : preferred ≠ [] ∨ nonPreferred ≠ []) (parallel : 1 ≤ parallelismFactor)
    (needed : nodesJoined.length < joinSize) (random : ℕ → ℕ) {limit : ℚ}
    (needs : limit = ((joinSize - nodesJoined.length : ℤ) : ℚ) * parallelismFactor) :
    let result := selectNodes limit random (preferred.length + nonPreferred.length) []
      preferred nonPreferred
    Supplied joinSize parallelismFactor nodesJoined result.1 result.2.1 result.2.2 ∧
      (preferred ++ nonPreferred).Perm (result.1 ++ (result.2.1 ++ result.2.2)) := by
  obtain ⟨taken, others, group, selected⟩ :=
    selectNodes_selected limit random [] preferred nonPreferred rfl
  intro result
  change result.1 = taken ++ others at group
  rw [group]
  refine ⟨?_, selected.perm⟩
  have left : (1 : ℚ) ≤ ((joinSize - nodesJoined.length : ℤ) : ℚ) := by
    exact_mod_cast (by omega : (1 : ℤ) ≤ joinSize - nodesJoined.length)
  have some := selected.nonempty (by rw [needs]; positivity) available
  rcases supply with nodup | ⟨rfl, rfl, single | paired⟩
  · exact selected.supplied_distinct some nodup
  · obtain rfl : limit = (1 : ℕ) := by simp [needs, single]
    exact single ▸ selected.supplied_single some
  · obtain ⟨nodup, host, factor, absent, pair, rfl, divides⟩ := paired
    obtain rfl : limit = factor := by simp [needs]
    exact selected.supplied_paired some ⟨nodup, host, factor, absent, pair, rfl, divides⟩

end

/-- The hosts that a node can join. -/
def JoinEnv.others (env : JoinEnv) : List Str :=
  env.bootstrapHosts.filter fun hostPort => env.hostPort.name ≠ hostPort

def JoinEnv.isFar (env : JoinEnv) (hostPort : Str) : Bool :=
  captureHost env.hostPort.name ≠ captureHost hostPort

/-- A bootstrap list that a node can join with; the constructor refuses an empty one. -/
structure Joinable (env : JoinEnv) (options : JoinerOptions) : Prop where
  another : env.bootstrapHosts ≠ [] → env.others ≠ []
  distinct : env.others.Nodup ∨ options.joinSize.getD 3 = 1 ∧
    (options.parallelismFactor.getD 2 = 1 ∨ Paired (options.parallelismFactor.getD 2)
      (env.others.filter env.isFar) (env.others.filter fun hostPort => !env.isFar hostPort))

theorem mem_others {env : JoinEnv} {hostPort : Str} :
    hostPort ∈ env.others ↔ hostPort ∈ env.bootstrapHosts ∧ env.hostPort.name ≠ hostPort := by
  simp [JoinEnv.others]

namespace Joiner
variable {env : JoinEnv} {j : Joiner}

theorem collectPotentialNodes_eq (env : JoinEnv) (nodesJoined : List Str) :
    collectPotentialNodes env nodesJoined =
      env.others.filter fun hostPort => hostPort ∉ nodesJoined := by
  rw [collectPotentialNodes, JoinEnv.others, List.filter_filter]
  refine List.filter_congr fun hostPort _ => ?_
  rw [Bool.eq_iff_iff]
  simp [and_comm]

/-- A round has the far hosts and the near ones. -/
theorem init_rounds (env : JoinEnv) (j : Joiner) (nodesJoined : List Str) :
    let potentialNodes := env.others.filter fun hostPort => hostPort ∉ nodesJoined
    (j.init env nodesJoined).roundPreferredNodes = potentialNodes.filter env.isFar ∧
      (j.init env nodesJoined).roundNonPreferredNodes =
        potentialNodes.filter fun hostPort => !env.isFar hostPort := by
  intro potentialNodes
  have far : (j.init env nodesJoined).roundPreferredNodes = potentialNodes.filter env.isFar := by
    simp only [init, collectPreferredNodes, collectPotentialNodes_eq]
    rfl
  refine ⟨far, ?_⟩
  have near : (j.init env nodesJoined).roundNonPreferredNodes =
      if (j.init env nodesJoined).roundPreferredNodes = [] then potentialNodes
      else potentialNodes.filter fun hostPort =>
        !(j.init env nodesJoined).roundPreferredNodes.contains hostPort := by
    simp only [init, collectNonPreferredNodes, collectPotentialNodes_eq]
    rfl
  rw [near, far]
  split
  case isTrue none =>
    refine (List.filter_eq_self.mpr fun hostPort listed => ?_).symm
    simpa using List.filter_eq_nil_iff.mp none hostPort listed
  case isFalse =>
    refine List.filter_congr fun hostPort listed => ?_
    simp [listed]

theorem init_perm (env : JoinEnv) (j : Joiner) (nodesJoined : List Str) :
    ((j.init env nodesJoined).roundPreferredNodes ++
      (j.init env nodesJoined).roundNonPreferredNodes).Perm
        (env.others.filter fun hostPort => hostPort ∉ nodesJoined) := by
  obtain ⟨far, near⟩ := init_rounds env j nodesJoined
  rw [far, near]
  exact List.filter_append_perm env.isFar _

/-- While hosts are missing, a new round has a supply of them. -/
theorem init_supply {options : JoinerOptions} (joinable : Joinable env options)
    {nodesJoined : List Str} (nodup : nodesJoined.Nodup)
    (joined : ∀ hostPort ∈ nodesJoined, hostPort ∈ env.others)
    (few : nodesJoined.length < min (options.joinSize.getD 3) env.others.length) :
    Supply (min (options.joinSize.getD 3) env.others.length)
        (options.parallelismFactor.getD 2) nodesJoined
        (j.init env nodesJoined).roundPreferredNodes
        (j.init env nodesJoined).roundNonPreferredNodes ∧
      ((j.init env nodesJoined).roundPreferredNodes ≠ [] ∨
        (j.init env nodesJoined).roundNonPreferredNodes ≠ []) := by
  have perm := init_perm env j nodesJoined
  have available (some : (env.others.filter fun hostPort => hostPort ∉ nodesJoined) ≠ []) :
      (j.init env nodesJoined).roundPreferredNodes ≠ [] ∨
        (j.init env nodesJoined).roundNonPreferredNodes ≠ [] := by
    by_contra none
    simp only [not_or, not_not] at none
    rw [none.1, none.2] at perm
    exact some perm.symm.eq_nil
  obtain ⟨wanted, listed⟩ := lt_min_iff.mp few
  rcases joinable.distinct with distinct | ⟨one, tried⟩
  case inl =>
    refine ⟨.inl ?_, available fun none => ?_⟩
    · refine (perm.append_left nodesJoined).nodup_iff.mpr (List.nodup_append.mpr
        ⟨nodup, distinct.filter _, fun a ha b hb same => ?_⟩)
      simp [← same, ha] at hb
    · have covered : env.others ⊆ nodesJoined := fun hostPort here => by
        simpa using List.filter_eq_nil_iff.mp none hostPort here
      exact listed.not_ge (distinct.subperm covered).length_le
  case inr =>
    rw [one] at wanted ⊢
    obtain rfl : nodesJoined = [] := List.length_eq_zero_iff.mp (by omega)
    obtain ⟨far, near⟩ := init_rounds env j []
    have whole : (env.others.filter fun hostPort => hostPort ∉ ([] : List Str)) = env.others := by
      simp
    rw [whole] at far near available
    refine ⟨.inr ⟨min_eq_left (Nat.succ_le_of_lt (by simpa using listed)), rfl, ?_⟩,
      available fun none => ?_⟩
    · rw [far, near]
      exact tried
    · rw [none] at listed
      exact absurd listed (by simp)

/-- A selection that keeps to the hosts that can be joined. -/
structure Selects (env : JoinEnv) (j : Joiner) (nodesJoined : List Str)
    (result : List Str × Joiner) : Prop where
  supplied : Supplied j.joinSize j.parallelismFactor nodesJoined result.1
    result.2.roundPreferredNodes result.2.roundNonPreferredNodes
  group : ∀ hostPort ∈ result.1, hostPort ∈ env.others
  rounds : ∀ hostPort ∈ result.2.roundPreferredNodes ++ result.2.roundNonPreferredNodes,
    hostPort ∈ env.others
  joinSize : result.2.joinSize = j.joinSize
  parallelismFactor : result.2.parallelismFactor = j.parallelismFactor

theorem selects_select {nodesJoined : List Str} (parallel : 1 ≤ j.parallelismFactor)
    (few : nodesJoined.length < j.joinSize)
    (rounds : ∀ hostPort ∈ j.roundPreferredNodes ++ j.roundNonPreferredNodes,
      hostPort ∈ env.others)
    (supply : Supply j.joinSize j.parallelismFactor nodesJoined j.roundPreferredNodes
      j.roundNonPreferredNodes)
    (available : j.roundPreferredNodes ≠ [] ∨ j.roundNonPreferredNodes ≠ []) (draw : JoinDraw) :
    Selects env j nodesJoined (j.select draw nodesJoined) := by
  obtain ⟨supplied, perm⟩ := supply.supplied available parallel few draw.random rfl
  refine ⟨supplied, fun hostPort here => rounds _ (perm.mem_iff.mpr ?_),
    fun hostPort here => rounds _ (perm.mem_iff.mpr ?_), rfl, rfl⟩
  · exact List.mem_append_left _ here
  · exact List.mem_append_right _ here

/-- Every call of `selectGroup` while hosts are missing. -/
theorem selects_selectGroup {options : JoinerOptions} (joinable : Joinable env options)
    (size : j.joinSize = min (options.joinSize.getD 3) env.others.length)
    (factor : j.parallelismFactor = options.parallelismFactor.getD 2)
    (parallel : 1 ≤ j.parallelismFactor) {nodesJoined : List Str} (nodup : nodesJoined.Nodup)
    (joined : ∀ hostPort ∈ nodesJoined, hostPort ∈ env.others)
    (few : nodesJoined.length < j.joinSize)
    (rounds : ∀ hostPort ∈ j.roundPreferredNodes ++ j.roundNonPreferredNodes,
      hostPort ∈ env.others)
    (supply : Supply j.joinSize j.parallelismFactor nodesJoined j.roundPreferredNodes
      j.roundNonPreferredNodes) (draw : JoinDraw) :
    Selects env j nodesJoined (j.selectGroup env draw nodesJoined) := by
  rw [selectGroup]
  split
  case isTrue =>
    rw [size] at few
    obtain ⟨supply, available⟩ := init_supply (j := j) joinable nodup joined few
    rw [← size, ← factor] at supply
    rw [← size] at few
    have listed (hostPort : Str) (here : hostPort ∈ (j.init env nodesJoined).roundPreferredNodes ++
        (j.init env nodesJoined).roundNonPreferredNodes) : hostPort ∈ env.others :=
      List.mem_of_mem_filter ((init_perm env j nodesJoined).mem_iff.mp here)
    have selects := selects_select (j := j.init env nodesJoined) parallel few listed supply
      available draw
    exact ⟨selects.supplied, selects.group, selects.rounds, selects.joinSize,
      selects.parallelismFactor⟩
  case isFalse more =>
    exact selects_select parallel few rounds supply (not_and_or.mp more) draw

end Joiner
end Ringpop.Members
