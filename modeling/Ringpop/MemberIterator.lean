import Ringpop.MembershipIndex
import Ringpop.Turns

/-! `lib/membership/iterator.js`: members are probed in the order of the list, which is
shuffled at its end. A call visits what is left of the round and at most one round more. -/
namespace Ringpop.Members
open JsString Dictionary Turns

structure MembershipIterator where
  currentIndex : ℤ
  currentRound : ℕ
  /-- one before the first member at the earliest -/
  started : -1 ≤ currentIndex

namespace Membership

def getMemberCount (m : Membership) : ℕ := m.members.length

def getMemberAt (m : Membership) (index : ℤ) : Option ℕ :=
  if index < 0 then none else m.members[index.toNat]?

def isPingable (env : Env) (member : Member) : Bool :=
  decide (member.address ≠ env.whoami) && isStatusPingable member.status

end Membership

namespace MembershipIterator

def new : MembershipIterator := ⟨-1, 0, le_rfl⟩

/-- `shuffles` has the order that the shuffle at the end of each round picks. -/
def advance (shuffles : ℕ → List ℕ) (it : MembershipIterator) (m : Membership) :
    MembershipIterator × Membership :=
  if it.currentIndex + 1 ≥ m.getMemberCount then
    (⟨0, it.currentRound + 1, by omega⟩, m.shuffle (shuffles it.currentRound))
  else (⟨it.currentIndex + 1, it.currentRound, by have := it.started; omega⟩, m)

variable (env : Env) (shuffles : ℕ → List ℕ)

/-- The `while` loop; the fuel is the number of members that may be visited. Without a
member at the index, `member.address` throws. -/
def nextLoop (maxMembersToVisit : ℕ) : ℕ → MembershipIterator → Membership →
    Dict Address Unit → Option (Option ℕ × MembershipIterator × Membership)
  | 0, _, _, _ => none
  | fuel + 1, it, m, membersVisited =>
    if (objectKeys membersVisited).length < maxMembersToVisit then
      let (it, m) := it.advance shuffles m
      match m.getMemberAt it.currentIndex with
      | none => none
      | some member =>
        let membersVisited := membersVisited.set (m.heap member).address ()
        if Membership.isPingable env (m.heap member) then some (some member, it, m)
        else nextLoop maxMembersToVisit fuel it m membersVisited
    else some (none, it, m)

def next (fuel : ℕ) (it : MembershipIterator) (m : Membership) :
    Option (Option ℕ × MembershipIterator × Membership) :=
  nextLoop env shuffles m.getMemberCount fuel it m .empty

/-- Consecutive calls, with what they return. -/
def calls (fuel : ℕ) : ℕ → MembershipIterator → Membership → Option (List (Option ℕ))
  | 0, _, _ => some []
  | n + 1, it, m => do
    let (result, it, m) ← it.next env shuffles fuel m
    let results ← calls fuel n it m
    return result :: results

variable {env : Env} {shuffles : ℕ → List ℕ} {m : Membership} {it : MembershipIterator}

/-- What is left of the round. -/
def ahead (it : MembershipIterator) (m : Membership) : List ℕ :=
  m.members.drop (it.currentIndex + 1).toNat

def pingables (env : Env) (m : Membership) (l : List ℕ) : List ℕ :=
  l.filter fun r => Membership.isPingable env (m.heap r)

theorem pingables_cons_pos {r : ℕ} {l : List ℕ}
    (pingable : Membership.isPingable env (m.heap r) = true) :
    pingables env m (r :: l) = r :: pingables env m l :=
  List.filter_cons_of_pos (p := fun r => Membership.isPingable env (m.heap r)) pingable

theorem pingables_cons_neg {r : ℕ} {l : List ℕ}
    (skipped : Membership.isPingable env (m.heap r) = false) :
    pingables env m (r :: l) = pingables env m l :=
  List.filter_cons_of_neg (by simp [skipped])

/-- Only members have been visited, and none that can be pinged. -/
def Visiting (env : Env) (m : Membership) (membersVisited : Dict Address Unit) : Prop :=
  ∀ a, membersVisited.has a = true →
    ∃ r ∈ m.members, (m.heap r).address = a ∧ Membership.isPingable env (m.heap r) = false

def AllVisited (m : Membership) (membersVisited : Dict Address Unit) : Prop :=
  ∀ r ∈ m.members, membersVisited.has (m.heap r).address = true

theorem isPingable_iff {member : Member} :
    Membership.isPingable env member = true ↔
      member.address ≠ env.whoami ∧ (member.status = .alive ∨ member.status = .suspect) := by
  rw [Membership.isPingable, Bool.and_eq_true, decide_eq_true_eq]
  refine and_congr_right' ?_
  cases member.status <;> decide

theorem nodup_addresses (w : m.Indexed) : (m.members.map fun r => (m.heap r).address).Nodup := by
  refine w.nodup.map_on fun r hr r' hr' same => ?_
  have first := (w.index _ r).mpr ⟨hr, same⟩
  have second := (w.index _ r').mpr ⟨hr', rfl⟩
  exact Option.some.inj (first.symm.trans second)

/-- The loop goes on as long as a member has not been visited. -/
theorem visits_on (w : m.Indexed) {membersVisited : Dict Address Unit}
    (visiting : Visiting env m membersVisited) :
    (objectKeys membersVisited).length < m.getMemberCount ↔ ¬ AllVisited m membersVisited := by
  have nodup := nodup_addresses w
  have among : objectKeys membersVisited ⊆ m.members.map fun r => (m.heap r).address := by
    intro a ha
    obtain ⟨r, hr, rfl, -⟩ := visiting a (mem_objectKeys.mp ha)
    exact List.mem_map_of_mem hr
  have count : (m.members.map fun r => (m.heap r).address).length = m.getMemberCount :=
    List.length_map _
  rw [← not_le, ← count, not_iff_not]
  constructor
  · intro full r hr
    have same := ((nodup_objectKeys membersVisited).subperm among).perm_of_length_le full
    exact mem_objectKeys.mp (same.mem_iff.mpr (List.mem_map_of_mem hr))
  · intro all
    refine (nodup.subperm fun a ha => ?_).length_le
    obtain ⟨r, hr, rfl⟩ := List.mem_map.mp ha
    exact mem_objectKeys.mpr (all r hr)

theorem Visiting.visit {membersVisited : Dict Address Unit}
    (visiting : Visiting env m membersVisited) {r : ℕ} (listed : r ∈ m.members)
    (skipped : Membership.isPingable env (m.heap r) = false) :
    Visiting env m (membersVisited.set (m.heap r).address ()) := by
  intro a ha
  rw [Dict.has_set, Bool.or_eq_true, decide_eq_true_eq] at ha
  rcases ha with rfl | ha
  · exact ⟨r, listed, rfl, skipped⟩
  · exact visiting a ha

/-- Two members with one address are the same member. -/
theorem not_pingable (w : m.Indexed) {membersVisited : Dict Address Unit}
    (visiting : Visiting env m membersVisited) {r : ℕ} (listed : r ∈ m.members)
    (visited : membersVisited.has (m.heap r).address = true) :
    Membership.isPingable env (m.heap r) = false := by
  obtain ⟨r', listed', same, skipped⟩ := visiting _ visited
  have first := (w.index _ r').mpr ⟨listed', same⟩
  obtain rfl := Option.some.inj (first.symm.trans ((w.index _ r).mpr ⟨listed, rfl⟩))
  exact skipped

theorem advance_ahead {r : ℕ} {rest : List ℕ} (shuffles : ℕ → List ℕ)
    (h : it.ahead m = r :: rest) :
    ∃ it' : MembershipIterator, it.advance shuffles m = (it', m) ∧
      m.getMemberAt it'.currentIndex = some r ∧ it'.ahead m = rest := by
  have started := it.started
  have inside : (it.currentIndex + 1).toNat < m.members.length := by
    by_contra past
    rw [ahead, List.drop_of_length_le (not_lt.mp past)] at h
    cases h
  rw [ahead, List.drop_eq_getElem_cons inside] at h
  obtain ⟨here, further⟩ := List.cons.inj h
  have going : ¬ it.currentIndex + 1 ≥ m.getMemberCount := by
    rw [Membership.getMemberCount]
    omega
  refine ⟨⟨it.currentIndex + 1, it.currentRound, by omega⟩, if_neg going, ?_, ?_⟩
  · rw [Membership.getMemberAt, if_neg (by simp only; omega), List.getElem?_eq_getElem inside, here]
  · rw [ahead, ← further]
    simp only
    congr 1
    omega

theorem nextLoop_visit (env : Env) (shuffles : ℕ → List ℕ) {r max : ℕ} {rest : List ℕ}
    (h : it.ahead m = r :: rest) (fuel : ℕ) {membersVisited : Dict Address Unit}
    (more : (objectKeys membersVisited).length < max) :
    ∃ it' : MembershipIterator, it'.ahead m = rest ∧
      nextLoop env shuffles max (fuel + 1) it m membersVisited =
        if Membership.isPingable env (m.heap r) then some (some r, it', m)
        else nextLoop env shuffles max fuel it' m
          (membersVisited.set (m.heap r).address ()) := by
  obtain ⟨it', moved, here, further⟩ := advance_ahead shuffles h
  refine ⟨it', further, ?_⟩
  rw [nextLoop, if_pos more, moved]
  simp only [here]

theorem nextLoop_stop (w : m.Indexed) {membersVisited : Dict Address Unit}
    (visiting : Visiting env m membersVisited) (all : AllVisited m membersVisited) (fuel : ℕ) :
    nextLoop env shuffles m.getMemberCount (fuel + 1) it m membersVisited =
      some (none, it, m) := by
  rw [nextLoop, if_neg fun more => (visits_on w visiting).mp more all]

/-- Nobody can be pinged among members that have all been visited. -/
theorem nobody_left (w : m.Indexed) {membersVisited : Dict Address Unit}
    (visiting : Visiting env m membersVisited) (all : AllVisited m membersVisited) {l : List ℕ}
    (part : ∀ r ∈ l, r ∈ m.members) :
    pingables env m l = [] := by
  refine List.filter_eq_nil_iff.mpr fun r hr => ?_
  rw [not_pingable w visiting (part r hr) (all r (part r hr))]
  exact Bool.false_ne_true

theorem mem_of_ahead {l : List ℕ} (h : it.ahead m = l) : ∀ r ∈ l, r ∈ m.members := by
  intro r hr
  rw [← h] at hr
  exact List.mem_of_mem_drop hr

/-- What a call that stays in the round returns, and whom it leaves for the next ones. -/
inductive Found (env : Env) (m : Membership) (round : List ℕ) :
    Option ℕ → MembershipIterator → Prop
  | member (r : ℕ) (it : MembershipIterator)
      (first : pingables env m round = r :: pingables env m (it.ahead m)) :
      Found env m round (some r) it
  | nobody (it : MembershipIterator) (empty : pingables env m round = []) :
      Found env m round none it

theorem Found.skip {r : ℕ} {round : List ℕ} {result : Option ℕ} {it : MembershipIterator}
    (h : Found env m round result it)
    (skipped : Membership.isPingable env (m.heap r) = false) :
    Found env m (r :: round) result it := by
  have same : pingables env m (r :: round) = pingables env m round := pingables_cons_neg skipped
  cases h with
  | member r' it first => exact .member r' it (same.trans first)
  | nobody it empty => exact .nobody it (same.trans empty)

theorem Found.here {r : ℕ} {round : List ℕ} {it : MembershipIterator}
    (pingable : Membership.isPingable env (m.heap r) = true) (left : it.ahead m = round) :
    Found env m (r :: round) (some r) it := by
  refine .member r it ?_
  rw [left]
  exact pingables_cons_pos pingable

/-- A round in which every member is ahead or has been visited is the last one of a call. -/
theorem nextLoop_last (shuffles : ℕ → List ℕ) (w : m.Indexed) {round : List ℕ}
    (h : it.ahead m = round)
    {membersVisited : Dict Address Unit} (visiting : Visiting env m membersVisited)
    (whole : ∀ r ∈ m.members, r ∈ round ∨ membersVisited.has (m.heap r).address = true)
    {fuel : ℕ} (enough : round.length < fuel) :
    ∃ result it', nextLoop env shuffles m.getMemberCount fuel it m membersVisited =
      some (result, it', m) ∧ Found env m round result it' := by
  induction round generalizing it membersVisited fuel with
  | nil =>
    obtain ⟨fuel, rfl⟩ : ∃ k, fuel = k + 1 := ⟨fuel - 1, by omega⟩
    have all : AllVisited m membersVisited := fun r hr =>
      (whole r hr).resolve_left (List.not_mem_nil)
    exact ⟨none, it, nextLoop_stop w visiting all fuel, .nobody it rfl⟩
  | cons r round ih =>
    obtain ⟨fuel, rfl⟩ : ∃ k, fuel = k + 1 := ⟨fuel - 1, by omega⟩
    have listed := mem_of_ahead h
    by_cases all : AllVisited m membersVisited
    case pos =>
      exact ⟨none, it, nextLoop_stop w visiting all fuel,
        .nobody it (nobody_left w visiting all listed)⟩
    case neg =>
      obtain ⟨it', left, pass⟩ := nextLoop_visit env shuffles h fuel
        ((visits_on w visiting).mpr all)
      rw [pass]
      cases pingable : Membership.isPingable env (m.heap r) with
      | true => exact ⟨some r, it', if_pos rfl, .here pingable left⟩
      | false =>
        have here := listed r List.mem_cons_self
        have whole' (r' : ℕ) (hr' : r' ∈ m.members) : r' ∈ round ∨
            (membersVisited.set (m.heap r).address ()).has (m.heap r').address = true := by
          rw [Dict.has_set, Bool.or_eq_true, decide_eq_true_eq]
          rcases whole r' hr' with ahead | visited
          · rcases List.mem_cons.mp ahead with rfl | ahead
            · exact .inr (.inl rfl)
            · exact .inl ahead
          · exact .inr (.inr visited)
        obtain ⟨result, later, run, found⟩ := ih left (visiting.visit here pingable) whole'
          (Nat.lt_of_succ_lt_succ enough)
        exact ⟨result, later, (if_neg Bool.false_ne_true).trans run, found.skip pingable⟩

/-- A list that the iterator has shuffled. -/
structure Reordered (m m' : Membership) : Prop where
  indexed : m'.Indexed
  heap : m'.heap = m.heap
  members : m'.members.Perm m.members

theorem reordered_shuffle (w : m.Indexed) (order : List ℕ) : Reordered m (m.shuffle order) :=
  ⟨w.shuffle order, m.heap_shuffle order, m.members_shuffle order⟩

theorem Reordered.same (w : m.Indexed) : Reordered m m := ⟨w, rfl, .refl _⟩

theorem Reordered.count {m' : Membership} (h : Reordered m m') :
    m'.getMemberCount = m.getMemberCount := h.members.length_eq

theorem Reordered.candidates {m' : Membership} (h : Reordered m m') (env : Env) :
    (pingables env m' m'.members).Perm (pingables env m m.members) := by
  unfold pingables
  rw [h.heap]
  exact h.members.filter _

theorem Reordered.visiting {m' : Membership} (h : Reordered m m')
    {membersVisited : Dict Address Unit} (visiting : Visiting env m membersVisited) :
    Visiting env m' membersVisited := by
  intro a ha
  obtain ⟨r, hr, same⟩ := visiting a ha
  exact ⟨r, h.members.mem_iff.mpr hr, by rwa [h.heap]⟩

/-- At the end of a round the loop goes on as if it began with the shuffled list. -/
theorem nextLoop_wrap {max : ℕ} (h : it.ahead m = []) (some : m.members ≠ []) (fuel : ℕ)
    (membersVisited : Dict Address Unit) (more : (objectKeys membersVisited).length < max) :
    nextLoop env shuffles max (fuel + 1) it m membersVisited =
      nextLoop env shuffles max (fuel + 1) ⟨-1, it.currentRound + 1, Int.le_refl _⟩
        (m.shuffle (shuffles it.currentRound)) membersVisited := by
  have started := it.started
  have length := List.length_pos_iff.mpr some
  have past : it.currentIndex + 1 ≥ m.getMemberCount := by
    rw [ahead, List.drop_eq_nil_iff] at h
    rw [Membership.getMemberCount]
    omega
  have moved : it.advance shuffles m =
      (⟨0, it.currentRound + 1, by omega⟩, m.shuffle (shuffles it.currentRound)) := if_pos past
  have count : (m.shuffle (shuffles it.currentRound)).getMemberCount = m.members.length :=
    (m.members_shuffle _).length_eq
  have again : MembershipIterator.advance shuffles ⟨-1, it.currentRound + 1, Int.le_refl _⟩
      (m.shuffle (shuffles it.currentRound)) =
      (⟨0, it.currentRound + 1, by omega⟩, m.shuffle (shuffles it.currentRound)) := by
    refine if_neg (not_le.mpr ?_)
    rw [count, neg_add_cancel]
    exact Int.natCast_pos.mpr length
  rw [nextLoop, nextLoop, if_pos more, if_pos more, moved, again]

/-- The rest of a call that comes to the end of a round is the first part of the next one. -/
theorem nextLoop_shuffled (w : m.Indexed) (h : it.ahead m = [])
    {membersVisited : Dict Address Unit} (visiting : Visiting env m membersVisited)
    (more : ¬ AllVisited m membersVisited) {fuel : ℕ} (enough : m.getMemberCount < fuel + 1) :
    ∃ result it' m', nextLoop env shuffles m.getMemberCount (fuel + 1) it m membersVisited =
        some (result, it', m') ∧ Reordered m m' ∧
      Turn (pingables env m m.members) [] result (pingables env m' (it'.ahead m')) := by
  have members : m.members ≠ [] := by
    intro empty
    refine more fun r hr => ?_
    rw [empty] at hr
    cases hr
  have shuffled := reordered_shuffle w (shuffles it.currentRound)
  rw [nextLoop_wrap h members fuel membersVisited ((visits_on w visiting).mpr more)]
  generalize m.shuffle (shuffles it.currentRound) = m' at shuffled ⊢
  have start (m' : Membership) :
      ahead ⟨-1, it.currentRound + 1, Int.le_refl _⟩ m' = m'.members := List.drop_zero
  have longer : m'.members.length < fuel + 1 := by
    have count := shuffled.count
    unfold Membership.getMemberCount at count enough
    omega
  rw [← shuffled.count]
  obtain ⟨result, it', run, found⟩ := nextLoop_last shuffles shuffled.indexed
    (start m') (shuffled.visiting visiting) (fun r hr => .inl hr) longer
  refine ⟨result, it', _, run, shuffled, ?_⟩
  have candidates := shuffled.candidates env
  cases found with
  | member r _ first =>
    refine .round r _ ?_
    rw [← first]
    exact candidates
  | nobody _ empty =>
    refine .nobody _ ?_
    exact List.nil_perm.mp (empty ▸ candidates)

/-- A call is a turn: it returns whoever comes next in the round, or who comes first in the
following one. -/
theorem nextLoop_turn (w : m.Indexed) {round : List ℕ} (h : it.ahead m = round)
    {membersVisited : Dict Address Unit} (visiting : Visiting env m membersVisited)
    {fuel : ℕ} (enough : round.length + m.getMemberCount < fuel) :
    ∃ result it' m', nextLoop env shuffles m.getMemberCount fuel it m membersVisited =
        some (result, it', m') ∧ Reordered m m' ∧
      Turn (pingables env m m.members) (pingables env m round) result
        (pingables env m' (it'.ahead m')) := by
  induction round generalizing it membersVisited fuel with
  | nil =>
    obtain ⟨fuel, rfl⟩ : ∃ k, fuel = k + 1 := ⟨fuel - 1, by omega⟩
    by_cases all : AllVisited m membersVisited
    case pos =>
      exact ⟨none, it, m, nextLoop_stop w visiting all fuel, .same w,
        .nobody _ (nobody_left w visiting all fun _ => id)⟩
    case neg =>
      rw [List.length_nil, Nat.zero_add] at enough
      exact nextLoop_shuffled w h visiting all enough
  | cons r round ih =>
    obtain ⟨fuel, rfl⟩ : ∃ k, fuel = k + 1 := ⟨fuel - 1, by omega⟩
    have listed := mem_of_ahead h
    by_cases all : AllVisited m membersVisited
    case pos =>
      have nobody (l : List ℕ) (part : ∀ r ∈ l, r ∈ m.members) : pingables env m l = [] :=
        nobody_left w visiting all part
      refine ⟨none, it, m, nextLoop_stop w visiting all fuel, .same w, ?_⟩
      rw [nobody _ listed]
      exact .nobody _ (nobody _ fun _ => id)
    case neg =>
      obtain ⟨it', left, pass⟩ := nextLoop_visit env shuffles h fuel
        ((visits_on w visiting).mpr all)
      rw [pass]
      cases pingable : Membership.isPingable env (m.heap r) with
      | true =>
        refine ⟨some r, it', m, if_pos rfl, .same w, ?_⟩
        rw [left, pingables_cons_pos pingable]
        exact .next r _
      | false =>
        have shorter : round.length + m.getMemberCount < fuel := by
          rw [List.length_cons] at enough
          omega
        obtain ⟨result, later, m', run, reordered, turn⟩ := ih left
          (visiting.visit (listed r List.mem_cons_self) pingable) shorter
        refine ⟨result, later, m', (if_neg Bool.false_ne_true).trans run, reordered, ?_⟩
        rw [pingables_cons_neg pingable]
        exact turn

theorem next_turn (env : Env) (shuffles : ℕ → List ℕ) (it : MembershipIterator) (w : m.Indexed)
    {fuel : ℕ} (enough : 2 * m.getMemberCount < fuel) :
    ∃ result it' m', it.next env shuffles fuel m = some (result, it', m') ∧ Reordered m m' ∧
      Turn (pingables env m m.members) (pingables env m (it.ahead m)) result
        (pingables env m' (it'.ahead m')) := by
  refine nextLoop_turn w rfl (fun a ha => by cases ha) ?_
  have part : (it.ahead m).length ≤ m.getMemberCount := (List.drop_sublist _ _).length_le
  omega

theorem calls_served (env : Env) (shuffles : ℕ → List ℕ) (it : MembershipIterator)
    (w : m.Indexed) {fuel : ℕ} (enough : 2 * m.getMemberCount < fuel) (n : ℕ) :
    ∃ results, it.calls env shuffles fuel n m = some results ∧ results.length = n ∧
      Served (pingables env m m.members) (pingables env m (it.ahead m)) results := by
  induction n generalizing it m with
  | zero => exact ⟨[], rfl, rfl, .nil _⟩
  | succ n ih =>
    obtain ⟨result, it', m', run, reordered, turn⟩ := next_turn env shuffles it w enough
    obtain ⟨results, rest, length, served⟩ := ih it' reordered.indexed
      (reordered.count ▸ enough)
    refine ⟨result :: results, ?_, by rw [List.length_cons, length], ?_⟩
    · rw [calls, run]
      simp only [Option.bind_eq_bind, Option.bind_some, rest, Option.pure_def]
    · exact .cons turn (served.reorder (reordered.candidates env))

/-- On every member list, from every position and whatever the shuffles pick, `next` finds a
pingable member as long as there is one, and `2 * k - 1` calls find all `k` of them. -/
theorem run_probes (env : Env) (history : List Call) (shuffles : ℕ → List ℕ)
    (it : MembershipIterator) :
    let m := (ListState.run env history).membership
    let candidates := m.members.filter fun ref => Membership.isPingable env (m.heap ref)
    ∀ fuel, 2 * m.getMemberCount < fuel →
      (∃ result it' m', it.next env shuffles fuel m = some (result, it', m') ∧
        (∀ ref, result = some ref → ref ∈ m.members ∧ (m.heap ref).address ≠ env.whoami ∧
          ((m.heap ref).status = .alive ∨ (m.heap ref).status = .suspect)) ∧
        (result = none ↔ candidates = [])) ∧
      ∀ n, 2 * candidates.length - 1 ≤ n → ∃ results,
        it.calls env shuffles fuel n m = some results ∧ results.length = n ∧
        ∀ ref ∈ candidates, some ref ∈ results := by
  intro m candidates fuel enough
  have w : m.Indexed := (ListState.sound_run env history).wellFormed.toIndexed
  have part : (pingables env m (it.ahead m)).Sublist candidates :=
    (List.drop_sublist _ _).filter _
  constructor
  · obtain ⟨result, it', m', run, -, turn⟩ := next_turn env shuffles it w enough
    obtain ⟨found, nobody⟩ := turn.result fun r hr => part.subset hr
    refine ⟨result, it', m', run, fun ref h => ?_, nobody⟩
    obtain ⟨listed, pingable⟩ := List.mem_filter.mp (found ref h)
    exact ⟨listed, isPingable_iff.mp pingable⟩
  · intro n long
    obtain ⟨results, run, length, served⟩ := calls_served env shuffles it w enough n
    refine ⟨results, run, length, fun ref listed => ?_⟩
    exact served.covers part.subperm (length.symm ▸ long) listed

/-- Three calls cover two members. -/
theorem run_probes_three_members :
    let env := Env.sample (.of "a:1" (by decide))
    let tick : Tick := ⟨7, [], 0⟩
    let b : Update × Tick := (⟨.of "b:1" (by decide), .alive, 3, none, none, none⟩, tick)
    let c : Update × Tick := (⟨.of "c:1" (by decide), .suspect, 4, none, none, none⟩, tick)
    let m := (ListState.run env [.setLocalStatus .alive tick, .ready, .update [b, c]]).membership
    let candidates := m.members.filter fun ref => Membership.isPingable env (m.heap ref)
    candidates.length = 2 ∧ ∃ results, MembershipIterator.new.calls env (fun _ => []) 9 3 m =
      some results ∧ results.length = 3 ∧ ∀ ref ∈ candidates, some ref ∈ results :=
  ⟨by decide, (run_probes _ _ _ _ 9 (by decide)).2 3 (by decide)⟩

end MembershipIterator
end Ringpop.Members
