import Ringpop.MemberIterator

/-! How far a member is ahead in the order of probing. The distance does not look at the
status of others, so that it is the same while these change. -/
namespace Ringpop.Members
open JsString Dictionary

namespace MembershipIterator
variable {env : Env} {m : Membership} {it : MembershipIterator}

/-- The first member of a round that can be pinged, with what is left of the round. -/
def Picks (env : Env) (m : Membership) (round : List ℕ) (r : ℕ) (rest : List ℕ) : Prop :=
  ∃ skipped, round = skipped ++ r :: rest ∧
    (∀ s ∈ skipped, Membership.isPingable env (m.heap s) = false) ∧
    Membership.isPingable env (m.heap r) = true

theorem Picks.skip {round rest : List ℕ} {r s : ℕ} (picks : Picks env m round r rest)
    (unpingable : Membership.isPingable env (m.heap s) = false) :
    Picks env m (s :: round) r rest := by
  obtain ⟨skipped, rfl, passed, pingable⟩ := picks
  exact ⟨s :: skipped, rfl, List.forall_mem_cons.mpr ⟨unpingable, passed⟩, pingable⟩

/-- Nobody who can be pinged has been visited. -/
theorem not_allVisited (w : m.Indexed) {membersVisited : Dict Address Unit}
    (visiting : Visiting env m membersVisited) {x : ℕ} (listed : x ∈ m.members)
    (pingable : Membership.isPingable env (m.heap x) = true) : ¬ AllVisited m membersVisited := by
  intro all
  cases pingable.symm.trans (not_pingable w visiting listed (all x listed))

theorem nextLoop_picks (shuffles : ℕ → List ℕ) (w : m.Indexed) {round : List ℕ}
    (h : it.ahead m = round) {membersVisited : Dict Address Unit}
    (visiting : Visiting env m membersVisited) {x : ℕ} (coming : x ∈ round)
    (pingable : Membership.isPingable env (m.heap x) = true) {fuel : ℕ}
    (enough : round.length < fuel) :
    ∃ r it', nextLoop env shuffles m.getMemberCount fuel it m membersVisited =
      some (some r, it', m) ∧ Picks env m round r (it'.ahead m) := by
  induction round generalizing it membersVisited fuel with
  | nil => cases coming
  | cons r round ih =>
    obtain ⟨fuel, rfl⟩ : ∃ k, fuel = k + 1 := ⟨fuel - 1, by omega⟩
    have listed := mem_of_ahead h
    obtain ⟨it', left, pass⟩ := nextLoop_visit env shuffles h fuel
      ((visits_on w visiting).mpr (not_allVisited w visiting (listed x coming) pingable))
    rw [pass]
    cases here : Membership.isPingable env (m.heap r) with
    | true => exact ⟨r, it', if_pos rfl, [], by rw [left]; rfl, List.forall_mem_nil _, here⟩
    | false =>
      have later : x ∈ round := by
        rcases List.mem_cons.mp coming with rfl | later
        · cases pingable.symm.trans here
        · exact later
      obtain ⟨r', it'', run, picks⟩ := ih left
        (visiting.visit (listed r List.mem_cons_self) here) later (Nat.lt_of_succ_lt_succ enough)
      exact ⟨r', it'', (if_neg Bool.false_ne_true).trans run, picks.skip here⟩

/-- Whom a call finds: the next one of the round, or, when `x` is not among those who are left
of it, the first one of the following round. -/
def Finds (env : Env) (m : Membership) (round : List ℕ) (x r : ℕ) (it' : MembershipIterator)
    (m' : Membership) : Prop :=
  (m' = m ∧ Picks env m round r (it'.ahead m)) ∨
    (∃ order, m' = m.shuffle order) ∧ x ∉ round ∧ Picks env m' m'.members r (it'.ahead m')

theorem nextLoop_finds (shuffles : ℕ → List ℕ) (w : m.Indexed) {round : List ℕ}
    (h : it.ahead m = round) {membersVisited : Dict Address Unit}
    (visiting : Visiting env m membersVisited) {x : ℕ} (listed : x ∈ m.members)
    (pingable : Membership.isPingable env (m.heap x) = true) {fuel : ℕ}
    (enough : round.length + m.getMemberCount < fuel) :
    ∃ r it' m', nextLoop env shuffles m.getMemberCount fuel it m membersVisited =
      some (some r, it', m') ∧ Finds env m round x r it' m' := by
  induction round generalizing it membersVisited fuel with
  | nil =>
    obtain ⟨fuel, rfl⟩ : ∃ k, fuel = k + 1 := ⟨fuel - 1, by omega⟩
    have shuffled := reordered_shuffle w (shuffles it.currentRound)
    rw [nextLoop_wrap h (List.ne_nil_of_mem listed) fuel membersVisited
      ((visits_on w visiting).mpr (not_allVisited w visiting listed pingable)), ← shuffled.count]
    have whole : ahead ⟨-1, it.currentRound + 1, Int.le_refl _⟩
        (m.shuffle (shuffles it.currentRound)) = (m.shuffle (shuffles it.currentRound)).members :=
      List.drop_zero
    have enough' : (m.shuffle (shuffles it.currentRound)).members.length < fuel + 1 := by
      have count := shuffled.count
      rw [Membership.getMemberCount] at count
      rw [List.length_nil] at enough
      omega
    obtain ⟨r, it', run, picks⟩ := nextLoop_picks shuffles shuffled.indexed whole
      (shuffled.visiting visiting) (shuffled.members.mem_iff.mpr listed)
      (shuffled.heap ▸ pingable) enough'
    exact ⟨r, it', _, run, .inr ⟨⟨_, rfl⟩, List.not_mem_nil, picks⟩⟩
  | cons r round ih =>
    obtain ⟨fuel, rfl⟩ : ∃ k, fuel = k + 1 := ⟨fuel - 1, by omega⟩
    have part := mem_of_ahead h
    obtain ⟨it', left, pass⟩ := nextLoop_visit env shuffles h fuel
      ((visits_on w visiting).mpr (not_allVisited w visiting listed pingable))
    rw [pass]
    cases here : Membership.isPingable env (m.heap r) with
    | true =>
      refine ⟨r, it', m, if_pos rfl, .inl ⟨rfl, [], by rw [left]; rfl, List.forall_mem_nil _, here⟩⟩
    | false =>
      have enough' : round.length + m.getMemberCount < fuel := by
        rw [List.length_cons] at enough
        omega
      obtain ⟨r', it'', m', run, finds⟩ := ih left
        (visiting.visit (part r List.mem_cons_self) here) enough'
      refine ⟨r', it'', m', (if_neg Bool.false_ne_true).trans run, ?_⟩
      rcases finds with ⟨same, picks⟩ | ⟨shuffled, absent, picks⟩
      · exact .inl ⟨same, picks.skip here⟩
      · refine .inr ⟨shuffled, fun coming => ?_, picks⟩
        rcases List.mem_cons.mp coming with rfl | later
        · cases pingable.symm.trans here
        · exact absent later

theorem next_finds (shuffles : ℕ → List ℕ) (it : MembershipIterator) (w : m.Indexed) {x : ℕ}
    (listed : x ∈ m.members) (pingable : Membership.isPingable env (m.heap x) = true) {fuel : ℕ}
    (enough : 2 * m.getMemberCount < fuel) :
    ∃ r it' m', it.next env shuffles fuel m = some (some r, it', m') ∧
      Finds env m (it.ahead m) x r it' m' := by
  refine nextLoop_finds shuffles w rfl (fun a ha => by cases ha) listed pingable ?_
  have part : (it.ahead m).length ≤ m.getMemberCount := (List.drop_sublist _ _).length_le
  omega

/-- What every shuffle keeps is true of the list after a call. -/
theorem nextLoop_keeps (keeps : Membership → Prop)
    (shuffle : ∀ m order, keeps m → keeps (m.shuffle order)) (shuffles : ℕ → List ℕ) {max : ℕ}
    {fuel : ℕ} {membersVisited : Dict Address Unit} {result : Option ℕ} {it' : MembershipIterator}
    {m' : Membership}
    (run : nextLoop env shuffles max fuel it m membersVisited = some (result, it', m'))
    (before : keeps m) : keeps m' := by
  have advanced (it : MembershipIterator) (m : Membership) (before : keeps m) :
      keeps (it.advance shuffles m).2 := by
    unfold advance
    split
    · exact shuffle m _ before
    · exact before
  induction fuel generalizing it m membersVisited with
  | zero => cases run
  | succ fuel ih =>
    rw [nextLoop] at run
    split at run
    case isFalse =>
      cases run
      exact before
    case isTrue =>
      simp only at run
      split at run
      case h_1 => cases run
      case h_2 =>
        split at run
        · cases run
          exact advanced it m before
        · exact ih run (advanced it m before)

/-- How many calls it takes at most until a member is returned, if it can be pinged. -/
def distance (it : MembershipIterator) (m : Membership) (x : ℕ) : ℕ :=
  if x ∈ it.ahead m then (it.ahead m).idxOf x + 1 else (it.ahead m).length + m.members.length

theorem distance_congr {m' : Membership} (members : m'.members = m.members)
    (it : MembershipIterator) (x : ℕ) : it.distance m' x = it.distance m x := by
  rw [distance, distance, ahead, members, ← ahead]

theorem distance_pos (it : MembershipIterator) {x : ℕ} (listed : x ∈ m.members) :
    0 < it.distance m x := by
  have some := List.length_pos_of_mem listed
  unfold distance
  split <;> omega

theorem distance_le (it : MembershipIterator) {x : ℕ} (listed : x ∈ m.members) :
    it.distance m x ≤ 2 * m.members.length - 1 := by
  have some := List.length_pos_of_mem listed
  have sublist : List.Sublist (it.ahead m) m.members := List.drop_sublist _ _
  unfold distance
  split
  case isTrue coming =>
    have inside := List.idxOf_lt_length_of_mem coming
    have part := sublist.length_le
    omega
  case isFalse passed =>
    have shorter : (it.ahead m).length < m.members.length := by
      refine lt_of_le_of_ne sublist.length_le fun whole => passed ?_
      rwa [sublist.eq_of_length whole]
    omega

theorem Finds.keeps {round : List ℕ} {x r : ℕ} {it' : MembershipIterator} {m' : Membership}
    (finds : Finds env m round x r it' m') (keeps : Membership → Prop) (before : keeps m)
    (shuffle : ∀ order, keeps (m.shuffle order)) : keeps m' := by
  rcases finds with ⟨rfl, -⟩ | ⟨⟨order, rfl⟩, -, -⟩
  · exact before
  · exact shuffle order

/-- Every call that returns somebody else brings a member closer. -/
theorem Finds.closer {x r : ℕ} {it' : MembershipIterator} {m' : Membership}
    (finds : Finds env m (it.ahead m) x r it' m') (listed : x ∈ m.members)
    (pingable : Membership.isPingable env (m.heap x) = true) (other : r ≠ x) :
    it'.distance m' x < it.distance m x := by
  have further {m : Membership} {round : List ℕ} (pingable : Membership.isPingable env (m.heap x))
      (picks : Picks env m round r (it'.ahead m)) (coming : x ∈ round) :
      x ∈ it'.ahead m ∧ (it'.ahead m).idxOf x + 1 ≤ round.idxOf x := by
    obtain ⟨skipped, rfl, passed, -⟩ := picks
    have fresh : x ∉ skipped := fun h => by cases pingable.symm.trans (passed x h)
    rw [List.idxOf_append_of_notMem fresh, List.idxOf_cons_ne _ other]
    refine ⟨?_, by omega⟩
    rcases List.mem_append.mp coming with h | h
    · exact absurd h fresh
    · exact (List.mem_cons.mp h).resolve_left (Ne.symm other)
  rcases finds with ⟨same, picks⟩ | ⟨⟨order, rfl⟩, passed, picks⟩
  · subst m'
    by_cases coming : x ∈ it.ahead m
    · obtain ⟨later, closer⟩ := further pingable picks coming
      rw [distance, distance, if_pos coming, if_pos later]
      omega
    · obtain ⟨skipped, round, -, -⟩ := picks
      rw [distance, distance, if_neg coming, if_neg fun h => coming (round ▸ by simp [h]), round]
      simp only [List.length_append, List.length_cons]
      omega
  · have listed' := (m.members_shuffle order).mem_iff.mpr listed
    have heap := m.heap_shuffle order
    obtain ⟨later, -⟩ := further (heap ▸ pingable) picks listed'
    have inside := List.idxOf_lt_length_of_mem later
    obtain ⟨skipped, round, -, -⟩ := picks
    have length := congrArg List.length round
    rw [(m.members_shuffle order).length_eq, List.length_append, List.length_cons] at length
    rw [distance, distance, if_neg passed, if_pos later]
    omega

end MembershipIterator
end Ringpop.Members
