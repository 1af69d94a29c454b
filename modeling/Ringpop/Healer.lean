import Ringpop.FullSync
import Mathlib.Data.List.Induction

/-! `lib/partition_healing/healer.js`: a heal compares the two lists, and either has
the endangered members of each side reincarnate or merges the lists. -/
namespace Ringpop.Members
open JsString Dictionary GreatestWins

/-- `_.indexBy(changes, 'address')`. -/
def indexBy (changes : List Update) : Dict Address Update :=
  changes.foldl (fun index change => index.set change.address change) .empty

/-- The suspect change; without a source there is no full sync in return. -/
def createSuspectChange (member : Update) : Update where
  address := member.address
  status := .suspect
  incarnationNumber := member.incarnationNumber
  id := none
  source := none
  sourceIncarnationNumber := none

def nodeWouldBecomeUnPingable (currentState newState : Update) : Bool :=
  if !isStatusPingable currentState.status then false
  else if isStatusPingable newState.status then false
  else if currentState.incarnationNumber > newState.incarnationNumber then false
  else if currentState.incarnationNumber < newState.incarnationNumber then true
  else decide (statusPrecedence newState.status > statusPrecedence currentState.status)

/-- One pass of the loop of `generateChanges`; the state is `changesForA, changesForB`. -/
def generateChange (membershipA : Dict Address Update) (changes : List Update × List Update)
    (b : Update) : List Update × List Update :=
  match membershipA.get b.address with
  | none => changes
  | some a =>
    (if nodeWouldBecomeUnPingable a b then changes.1 ++ [createSuspectChange b] else changes.1,
      if nodeWouldBecomeUnPingable b a then changes.2 ++ [createSuspectChange a] else changes.2)

def generateChanges (membershipA membershipB : List Update) : List Update × List Update :=
  membershipB.foldl (generateChange (indexBy membershipA)) ([], [])

def timed (tick : ℕ → Tick) (changes : List Update) : List (Update × Tick) :=
  changes.zipIdx.map fun change => (change.1, tick change.2)

/-- The end of a heal: the local list, the changes sent to the target, and the
hosts reported when the target has answered. -/
structure HealResult (env : Env) where
  list : MemberList env
  sent : Option (List Update)
  pingableHosts : List Address

def attemptHeal {env : Env} (l : MemberList env) (membershipB : List Update) (tick : ℕ → Tick) :
    HealResult env :=
  let (changesForA, changesForB) := generateChanges l.membershipAsChanges membershipB
  let pingableHosts := (membershipB.filter fun b => isStatusPingable b.status).map Update.address
  if changesForA.length > 0 ∨ changesForB.length > 0 then
    -- reincarnate
    { list := if changesForA.length > 0 then l.update (timed tick changesForA) else l
      sent := if changesForB.length > 0 then some changesForB else none
      pingableHosts := pingableHosts }
  else
    -- merge
    let list := l.update (timed tick membershipB)
    { list := list, sent := some list.membershipAsChanges, pingableHosts := pingableHosts }

theorem map_timed (tick : ℕ → Tick) (changes : List Update) :
    (timed tick changes).map Prod.fst = changes := by
  simp [timed, Function.comp_def]

theorem nodeWouldBecomeUnPingable_iff {a b : Update} :
    nodeWouldBecomeUnPingable a b = true ↔
      isStatusPingable a.status = true ∧ isStatusPingable b.status = false ∧
        a.standing < b.standing := by
  simp only [nodeWouldBecomeUnPingable, Standing.lt_iff, Update.standing]
  cases isStatusPingable a.status <;> cases isStatusPingable b.status <;> simp
  rcases lt_trichotomy a.incarnationNumber b.incarnationNumber with h | h | h
  · simp [h, h.le]
  · simp [h]
  · simp [h.not_ge, h.not_gt, h.ne']

theorem get_indexBy (changes : List Update) (a : Address) :
    (indexBy changes).get a = (changes.filter fun c => c.address = a).getLast? := by
  induction changes using List.reverseRecOn with
  | nil => rfl
  | append_singleton changes c ih =>
    rw [indexBy, List.foldl_concat, List.filter_append, Dict.get_set]
    by_cases same : c.address = a
    · subst same
      rw [if_pos rfl, List.filter_cons_of_pos (by simp), List.filter_nil, List.getLast?_concat]
    · rw [if_neg (Ne.symm same), List.filter_cons_of_neg (by simpa using same), List.filter_nil,
        List.append_nil]
      exact ih

theorem generateChanges_suspect (membershipA membershipB : List Update) :
    (∀ c ∈ (generateChanges membershipA membershipB).1, c.status = .suspect) ∧
      ∀ c ∈ (generateChanges membershipA membershipB).2, c.status = .suspect := by
  refine List.foldlRecOn (motive := fun changes : List Update × List Update =>
    (∀ c ∈ changes.1, c.status = .suspect) ∧ ∀ c ∈ changes.2, c.status = .suspect) membershipB _
    ⟨nofun, nofun⟩ fun changes h b _ => ?_
  unfold generateChange
  cases (indexBy membershipA).get b.address with
  | none => exact h
  | some a =>
    constructor
    · simp only
      split
      · exact List.forall_mem_append.mpr ⟨h.1, List.forall_mem_singleton.mpr rfl⟩
      · exact h.1
    · simp only
      split
      · exact List.forall_mem_append.mpr ⟨h.2, List.forall_mem_singleton.mpr rfl⟩
      · exact h.2

theorem generateChange_nil {membershipA : Dict Address Update} {changes : List Update × List Update}
    {b : Update} (h : generateChange membershipA changes b = ([], [])) :
    changes = ([], []) ∧ ∀ a, membershipA.get b.address = some a →
      nodeWouldBecomeUnPingable a b = false ∧ nodeWouldBecomeUnPingable b a = false := by
  unfold generateChange at h
  cases found : membershipA.get b.address with
  | none =>
    rw [found] at h
    exact ⟨h, nofun⟩
  | some a =>
    rw [found] at h
    obtain ⟨h₁, h₂⟩ := Prod.mk.inj h
    cases would₁ : nodeWouldBecomeUnPingable a b <;>
      cases would₂ : nodeWouldBecomeUnPingable b a <;> simp [would₁, would₂] at h₁ h₂
    exact ⟨Prod.ext h₁ h₂, fun a' ha' => by
      obtain rfl := Option.some.inj ha'
      exact ⟨would₁, would₂⟩⟩

/-- No changes are made when no common member would be lost by either side. -/
theorem generateChanges_nil {membershipA membershipB : List Update}
    (h : generateChanges membershipA membershipB = ([], [])) :
    ∀ b ∈ membershipB, ∀ a, (indexBy membershipA).get b.address = some a →
      nodeWouldBecomeUnPingable a b = false ∧ nodeWouldBecomeUnPingable b a = false := by
  unfold generateChanges at h
  generalize indexBy membershipA = index at *
  induction membershipB using List.reverseRecOn with
  | nil => exact nofun
  | append_singleton membershipB b ih =>
    rw [List.foldl_concat] at h
    obtain ⟨earlier, last⟩ := generateChange_nil h
    exact List.forall_mem_append.mpr ⟨ih earlier, List.forall_mem_singleton.mpr last⟩

namespace MemberList
variable {env envA envB : Env}

def Pingable (l : MemberList env) (a : Address) : Prop :=
  ∃ s, l.view a = some s ∧ isStatusPingable s.status = true

/-- A member stays pingable when every change that beats it is pingable. -/
theorem Pingable.update {l : MemberList env} {a : Address} (h : l.Pingable a)
    {batch : List (Update × Tick)}
    (safe : ∀ c ∈ batch.map Prod.fst, c.address = a → ∀ s, l.view a = some s →
      isStatusPingable s.status = true → s < c.standing → isStatusPingable c.status = true) :
    (l.update batch).Pingable a := by
  obtain ⟨s, known, pingable⟩ := h
  by_cases self : a = env.whoami
  · subst self
    obtain rfl := Option.some.inj (l.view_whoami.symm.trans known)
    refine ⟨_, (l.update batch).view_whoami, ?_⟩
    rw [localStanding_update, status_answered]
    exact pingable
  · have view := l.view_update batch self
    rw [known, absorbAll_some] at view
    refine ⟨_, view, ?_⟩
    have great : greatest Update.standing (some s) (about a batch) =
      some (((about a batch).map Update.standing).foldl max s) := rfl
    obtain ⟨choice, least, -⟩ := greatest_eq_some.mp great
    generalize ((about a batch).map Update.standing).foldl max s = result at *
    rcases choice with same | ⟨c, hc, rfl⟩
    · rwa [← Option.some.inj same]
    · obtain ⟨hc, address⟩ := List.mem_filter.mp hc
      rcases (least s rfl).lt_or_eq with less | equal
      · exact safe c hc (by simpa using address) s known pingable less
      · rwa [← equal]

theorem index_of_view (l : MemberList env) {a : Address} {s : Standing}
    (known : l.view a = some s) :
    ∃ c, (indexBy l.membershipAsChanges).get a = some c ∧ c.standing = s := by
  have standings := l.changes_about a
  rw [known] at standings
  rw [get_indexBy]
  obtain ⟨c, single, standing⟩ := List.map_eq_singleton_iff.mp standings
  exact ⟨c, by rw [single]; rfl, standing⟩

/-- The merge path: no common member would be lost by either side. -/
theorem pingable_of_merge {l : MemberList envA} {b : MemberList envB}
    (merge : generateChanges l.membershipAsChanges b.membershipAsChanges = ([], []))
    {a : Address} {x y : Standing} (hx : l.view a = some x) (hy : b.view a = some y) :
    (isStatusPingable x.status = true → x < y → isStatusPingable y.status = true) ∧
      (isStatusPingable y.status = true → y < x → isStatusPingable x.status = true) := by
  obtain ⟨ca, index, rfl⟩ := l.index_of_view hx
  obtain ⟨cb, mem, rfl, rfl⟩ := b.view_eq_some.mp hy
  obtain ⟨wouldA, wouldB⟩ := generateChanges_nil merge cb mem ca index
  constructor
  · intro pingable less
    by_contra lost
    have := nodeWouldBecomeUnPingable_iff.mpr ⟨pingable, (Bool.not_eq_true _).mp lost, less⟩
    exact Bool.false_ne_true (wouldA.symm.trans this)
  · intro pingable less
    by_contra lost
    have := nodeWouldBecomeUnPingable_iff.mpr ⟨pingable, (Bool.not_eq_true _).mp lost, less⟩
    exact Bool.false_ne_true (wouldB.symm.trans this)

/-- Of two standings of one incarnation, a pingable one is beaten from below by `alive` only. -/
theorem alive_of_lt {x y : Standing} (pingable : isStatusPingable y.status = true) (less : x < y)
    (notOlder : y.incarnationNumber ≤ x.incarnationNumber) : x.status = .alive := by
  rcases Standing.lt_iff.mp less with older | ⟨-, precedence⟩
  · omega
  · obtain ⟨inc, status⟩ := y
    obtain ⟨inc', status'⟩ := x
    cases status <;> cases status' <;> simp_all [statusPrecedence, isStatusPingable]

theorem merged_safe {l : MemberList envA} {b : MemberList envB}
    (merge : generateChanges l.membershipAsChanges b.membershipAsChanges = ([], []))
    (known : ∀ s, b.view envA.whoami = some s →
      s.incarnationNumber ≤ l.localStanding.incarnationNumber)
    {batch : List (Update × Tick)} (list : batch.map Prod.fst = b.membershipAsChanges)
    {c : Update} (hc : c ∈ (l.update batch).membershipAsChanges) {y : Standing}
    (hy : b.view c.address = some y) (pingable : isStatusPingable y.status = true)
    (less : y < c.standing) : isStatusPingable c.status = true := by
  have view := (l.update batch).view_eq_some.mpr ⟨c, hc, rfl, rfl⟩
  by_cases self : c.address = envA.whoami
  · rw [self] at view hy
    rw [view_whoami, localStanding_update] at view
    have status : c.status = l.localStanding.status := by
      rw [← status_answered envA.whoami l.localStanding batch]
      exact congrArg Standing.status (Option.some.inj view).symm
    rw [status]
    rcases lt_trichotomy y l.localStanding with h | h | h
    · exact (pingable_of_merge merge l.view_whoami hy).2 pingable h
    · rwa [← h]
    · rw [alive_of_lt pingable h (known y hy)]
      rfl
  · rw [view_sync l b list self, hy] at view
    cases hx : l.view c.address with
    | none =>
      rw [hx, show absorbOption none (some y) = shown (some y) from absorb_none y] at view
      have same := Option.some.inj (Option.filter_eq_some_iff.mp view).1
      exact absurd less (same ▸ lt_irrefl y)
    | some x =>
      rw [hx, absorbOption_some, Option.some.injEq] at view
      have bigger : y < x := by
        rcases max_choice x y with h | h <;> rw [h] at view
        · exact view ▸ less
        · exact absurd less (view ▸ lt_irrefl y)
      rw [max_eq_left bigger.le] at view
      have safe := (pingable_of_merge merge hx hy).2 pingable bigger
      rw [view] at safe
      exact safe

theorem suspects_safe {l : MemberList env} {changes : List Update}
    (suspects : ∀ c ∈ changes, c.status = .suspect) {batch : List (Update × Tick)}
    (list : batch.map Prod.fst = changes) {a : Address} (h : l.Pingable a) :
    (l.update batch).Pingable a :=
  h.update fun c hc _ _ _ _ _ => by
    rw [suspects c (list ▸ hc)]
    rfl

/-- A heal takes no reachable member from either side. -/
theorem attemptHeal_keeps_pingable (a : MemberList envA) (b : MemberList envB) (tick : ℕ → Tick)
    (known : ∀ s, b.view envA.whoami = some s →
      s.incarnationNumber ≤ a.localStanding.incarnationNumber) :
    (∀ m, a.Pingable m → (attemptHeal a b.membershipAsChanges tick).list.Pingable m) ∧
      ∀ sent, (attemptHeal a b.membershipAsChanges tick).sent = some sent →
        ∀ batch : List (Update × Tick), batch.map Prod.fst = sent →
          ∀ m, b.Pingable m → (b.update batch).Pingable m := by
  obtain ⟨suspectsA, suspectsB⟩ :=
    generateChanges_suspect a.membershipAsChanges b.membershipAsChanges
  simp only [attemptHeal]
  split
  case isTrue =>
    constructor
    · intro m h
      simp only
      split
      · exact suspects_safe suspectsA (map_timed tick _) h
      · exact h
    · intro sent hsent batch list m h
      simp only at hsent
      split at hsent
      · obtain rfl := Option.some.inj hsent
        exact suspects_safe suspectsB list h
      · cases hsent
  case isFalse none =>
    have merge : generateChanges a.membershipAsChanges b.membershipAsChanges = ([], []) := by
      simp only [gt_iff_lt, List.length_pos_iff, not_or, ne_eq, not_not] at none
      exact Prod.ext none.1 none.2
    have list := map_timed tick b.membershipAsChanges
    constructor
    · intro m h
      refine h.update fun c hc address s hs pingable less => ?_
      rw [list] at hc
      exact (pingable_of_merge merge hs (b.view_eq_some.mpr ⟨c, hc, address, rfl⟩)).1 pingable less
    · intro sent hsent batch list' m h
      obtain rfl := Option.some.inj hsent
      refine h.update fun c hc address s hs pingable less => ?_
      rw [list'] at hc
      subst address
      exact merged_safe merge known list hc hs pingable less

/-- Two sides that believe each other faulty, and disagree about a third member. -/
theorem attemptHeal_keeps_pingable_partition :
    let tick : Tick := ⟨7, [], 0⟩
    let about (address : String) (own : str address ∉ objectPrototype) (status : Status) (inc : ℤ) :
        Update × Tick := (⟨.of address own, status, inc, none, none, none⟩, tick)
    let a := (alone (Env.sample (.of "a:1" (by decide))) tick).update
      [about "b:1" (by decide) .faulty 7, about "c:1" (by decide) .alive 3]
    let b := (alone (Env.sample (.of "b:1" (by decide))) tick).update
      [about "a:1" (by decide) .faulty 7, about "c:1" (by decide) .faulty 3]
    let heal := attemptHeal a b.membershipAsChanges fun _ => tick
    (∀ m, a.Pingable m → heal.list.Pingable m) ∧
      ∃ sent, heal.sent = some sent ∧ ∀ batch : List (Update × Tick), batch.map Prod.fst = sent →
        ∀ m, b.Pingable m → (b.update batch).Pingable m := by
  intro tick about a b heal
  have told : b.view (.of "a:1" (by decide)) = some ⟨7, .faulty⟩ := by decide +kernel
  have own : a.localStanding.incarnationNumber = 7 := by decide +kernel
  obtain ⟨sent, suspects⟩ := Option.isSome_iff_exists.mp (show heal.sent.isSome by decide +kernel)
  have kept := attemptHeal_keeps_pingable a b (fun _ => tick) fun s hs => by
    obtain rfl := Option.some.inj (told.symm.trans hs)
    exact own.ge
  exact ⟨kept.1, sent, suspects, kept.2 sent suspects⟩

end MemberList
end Ringpop.Members
