import Ringpop.PeriodicHealer
import Ringpop.MembershipView

/-! One heal of `discover_provider_healer.js`: the hosts of the discover provider that look
partitioned are tried one after the other, less those that a healed partition can reach. -/
namespace Ringpop.Members
open Dictionary

inductive HealError where
  | ringpopIsNotReady
  | discoverProviderNotAvailable
  | discoverProvider (message : JsString.Str)

/-- The variables of a heal. The last two fields are a history: the attempts that have been
answered, `none` for a failure, and what the callback was called with. -/
structure Heal where
  potentialTargets : List Address
  targets : List Address
  numberOfFailures : ℕ
  attempting : Option Address
  attempts : List (Address × Option (List Address))
  callbacks : List (Except HealError (List Address))

namespace DiscoverProviderHealer

def isHostAValidTarget (env : Env) (m : Membership) (host : Address) : Bool :=
  if host = env.whoami then false
  else
    match m.findMemberByAddress host with
    | none => true
    | some member => statusPrecedence member.status ≥ statusPrecedence .faulty

/-- `shuffle` is what `_.shuffle` makes of the list. -/
def getTargets (env : Env) (m : Membership) (shuffle : List Address → List Address)
    (hosts : List Address) : List Address :=
  shuffle (hosts.filter (isHostAValidTarget env m))

def healTarget (h : Heal) (target : Address) : Heal :=
  { h with potentialTargets := h.potentialTargets.dropLast, attempting := some target }

def healingDone (h : Heal) : Heal :=
  { h with attempting := none, callbacks := h.callbacks ++ [.ok h.targets] }

def healNext (maxNumberOfFailures : ℕ) (h : Heal) : Heal :=
  match h.potentialTargets.getLast? with
  | some target =>
    if h.numberOfFailures < maxNumberOfFailures then healTarget h target else healingDone h
  | none => healingDone h

/-- The answer to the attempt that is running. The member list is not looked at again. -/
def onHealAttempt (maxNumberOfFailures : ℕ) (h : Heal) (answer : Option (List Address)) : Heal :=
  match h.attempting with
  | none => h
  | some target =>
    let h := { h with attempts := h.attempts ++ [(target, answer)] }
    match answer with
    | none => healNext maxNumberOfFailures { h with numberOfFailures := h.numberOfFailures + 1 }
    | some reachableNodes =>
      healNext maxNumberOfFailures
        { h with
          targets := h.targets ++ [target]
          potentialTargets := h.potentialTargets.filter (· ∉ reachableNodes) }

/-- `heal` up to the call of the discover provider, if it gets there. -/
def heal (isReady discoverProvider : Bool) : Heal :=
  let h : Heal := ⟨[], [], 0, none, [], []⟩
  if !isReady then { h with callbacks := [.error .ringpopIsNotReady] }
  else if !discoverProvider then { h with callbacks := [.error .discoverProviderNotAvailable] }
  else h

def onHostsDiscovered (env : Env) (m : Membership) (shuffle : List Address → List Address)
    (maxNumberOfFailures : ℕ) (h : Heal) : Except HealError (List Address) → Heal
  | .error err => { h with callbacks := h.callbacks ++ [.error err] }
  | .ok hosts =>
    healNext maxNumberOfFailures { h with potentialTargets := getTargets env m shuffle hosts }

/-- A heal after the answers to some attempts. -/
def healAfter (maxNumberOfFailures : ℕ) (start : Heal) (outcome : ℕ → Option (List Address))
    (answered : ℕ) : Heal :=
  ((List.range answered).map outcome).foldl (onHealAttempt maxNumberOfFailures) start

end DiscoverProviderHealer

namespace Heal
open DiscoverProviderHealer

def attempted (h : Heal) : List Address := h.attempts.map Prod.fst

def failures (h : Heal) : ℕ := h.attempts.countP fun attempt => attempt.2.isNone

/-- The targets of the attempts that succeeded. -/
def healed (h : Heal) : List Address :=
  h.attempts.filterMap fun attempt => attempt.2.map fun _ => attempt.1

/-- A successful attempt has listed the host. -/
def Reached (h : Heal) (host : Address) : Prop :=
  ∃ attempt ∈ h.attempts, ∃ reachable ∈ attempt.2, host ∈ reachable

/-- The heal with a target among those that are left. -/
def putBack (h : Heal) (target : Address) : Heal :=
  { h with potentialTargets := h.potentialTargets ++ [target] }

/-- What is true of a heal before it picks the next target. -/
structure Sweeping (valid : List Address) (h : Heal) : Prop where
  distinct : (h.potentialTargets ++ h.attempted).Nodup
  inside : ∀ host ∈ h.potentialTargets ++ h.attempted, host ∈ valid
  covered : ∀ host ∈ valid, host ∈ h.potentialTargets ∨ host ∈ h.attempted ∨ h.Reached host
  failed : h.numberOfFailures = h.failures
  targets : h.targets = h.healed
  silent : h.callbacks = []

/-- A heal that waits for the answer to an attempt. -/
def Running (valid : List Address) (maxNumberOfFailures : ℕ) (h : Heal) : Prop :=
  ∃ target, h.attempting = some target ∧ Sweeping valid (h.putBack target) ∧
    h.failures < maxNumberOfFailures

/-- A heal that is over. -/
structure Finished (valid : List Address) (maxNumberOfFailures : ℕ) (h : Heal) : Prop where
  idle : h.attempting = none
  called : h.callbacks = [.ok h.healed]
  once : h.attempted.Nodup
  inside : ∀ host ∈ h.attempted, host ∈ valid
  budget : h.failures ≤ maxNumberOfFailures
  covered : h.failures < maxNumberOfFailures →
    ∀ host ∈ valid, host ∈ h.attempted ∨ h.Reached host

variable {valid : List Address} {maxNumberOfFailures : ℕ} {h : Heal}

theorem Sweeping.finished (sweeping : Sweeping valid h) (budget : h.failures ≤ maxNumberOfFailures)
    (ended : h.failures < maxNumberOfFailures → h.potentialTargets = []) :
    Finished valid maxNumberOfFailures (healingDone h) where
  idle := rfl
  called := by
    change h.callbacks ++ [.ok h.targets] = [.ok h.healed]
    rw [sweeping.silent, sweeping.targets, List.nil_append]
  once := (List.nodup_append.mp sweeping.distinct).2.1
  inside host attempted := sweeping.inside host (List.mem_append_right _ attempted)
  budget := budget
  covered few host member := by
    rcases sweeping.covered host member with left | told
    · rw [ended few] at left
      cases left
    · exact told

theorem Sweeping.healNext (sweeping : Sweeping valid h)
    (budget : h.failures ≤ maxNumberOfFailures) :
    Running valid maxNumberOfFailures (healNext maxNumberOfFailures h) ∨
      Finished valid maxNumberOfFailures (healNext maxNumberOfFailures h) := by
  rw [DiscoverProviderHealer.healNext]
  rcases List.eq_nil_or_concat h.potentialTargets with none | ⟨rest, target, last⟩
  · rw [none]
    exact .inr (sweeping.finished budget fun _ => none)
  · have same : (healTarget h target).putBack target = { h with attempting := some target } := by
      simp [healTarget, putBack, last]
    rw [last, List.concat_eq_append, List.getLast?_concat]
    by_cases few : h.failures < maxNumberOfFailures
    · simp only [sweeping.failed, few, if_true]
      refine .inl ⟨target, rfl, ?_, few⟩
      rw [same]
      exact { sweeping with }
    · simp only [sweeping.failed, few, if_false]
      exact .inr (sweeping.finished budget fun less => absurd less few)

/-- An attempt is a target less, whatever its answer. -/
theorem Running.attempts_lt (running : Running valid maxNumberOfFailures h) :
    h.attempts.length < valid.length := by
  obtain ⟨target, -, sweeping, -⟩ := running
  have bound := (List.subperm_of_subset sweeping.distinct sweeping.inside).length_le
  rw [List.length_append] at bound
  simp only [putBack, attempted, List.length_append, List.length_map, List.length_singleton]
    at bound
  omega

/-- An answer: the target has been tried, and only hosts in reach are dropped. -/
theorem Sweeping.answered {target : Address} (sweeping : Sweeping valid (h.putBack target))
    {answer : Option (List Address)} {h' : Heal}
    (fewer : h'.potentialTargets.Sublist h.potentialTargets)
    (dropped : ∀ host ∈ h.potentialTargets,
      host ∈ h'.potentialTargets ∨ ∃ reachable ∈ answer, host ∈ reachable)
    (attempts : h'.attempts = h.attempts ++ [(target, answer)])
    (failed : h'.numberOfFailures = h.numberOfFailures + if answer.isNone then 1 else 0)
    (targets : h'.targets = h.targets ++ (answer.map fun _ => target).toList)
    (silent : h'.callbacks = h.callbacks) : Sweeping valid h' := by
  have attempted' : h'.attempted = h.attempted ++ [target] := by
    rw [attempted, attempts, List.map_append]
    rfl
  -- the target moves from the one list to the other
  have moved : (h.potentialTargets ++ (h.attempted ++ [target])).Perm
      ((h.putBack target).potentialTargets ++ (h.putBack target).attempted) := by
    change (h.potentialTargets ++ (h.attempted ++ [target])).Perm
      (h.potentialTargets ++ [target] ++ h.attempted)
    rw [List.append_assoc]
    exact List.perm_append_comm.append_left _
  have kept : (h'.potentialTargets ++ h'.attempted).Sublist
      (h.potentialTargets ++ (h.attempted ++ [target])) := by
    rw [attempted']
    exact fewer.append_right _
  have reached (host : Address) (told : h.Reached host) : h'.Reached host := by
    obtain ⟨attempt, member, listed⟩ := told
    exact ⟨attempt, by rw [attempts]; exact List.mem_append_left _ member, listed⟩
  refine ⟨kept.nodup (moved.nodup_iff.mpr sweeping.distinct), fun host member => ?_,
    fun host member => ?_, ?_, ?_, silent.trans sweeping.silent⟩
  · exact sweeping.inside host (moved.mem_iff.mp (kept.subset member))
  · rw [attempted', List.mem_append, List.mem_singleton]
    rcases sweeping.covered host member with left | tried | told
    · rcases List.mem_append.mp left with left | same
      · refine (dropped host left).imp_right ?_
        rintro ⟨reachable, given, listed⟩
        exact .inr ⟨(target, answer), by simp [attempts], reachable, given, listed⟩
      · exact .inr (.inl (.inr (List.mem_singleton.mp same)))
    · exact .inr (.inl (.inl tried))
    · exact .inr (.inr (reached host told))
  · have before : h.numberOfFailures = h.failures := sweeping.failed
    rw [failed, before, failures, failures, attempts, List.countP_append, List.countP_singleton]
  · have before : h.targets = h.healed := sweeping.targets
    rw [targets, before, healed, healed, attempts, List.filterMap_append]
    cases answer <;> rfl

/-- Each answer brings the next attempt or the end. -/
theorem Running.onHealAttempt (running : Running valid maxNumberOfFailures h)
    (answer : Option (List Address)) :
    (onHealAttempt maxNumberOfFailures h answer).attempts.length = h.attempts.length + 1 ∧
    (Running valid maxNumberOfFailures (onHealAttempt maxNumberOfFailures h answer) ∨
      Finished valid maxNumberOfFailures (onHealAttempt maxNumberOfFailures h answer)) := by
  obtain ⟨target, attempting, sweeping, few⟩ := running
  have keeps (h : Heal) :
      (DiscoverProviderHealer.healNext maxNumberOfFailures h).attempts = h.attempts := by
    rw [DiscoverProviderHealer.healNext]
    split
    · split <;> rfl
    · rfl
  rw [DiscoverProviderHealer.onHealAttempt, attempting]
  cases answer with
  | none =>
    refine ⟨by simp [keeps], Sweeping.healNext ?_ ?_⟩
    · exact sweeping.answered (List.Sublist.refl _) (fun _ => .inl) rfl rfl
        (List.append_nil _).symm rfl
    · simp only [failures, List.countP_append, List.countP_singleton] at few ⊢
      exact few
  | some reachable =>
    refine ⟨by simp [keeps], Sweeping.healNext ?_ ?_⟩
    · refine sweeping.answered List.filter_sublist (fun host left => ?_) rfl rfl rfl rfl
      by_cases listed : host ∈ reachable
      · exact .inr ⟨reachable, rfl, listed⟩
      · exact .inl (List.mem_filter.mpr ⟨left, by simpa using listed⟩)
    · simp only [failures, List.countP_append, List.countP_singleton] at few ⊢
      exact few.le

end Heal

namespace DiscoverProviderHealer
open Heal
variable {env : Env} {m : Membership} {valid : List Address} {maxNumberOfFailures : ℕ}

theorem healAfter_succ (start : Heal) (outcome : ℕ → Option (List Address)) (answered : ℕ) :
    healAfter maxNumberOfFailures start outcome (answered + 1) =
      onHealAttempt maxNumberOfFailures
        (healAfter maxNumberOfFailures start outcome answered) (outcome answered) := by
  rw [healAfter, List.range_succ, List.map_append, List.foldl_append]
  rfl

/-- A heal keeps running, one attempt for each answer, until it is finished. -/
theorem running_until {start : Heal} (begun : start.attempts = [])
    (first : Running valid maxNumberOfFailures start ∨ Finished valid maxNumberOfFailures start)
    (outcome : ℕ → Option (List Address)) (n : ℕ) :
    let after := healAfter maxNumberOfFailures start outcome
    (∃ k ≤ n, Finished valid maxNumberOfFailures (after k) ∧
      ∀ j < k, Running valid maxNumberOfFailures (after j)) ∨
    (∀ j ≤ n, Running valid maxNumberOfFailures (after j)) ∧ (after n).attempts.length = n := by
  intro after
  induction n with
  | zero =>
    rcases first with running | finished
    · refine .inr ⟨fun j hj => ?_, ?_⟩
      · obtain rfl := Nat.le_zero.mp hj
        exact running
      · exact congrArg List.length begun
    · exact .inl ⟨0, Nat.le_refl 0, finished, fun j hj => absurd hj (Nat.not_lt_zero j)⟩
  | succ n ih =>
    rcases ih with ⟨k, hk, ended⟩ | ⟨running, length⟩
    · exact .inl ⟨k, Nat.le_succ_of_le hk, ended⟩
    · obtain ⟨more, next⟩ := (running n (Nat.le_refl n)).onHealAttempt (outcome n)
      rw [← healAfter_succ] at more next
      rcases next with still | finished
      · refine .inr ⟨fun j hj => ?_, more.trans (congrArg (· + 1) length)⟩
        rcases Nat.le_succ_iff.mp hj with earlier | rfl
        · exact running j earlier
        · exact still
      · exact .inl ⟨n + 1, Nat.le_refl _, finished,
          fun j hj => running j (Nat.lt_succ_iff.mp hj)⟩

/-- A host that a heal may try: unknown, or taken for dead. -/
def Valid (env : Env) (m : Membership) (host : Address) : Prop :=
  host ≠ env.whoami ∧ ∀ s, m.view host = some s →
    s.status = .faulty ∨ s.status = .leave ∨ s.status = .tombstone

theorem isHostAValidTarget_iff (host : Address) :
    isHostAValidTarget env m host = true ↔ Valid env m host := by
  rw [isHostAValidTarget, Valid, Membership.view]
  by_cases self : host = env.whoami
  · simp [self]
  · rcases found : m.findMemberByAddress host with _ | member
    · simp [self]
    · cases status : member.status <;>
        simp [self, Member.standing, status, statusPrecedence]

/-- A heal visits what it can: it ends with one call of its callback, for every order of the
targets and every sequence of outcomes. -/
theorem heal_visits (env : Env) (m : Membership) (maxNumberOfFailures : ℕ)
    {hosts : List Address} (distinct : hosts.Nodup) {shuffle : List Address → List Address}
    (shuffles : ∀ l, (shuffle l).Perm l) (outcome : ℕ → Option (List Address)) :
    let start := onHostsDiscovered env m shuffle maxNumberOfFailures (heal true true) (.ok hosts)
    let after := healAfter maxNumberOfFailures start outcome
    ∃ k ≤ hosts.length,
      (∀ j < k, (after j).attempting.isSome ∧ (after j).callbacks = []) ∧
      (after k).attempting = none ∧ (after k).callbacks = [.ok (after k).healed] ∧
      (∀ host ∈ (after k).attempted, host ∈ hosts ∧ Valid env m host) ∧
      (after k).attempted.Nodup ∧ (after k).failures ≤ maxNumberOfFailures ∧
      ((after k).failures < maxNumberOfFailures → ∀ host ∈ hosts, Valid env m host →
        host ∈ (after k).attempted ∨ (after k).Reached host) := by
  intro start after
  have member (host : Address) :
      host ∈ getTargets env m shuffle hosts ↔ host ∈ hosts ∧ Valid env m host := by
    rw [getTargets, (shuffles _).mem_iff, List.mem_filter, isHostAValidTarget_iff]
  have few : (getTargets env m shuffle hosts).length ≤ hosts.length := by
    rw [getTargets, (shuffles _).length_eq]
    exact List.length_filter_le _ _
  have sweeping : Sweeping (getTargets env m shuffle hosts)
      { heal true true with potentialTargets := getTargets env m shuffle hosts } := by
    refine ⟨?_, fun host left => ?_, fun host left => .inl left, rfl, rfl, rfl⟩
    · change (getTargets env m shuffle hosts ++ []).Nodup
      rw [List.append_nil, getTargets, (shuffles _).nodup_iff]
      exact distinct.filter _
    · change host ∈ getTargets env m shuffle hosts ++ [] at left
      rwa [List.append_nil] at left
  have first := sweeping.healNext (Nat.zero_le maxNumberOfFailures)
  have begun : start.attempts = [] := by
    change (healNext _ _).attempts = []
    rw [healNext]
    split
    · split <;> rfl
    · rfl
  rcases running_until begun first outcome (getTargets env m shuffle hosts).length with
    ⟨k, hk, finished, running⟩ | ⟨running, length⟩
  · refine ⟨k, hk.trans few, fun j hj => ?_, finished.idle, finished.called,
      fun host tried => (member host).mp (finished.inside host tried), finished.once,
      finished.budget, fun less host known valid =>
        finished.covered less host ((member host).mpr ⟨known, valid⟩)⟩
    obtain ⟨target, attempting, sweeping, -⟩ := running j hj
    exact ⟨by rw [attempting]; rfl, sweeping.silent⟩
  · have bound := (running _ (Nat.le_refl _)).attempts_lt
    omega

/-- The first target fails, the second one can reach the third. -/
theorem heal_visits_three_hosts :
    let env := Env.sample (.of "a:1" (by decide))
    let b := Address.of "b:1" (by decide)
    let c := Address.of "c:1" (by decide)
    let d := Address.of "d:1" (by decide)
    let m := (Membership.makeLocalAlive env ⟨7, [], 0⟩ (.new env)).1
    let outcome : ℕ → Option (List Address) := fun attempt => if attempt = 0 then none else some [d]
    let start := onHostsDiscovered env m List.reverse 3 (heal true true) (.ok [b, env.whoami, c, d])
    let after := healAfter 3 start outcome
    (after 2).callbacks = [.ok [c]] ∧ ∃ k ≤ 4, (after k).attempting = none ∧
      (after k).attempted.Nodup ∧ (after k).failures ≤ 3 := by
  intro env b c d m outcome start after
  obtain ⟨k, hk, -, idle, -, -, once, budget, -⟩ := heal_visits env m 3
    (by decide : [b, env.whoami, c, d].Nodup) List.reverse_perm outcome
  exact ⟨rfl, k, hk, idle, once, budget⟩

end DiscoverProviderHealer
end Ringpop.Members
