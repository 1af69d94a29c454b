import Ringpop.MemberList
import Ringpop.ParsedChanges
import Ringpop.Joiner
import Ringpop.Runs

/-! Reverse full syncs of `lib/gossip/dissemination.js`: a ready node that has sent its whole
list to another one asks for the list of that one, in a limited number of jobs. -/
namespace Ringpop.Members
open JsString

/-- What a join request calls back with; `safeParse` makes `null` of an empty body. Each change
has its tick. The last two fields are what `membership.update` comes to where that depends on
objects that describe no member: whether it returns, and the list that it leaves. -/
inductive ReverseAnswer (env : Env) where
  | error
  | response (res : Json) (ticks : ℕ → Tick) (otherwise : Bool) (left : MemberList env)

structure ReverseSyncEnv where
  members : Env
  app : Str
  tchannelRetryLimit : ℕ
  maxReverseFullSyncJobs : ℕ

namespace MemberList
variable {env : Env}

/-- The passes of the loop of `update`, when a later one or a handler throws. -/
def processed (l : MemberList env) (changes : List (Update × Tick)) : MemberList env where
  membership := (l.membership.processChanges env changes).1
  ref := l.ref
  wellFormed := (Membership.processChanges_applied l.wellFormed l.known changes).1.wellFormed
  known := (Membership.processChanges_applied l.wellFormed l.known changes).1.localMember

end MemberList

/-- The changes that describe members. -/
def describing (changes : List Change) (ticks : ℕ → Tick) : List (Update × Tick) :=
  changes.zipIdx.filterMap fun change => change.1.update.map fun u => (u, ticks change.2)

/-- `regular` when all entries of the list describe members; of other lists `membership` has
the local member only. The last two fields are a history: the join requests that have been
sent and are not answered, and the number of the next one. -/
structure ReverseFullSyncs (env : ReverseSyncEnv) where
  membership : MemberList env.members
  regular : Bool
  reverseFullSyncJobs : ℤ
  unanswered : List (ℕ × JoinRequest)
  nextRequest : ℕ

/-- Anything else that a node does may change its member list. -/
inductive ReverseSyncEvent (env : ReverseSyncEnv) where
  | tryStartReverseFullSync (target : Address) (timeout : ℕ)
  | onJoin (request : ℕ) (answer : ReverseAnswer env.members)
  | changed (membership : MemberList env.members) (regular : Bool)

namespace ReverseFullSyncs
variable {env : ReverseSyncEnv}

def new (membership : MemberList env.members) : ReverseFullSyncs env :=
  ⟨membership, true, 0, [], 0⟩

def reverseFullSync (s : ReverseFullSyncs env) (target : Address) (timeout : ℕ) :
    ReverseFullSyncs env :=
  { s with
    unanswered := s.unanswered ++ [(s.nextRequest,
      { host := target.name
        retryLimit := env.tchannelRetryLimit
        timeout := timeout
        app := env.app
        source := env.members.whoami.name
        incarnationNumber := s.membership.localStanding.incarnationNumber })]
    nextRequest := s.nextRequest + 1 }

def tryStartReverseFullSync (s : ReverseFullSyncs env) (target : Address) (timeout : ℕ) :
    ReverseFullSyncs env :=
  if s.reverseFullSyncJobs ≥ env.maxReverseFullSyncJobs then s
  else
    { s with reverseFullSyncJobs := s.reverseFullSyncJobs + 1 }.reverseFullSync target timeout

/-- The callback of `_reverseFullSync`. -/
def onReverseFullSync (s : ReverseFullSyncs env) : ReverseFullSyncs env :=
  { s with reverseFullSyncJobs := s.reverseFullSyncJobs - 1 }

def listed (s : ReverseFullSyncs env) (otherwise : Bool) : ListedMembers where
  undefinedListed := (s.membership.view undefinedAddress).isSome
  regular := s.regular
  otherwise := otherwise

/-- `membership.update`, and whether it returns. -/
def update (s : ReverseFullSyncs env) (changes : List Change) (ticks : ℕ → Tick)
    (otherwise : Bool) (left : MemberList env.members) : ReverseFullSyncs env × Bool :=
  if changes.isEmpty then (s, true)
  else if s.regular && !changes.any Change.isOther then
    if (s.listed otherwise).returns changes then
      ({ s with membership := s.membership.update (describing changes ticks) }, true)
    else
      let changes := changes.takeWhile fun change => !change.isMissing
      ({ s with
          membership := s.membership.processed (describing changes ticks)
          regular := changes.all fun change => change.update.isSome }, false)
  else
    ({ s with membership := left, regular := false }, (s.listed otherwise).returns changes)

def onJoin (s : ReverseFullSyncs env) : ReverseAnswer env.members → ReverseFullSyncs env
  | .error => s.onReverseFullSync
  -- `res.membershipChecksum` throws
  | .response .null _ _ _ => s
  | .response res ticks otherwise left =>
    let changes := Json.asChanges (Json.field (str "membership") (some res))
    let (s, returns) := s.update changes ticks otherwise left
    if returns then s.onReverseFullSync else s

/-- Requests are answered once. -/
def step (s : ReverseFullSyncs env) : ReverseSyncEvent env → ReverseFullSyncs env
  | .tryStartReverseFullSync target timeout => s.tryStartReverseFullSync target timeout
  | .onJoin request answer =>
    if s.unanswered.any fun sent => sent.1 = request then
      { s with unanswered := s.unanswered.eraseP fun sent => sent.1 = request }.onJoin answer
    else s
  | .changed membership regular => { s with membership, regular }

def run (membership : MemberList env.members) (events : List (ReverseSyncEvent env)) :
    ReverseFullSyncs env :=
  events.foldl step (new membership)

/-- Every slot that is taken belongs to a request that is not answered yet. -/
structure Exact (s : ReverseFullSyncs env) : Prop where
  counted : s.reverseFullSyncJobs = s.unanswered.length
  nonneg : 0 ≤ s.reverseFullSyncJobs
  bounded : s.reverseFullSyncJobs ≤ env.maxReverseFullSyncJobs
  restarts : s.unanswered = [] → 0 < env.maxReverseFullSyncJobs → ∀ target timeout,
    (s.tryStartReverseFullSync target timeout).unanswered.length = 1

/-- An answer that is an error, or has changes that `membership.update` gets through. -/
def completes (s : ReverseFullSyncs env) : ReverseAnswer env.members → Bool
  | .error => true
  | .response res _ otherwise _ =>
    (s.listed otherwise).returns (Json.asChanges (Json.field (str "membership") (some res)))

/-- An answer to a pending request does not break off. -/
def Returns (s : ReverseFullSyncs env) : ReverseSyncEvent env → Prop
  | .onJoin request answer =>
    (s.unanswered.any fun sent => sent.1 = request) = true → s.completes answer = true
  | _ => True

variable {s : ReverseFullSyncs env}

theorem Exact.of_counted (counted : s.reverseFullSyncJobs = s.unanswered.length)
    (bounded : s.reverseFullSyncJobs ≤ env.maxReverseFullSyncJobs) : Exact s where
  counted := counted
  nonneg := by omega
  bounded := bounded
  restarts idle positive target timeout := by
    rw [idle, List.length_nil] at counted
    have free : ¬ s.reverseFullSyncJobs ≥ env.maxReverseFullSyncJobs := by omega
    rw [tryStartReverseFullSync, if_neg free, reverseFullSync, idle]
    rfl

theorem exact_new (membership : MemberList env.members) : Exact (new membership) :=
  .of_counted rfl (Int.natCast_nonneg _)

theorem Exact.tryStartReverseFullSync (exact : Exact s) (target : Address) (timeout : ℕ) :
    Exact (s.tryStartReverseFullSync target timeout) := by
  rw [ReverseFullSyncs.tryStartReverseFullSync]
  split
  case isTrue => exact exact
  case isFalse free =>
    have counted := exact.counted
    refine .of_counted ?_ ?_
    · simp only [reverseFullSync, List.length_append, List.length_singleton]
      omega
    · simp only [reverseFullSync]
      omega

theorem describing_members (updates : List Update) (ticks : ℕ → Tick) :
    describing (updates.map Change.member) ticks =
      updates.zipIdx.map fun u => (u.1, ticks u.2) := by
  rw [describing, List.zipIdx_map, List.filterMap_map, ← List.filterMap_eq_map]
  rfl

/-- Changes that describe members are applied as one update. -/
theorem update_members (regular : s.regular = true) {updates : List Update} (some : updates ≠ [])
    (ticks : ℕ → Tick) (otherwise : Bool) (left : MemberList env.members) :
    s.update (updates.map Change.member) ticks otherwise left =
      ({ s with membership :=
          s.membership.update (updates.zipIdx.map fun u => (u.1, ticks u.2)) }, true) := by
  have described : (updates.map Change.member).any Change.isOther = false := by
    simp [Change.isOther]
  have nonempty : (updates.map Change.member).isEmpty = false := by simpa using some
  have returns : (s.listed otherwise).returns (updates.map Change.member) = true :=
    ListedMembers.returns_members regular updates
  rw [update, described, nonempty, regular, returns, describing_members]
  rfl

theorem update_jobs (s : ReverseFullSyncs env) (changes : List Change) (ticks : ℕ → Tick)
    (otherwise : Bool) (left : MemberList env.members) :
    let result := s.update changes ticks otherwise left
    result.1.unanswered = s.unanswered ∧ result.1.reverseFullSyncJobs = s.reverseFullSyncJobs ∧
      result.2 = (s.listed otherwise).returns changes := by
  unfold update
  split
  case isTrue none =>
    obtain rfl := List.isEmpty_iff.mp none
    exact ⟨rfl, rfl, rfl⟩
  case isFalse =>
    split
    case isTrue =>
      split
      case isTrue returns => exact ⟨rfl, rfl, returns.symm⟩
      case isFalse throws => exact ⟨rfl, rfl, (Bool.eq_false_iff.mpr throws).symm⟩
    case isFalse => exact ⟨rfl, rfl, rfl⟩

/-- A slot is released by an answer that does not break off. -/
theorem onJoin_jobs (s : ReverseFullSyncs env) (answer : ReverseAnswer env.members) :
    (s.onJoin answer).unanswered = s.unanswered ∧
    (s.onJoin answer).reverseFullSyncJobs =
      if s.completes answer then s.reverseFullSyncJobs - 1 else s.reverseFullSyncJobs := by
  unfold onJoin completes
  split
  case h_1 => exact ⟨rfl, rfl⟩
  case h_2 otherwise _ =>
    have throws : (s.listed otherwise).returns
        (Json.asChanges (Json.field (str "membership") (some .null))) = false :=
      ListedMembers.returns_missing List.mem_cons_self
    exact ⟨rfl, (if_neg (Bool.eq_false_iff.mp throws)).symm⟩
  case h_3 res ticks otherwise left _ =>
    obtain ⟨requests, jobs, returned⟩ := s.update_jobs
      (Json.asChanges (Json.field (str "membership") (some res))) ticks otherwise left
    simp only [returned, onReverseFullSync]
    split
    · exact ⟨requests, congrArg (· - 1) jobs⟩
    · exact ⟨requests, jobs⟩

/-- After an answer the slots are exact if and only if it did not break off. -/
theorem Exact.onJoin (exact : Exact s) {request : ℕ}
    (pending : (s.unanswered.any fun sent => sent.1 = request) = true)
    (answer : ReverseAnswer env.members) :
    Exact ({ s with unanswered := s.unanswered.eraseP fun sent => sent.1 = request }.onJoin
      answer) ↔ s.completes answer = true := by
  obtain ⟨sent, member, same⟩ := List.any_eq_true.mp pending
  have fewer : (s.unanswered.eraseP fun sent => sent.1 = request).length =
      s.unanswered.length - 1 := List.length_eraseP_of_mem member same
  have positive := List.length_pos_of_mem member
  have counted := exact.counted
  have bounded := exact.bounded
  obtain ⟨requests, jobs⟩ := onJoin_jobs
    { s with unanswered := s.unanswered.eraseP fun sent => sent.1 = request } answer
  rw [show completes { s with unanswered := s.unanswered.eraseP fun sent => sent.1 = request }
    answer = s.completes answer from rfl] at jobs
  constructor
  · intro after
    by_contra incomplete
    have counted' := after.counted
    rw [jobs, if_neg incomplete, requests] at counted'
    dsimp only at counted'
    omega
  · intro complete
    refine .of_counted ?_ ?_
    · rw [jobs, if_pos complete, requests]
      dsimp only
      omega
    · rw [jobs, if_pos complete]
      dsimp only
      omega

theorem Exact.step (exact : Exact s) (event : ReverseSyncEvent env) :
    Exact (s.step event) ↔ Returns s event := by
  cases event with
  | tryStartReverseFullSync target timeout =>
    exact iff_of_true (exact.tryStartReverseFullSync target timeout) trivial
  | onJoin request answer =>
    rw [ReverseFullSyncs.step, Returns]
    split
    case isTrue pending => rw [exact.onJoin pending, imp_iff_right pending]
    case isFalse missing => exact iff_of_true exact fun pending => absurd pending missing
  | changed => exact iff_of_true (.of_counted exact.counted exact.bounded) trivial

/-- No slot leaks in a run exactly when no answer breaks off. -/
theorem run_exact_iff (membership : MemberList env.members)
    (events : List (ReverseSyncEvent env)) :
    (∀ reached, reached <+: events → Exact (run membership reached)) ↔
      Runs.Throughout step Returns (new membership) events :=
  Runs.always_iff_throughout Exact Exact (fun _ => id)
    (fun _ event exact met => (exact.step event).mpr met)
    (fun _ event exact missed => fun after => missed ((exact.step event).mp after))
    (exact_new membership) events

/-- An empty body, a body without a list and a list of numbers each take a slot for good. -/
theorem run_not_exact :
    let members := Env.sample (.of "a:1" (by decide))
    let env : ReverseSyncEnv := ⟨members, str "app", 0, 3⟩
    let b := Address.of "b:1" (by decide)
    let c := Address.of "c:1" (by decide)
    let d := Address.of "d:1" (by decide)
    let alone := MemberList.alone members ⟨7, [], 0⟩
    let answer (res : Json) : ReverseAnswer members := .response res (fun _ => ⟨8, [], 0⟩) true alone
    let start : List (ReverseSyncEvent env) :=
      [.tryStartReverseFullSync b 1000, .tryStartReverseFullSync c 1000,
        .tryStartReverseFullSync d 1000, .onJoin 0 (answer .null),
        .onJoin 1 (answer (.object [(str "membershipChecksum", .number 7)])),
        .onJoin 2 (answer (.object [(str "membership", .array [.number 5])]))]
    let s := run alone start
    s.unanswered = [] ∧ s.reverseFullSyncJobs = 3 ∧
      s.tryStartReverseFullSync b 1000 = s ∧ ¬ Exact s := by
  intro members env b c d alone answer start s
  have idle : s.unanswered.length = 0 := by decide
  have jobs : s.reverseFullSyncJobs = 3 := by decide
  refine ⟨List.length_eq_zero_iff.mp idle, jobs, ?_, fun exact => ?_⟩
  · rw [tryStartReverseFullSync, if_pos (by rw [jobs]; decide)]
  · have counted := exact.counted
    rw [jobs, idle] at counted
    cases counted

end ReverseFullSyncs
end Ringpop.Members
