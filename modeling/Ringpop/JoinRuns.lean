import Ringpop.JoinSelection
import Ringpop.Runs

/-! Whole runs of `join`: no group is empty, some request or the retry timer is always
waited for until the callback, and the callback comes once, with as many hosts as wanted. -/
namespace Ringpop.Members
open JsString Dictionary

/-- What `join` may call back with. -/
def JoinResult.Fair (env : JoinEnv) (options : JoinerOptions) (destroyed : Bool) :
    JoinResult → Prop
  | .aborted _ => destroyed = true
  | .durationExceeded joinDuration maxJoinDuration =>
    maxJoinDuration = env.maxJoinDuration ∧ maxJoinDuration < joinDuration
  | .single => False
  | .joined nodesJoined =>
    nodesJoined.Nodup ∧ (∀ hostPort ∈ nodesJoined, hostPort ∈ env.others) ∧
      nodesJoined.length = min (options.joinSize.getD 3) env.others.dedup.length

/-- A group of new and distinct hosts. -/
structure JoinGroup.Proper (env : JoinEnv) (g : JoinGroup) : Prop where
  some : g.group ≠ []
  nodup : g.group.Nodup
  new : ∀ hostPort ∈ g.group, hostPort ∉ g.totalNodesJoined
  listed : ∀ hostPort ∈ g.group, hostPort ∈ env.others
  foreign : env.hostPort.name ∉ g.group

/-- Joining goes on until it has called back, once and for good reason. -/
structure Joins (env : JoinEnv) (options : JoinerOptions) (p : Joining) : Prop where
  groups : ∀ g ∈ p.groups, g.Proper env
  callsBack : ∀ g ∈ p.groups, g.callbacks ≤ 1 ∧ (g.outstanding = [] → g.callbacks = 1)
  waits : p.results = [] →
    (∃ g ∈ p.groups, g.outstanding ≠ []) ∨ ∃ timer, (p.queue.callback timer).isSome
  once : p.results.length ≤ 1
  fair : ∀ result ∈ p.results, result.Fair env options p.destroyed

/-- The bodies are merged, and `membership.update` takes the outcome. -/
def JoinDraw.merges (env : JoinEnv) (draw : JoinDraw) (bodies : Option (List JoinBody)) : Bool :=
  match JoinBody.mergeJoinResponses env.hostPort draw.otherwise bodies with
  | none => false
  | some updates => draw.updates updates

/-- If the answer completes the join, the bodies that were kept are merged with its own. -/
def Joining.Merges (env : JoinEnv) (p : Joining) : JoinEvent → Prop
  | .answer draw group request (.response res) => ∀ g ∈ p.groups[group]?,
    (g.outstanding[request]?).isSome → g.calledBack = false → p.destroyed = false →
      p.joiner.joinSize ≤ p.numJoined + g.nodesJoined.length + 1 →
        draw.merges env (p.joiner.keepResponse (.response res)).joinResponses = true
  | _ => True

instance (env : JoinEnv) (p : Joining) : DecidablePred (p.Merges env) := fun event =>
  match event with
  | .answer _ group _ (.response _) => inferInstanceAs (Decidable (∀ g ∈ p.groups[group]?, _))
  | .answer _ _ _ .error | .destroy | .onTimeout _ _ => isTrue trivial

/-- A group that has called back. -/
structure JoinGroup.Closed (g : JoinGroup) : Prop where
  calledBack : g.calledBack = true
  callbacks : g.callbacks = 1

/-- A group that has not, in a call of `join` that has joined other hosts before it. -/
structure JoinGroup.Open (p : Joining) (g : JoinGroup) : Prop where
  calledBack : g.calledBack = false
  callbacks : g.callbacks = 0
  total : g.totalNodesJoined = p.nodesJoined
  left : g.numNodesLeft = p.joiner.joinSize - p.nodesJoined.length
  account : (g.nodesJoined ++ (g.nodesFailed ++ g.outstanding.map JoinRequest.host)).Perm g.group
  few : p.nodesJoined.length + g.nodesJoined.length < p.joiner.joinSize
  supply : ∀ successes, successes.Subperm g.group →
    p.nodesJoined.length + successes.length < p.joiner.joinSize →
    Supply p.joiner.joinSize p.joiner.parallelismFactor (p.nodesJoined ++ successes)
      p.joiner.roundPreferredNodes p.joiner.roundNonPreferredNodes

/-- What a call of `join` waits for. -/
inductive Awaits (env : JoinEnv) (options : JoinerOptions) (p : Joining) : Prop
  | group (closed : List JoinGroup) (g : JoinGroup) (groups : p.groups = closed ++ [g])
      (spent : ∀ d ∈ closed, d.Closed ∧ d.outstanding = []) (opened : g.Open p)
      (asked : g.outstanding ≠ []) (idle : ∀ t, p.queue.callback t = none)
      (going : p.calledBack = false ∧ p.results = [])
  | timer (timer : ℕ) (spent : ∀ d ∈ p.groups, d.Closed ∧ d.outstanding = [])
      (timers : ∀ t, p.queue.callback t = if t = timer then some () else none)
      (few : p.nodesJoined.length < p.joiner.joinSize)
      (supply : Supply p.joiner.joinSize p.joiner.parallelismFactor p.nodesJoined
        p.joiner.roundPreferredNodes p.joiner.roundNonPreferredNodes)
      (going : p.calledBack = false ∧ p.results = [])
  | nothing (result : JoinResult) (closed : ∀ d ∈ p.groups, d.Closed)
      (idle : ∀ t, p.queue.callback t = none)
      (ended : p.calledBack = true ∧ p.results = [result])
      (fair : result.Fair env options p.destroyed)

/-- What holds whatever is awaited. -/
structure Joining.Base (env : JoinEnv) (options : JoinerOptions) (p : Joining) : Prop where
  joinSize : p.joiner.joinSize = min (options.joinSize.getD 3) env.others.length
  parallelismFactor : p.joiner.parallelismFactor = options.parallelismFactor.getD 2
  numJoined : p.numJoined = p.nodesJoined.length
  nodup : p.nodesJoined.Nodup
  others : ∀ hostPort ∈ p.nodesJoined, hostPort ∈ env.others
  rounds : ∀ hostPort ∈ p.joiner.roundPreferredNodes ++ p.joiner.roundNonPreferredNodes,
    hostPort ∈ env.others
  groups : ∀ g ∈ p.groups, g.Proper env

structure Joining.Inv (env : JoinEnv) (options : JoinerOptions) (p : Joining) : Prop
    extends p.Base env options where
  awaits : Awaits env options p

variable {env : JoinEnv} {options : JoinerOptions} {p : Joining}

theorem Joining.Inv.joins (inv : p.Inv env options) : Joins env options p where
  groups := inv.groups
  callsBack g listed := by
    cases inv.awaits with
    | group closed last groups spent opened asked =>
      rw [groups, List.mem_append, List.mem_singleton] at listed
      rcases listed with before | rfl
      · have := (spent g before).1.callbacks
        exact ⟨this.le, fun _ => this⟩
      · exact ⟨by rw [opened.callbacks]; exact Nat.zero_le 1, fun none => absurd none asked⟩
    | timer _ spent =>
      have := (spent g listed).1.callbacks
      exact ⟨this.le, fun _ => this⟩
    | nothing _ closed =>
      have := (closed g listed).callbacks
      exact ⟨this.le, fun _ => this⟩
  waits going := by
    cases inv.awaits with
    | group closed last groups spent opened asked =>
      exact .inl ⟨last, groups ▸ List.mem_append_right _ (List.mem_singleton_self last), asked⟩
    | timer timer spent timers => exact .inr ⟨timer, by simp [timers]⟩
    | nothing result closed idle done =>
      rw [done.2] at going
      cases going
  once := by
    cases inv.awaits with
    | group closed last groups spent opened asked idle going => simp [going.2]
    | timer timer spent timers few supply going => simp [going.2]
    | nothing result closed idle done => simp [done.2]
  fair result listed := by
    cases inv.awaits with
    | group closed last groups spent opened asked idle going =>
      rw [going.2] at listed
      cases listed
    | timer timer spent timers few supply going =>
      rw [going.2] at listed
      cases listed
    | nothing only closed idle done fair =>
      rw [done.2, List.mem_singleton] at listed
      exact listed ▸ fair

/-- `joinGroup` selects new hosts and waits for them. -/
theorem Joining.Base.joinGroup (base : p.Base env options) (joinable : Joinable env options)
    (parallel : 1 ≤ p.joiner.parallelismFactor)
    (few : p.nodesJoined.length < p.joiner.joinSize)
    (supply : Supply p.joiner.joinSize p.joiner.parallelismFactor p.nodesJoined
      p.joiner.roundPreferredNodes p.joiner.roundNonPreferredNodes)
    (spent : ∀ d ∈ p.groups, d.Closed ∧ d.outstanding = [])
    (idle : ∀ t, p.queue.callback t = none) (going : p.calledBack = false ∧ p.results = [])
    (draw : JoinDraw) : (p.joinGroup env draw).Inv env options := by
  have selects := Joiner.selects_selectGroup joinable base.joinSize base.parallelismFactor parallel
    base.nodup base.others few base.rounds supply draw
  rw [Joining.joinGroup]
  generalize p.joiner.selectGroup env draw p.nodesJoined = result at selects
  obtain ⟨group, joiner⟩ := result
  obtain ⟨supplied, listed, rounds, joinSize, parallelismFactor⟩ := selects
  simp only at supplied listed rounds joinSize parallelismFactor ⊢
  refine
    { base with
      joinSize := joinSize.trans base.joinSize
      parallelismFactor := parallelismFactor.trans base.parallelismFactor
      rounds := rounds
      groups := List.forall_mem_append.mpr ⟨base.groups, List.forall_mem_singleton.mpr
        { some := supplied.some
          nodup := supplied.nodup
          new := supplied.new
          listed := listed
          foreign := fun h => (mem_others.mp (listed _ h)).2 rfl }⟩
      awaits := .group p.groups _ rfl spent ?_ ?_ idle going }
  · refine ⟨rfl, rfl, rfl, rfl, ?_, ?_, fun successes part more => ?_⟩
    · simp only [List.nil_append, List.map_map]
      exact List.Perm.of_eq (List.map_id group)
    · rw [joinSize]
      exact few
    · rw [joinSize, parallelismFactor]
      exact supplied.supply successes part (joinSize ▸ more)
  · exact fun none => supplied.some (List.map_eq_nil_iff.mp none)

/-- The books of an open group after an answer. -/
theorem JoinGroup.Open.push {g : JoinGroup} (opened : g.Open p) {request : ℕ} {asked : JoinRequest}
    (found : g.outstanding[request]? = some asked) (answer : JoinAnswer) :
    let pushed := { g with outstanding := g.outstanding.eraseIdx request }.push asked.host answer
    (pushed.nodesJoined ++ (pushed.nodesFailed ++
      pushed.outstanding.map JoinRequest.host)).Perm g.group ∧
    pushed.nodesJoined.length ≤ g.nodesJoined.length + 1 := by
  obtain ⟨inside, rfl⟩ := List.getElem?_eq_some_iff.mp found
  have taken := (List.getElem_cons_eraseIdx_perm inside).map JoinRequest.host
  rw [List.map_cons] at taken
  have before := (((taken.append_left g.nodesFailed).append_left g.nodesJoined).trans
    opened.account)
  cases answer with
  | error =>
    refine ⟨?_, Nat.le_succ _⟩
    simp only [JoinGroup.push, List.append_assoc, List.singleton_append]
    exact before
  | response res =>
    refine ⟨?_, by simp [JoinGroup.push]⟩
    simp only [JoinGroup.push, List.append_assoc, List.singleton_append]
    exact (List.perm_middle.symm.append_left g.nodesJoined).trans before

/-- A group that has just called back. -/
structure JoinGroup.Done (p : Joining) (g : JoinGroup) : Prop extends g.Closed where
  account : (g.nodesJoined ++ (g.nodesFailed ++ g.outstanding.map JoinRequest.host)).Perm g.group
  enough : p.nodesJoined.length + g.nodesJoined.length ≤ p.joiner.joinSize
  answered : p.nodesJoined.length + g.nodesJoined.length < p.joiner.joinSize → g.outstanding = []

/-- An answer to an open group. -/
theorem JoinGroup.Open.onJoin {g : JoinGroup} (opened : g.Open p) {request : ℕ}
    {asked : JoinRequest} (found : g.outstanding[request]? = some asked) (answer : JoinAnswer) :
    let result := { g with outstanding := g.outstanding.eraseIdx request }.onJoin asked.host answer
    result.1.group = g.group ∧ result.1.totalNodesJoined = g.totalNodesJoined ∧
      (result.2 = false ∧ result.1.Open p ∧ result.1.outstanding ≠ [] ∨
        result.2 = true ∧ result.1.Done p) := by
  obtain ⟨account, more⟩ := opened.push found answer
  have same : let pushed :=
      { g with outstanding := g.outstanding.eraseIdx request }.push asked.host answer
      pushed.group = g.group ∧ pushed.totalNodesJoined = g.totalNodesJoined ∧
        pushed.numNodesLeft = g.numNodesLeft ∧ pushed.calledBack = g.calledBack ∧
        pushed.callbacks = g.callbacks := by
    cases answer <;> exact ⟨rfl, rfl, rfl, rfl, rfl⟩
  rw [JoinGroup.onJoin, if_neg (by simp [opened.calledBack])]
  generalize { g with outstanding := g.outstanding.eraseIdx request }.push asked.host answer =
    pushed at account more same
  obtain ⟨group, total, left, calledBack, callbacks⟩ := same
  have all := account.length_eq
  simp only [List.length_append, List.length_map] at all
  have few := opened.few
  simp only
  split
  case isTrue finished =>
    rw [left, opened.left, group] at finished
    refine ⟨group, total, .inr ⟨rfl, ⟨rfl, ?_⟩, group.symm ▸ account, by simp only; omega,
      fun missing => List.length_eq_zero_iff.mp (by simp only at missing ⊢; omega)⟩⟩
    simp only [callbacks, opened.callbacks]
  case isFalse unfinished =>
    rw [left, opened.left, group] at unfinished
    obtain ⟨missing, waiting⟩ := not_or.mp unfinished
    refine ⟨group, total, .inl ⟨rfl, ?_, fun none => waiting ?_⟩⟩
    · exact ⟨calledBack.trans opened.calledBack, callbacks.trans opened.callbacks,
        total.trans opened.total, left.trans opened.left, group.symm ▸ account,
        by simp only; omega, fun successes part => opened.supply successes (group ▸ part)⟩
    · rw [none, List.length_nil] at all
      omega

/-- Hosts that are wanted and hosts that are there, each counted once. -/
theorem Joinable.joinSize (joinable : Joinable env options) (listed : env.bootstrapHosts ≠ []) :
    min (options.joinSize.getD 3) env.others.length =
      min (options.joinSize.getD 3) env.others.dedup.length := by
  rcases joinable.distinct with distinct | ⟨one, -⟩
  · rw [distinct.dedup]
  · have some := joinable.another listed
    have first := List.length_pos_iff.mpr some
    have second := List.length_pos_iff.mpr fun none => some ((List.dedup_eq_nil _).mp none)
    rw [one]
    omega

/-- `join` calls back. -/
theorem Joining.Base.callBack (base : p.Base env options) (closed : ∀ d ∈ p.groups, d.Closed)
    (idle : ∀ t, p.queue.callback t = none) (going : p.results = []) {result : JoinResult}
    (fair : result.Fair env options p.destroyed) : (p.callBack result).Inv env options :=
  { base with
    awaits := .nothing result closed idle ⟨rfl, by rw [Joining.callBack, going]; rfl⟩ fair }

/-- The hosts of a group join those of the groups before it. -/
theorem Joining.Base.absorb (base : p.Base env options) {g : JoinGroup} (done : g.Done p)
    (proper : g.Proper env) (total : g.totalNodesJoined = p.nodesJoined) :
    Joining.Base env options { p with
      nodesJoined := p.nodesJoined ++ g.nodesJoined
      numJoined := p.numJoined + g.nodesJoined.length
      numFailed := p.numFailed + g.nodesFailed.length
      numGroups := p.numGroups + 1 } := by
  have part : ∀ hostPort ∈ g.nodesJoined, hostPort ∈ g.group := fun hostPort here =>
    done.account.mem_iff.mp (List.mem_append_left _ here)
  have distinct := (List.nodup_append.mp (done.account.nodup_iff.mpr proper.nodup)).1
  exact
    { base with
      numJoined := by simp only [base.numJoined, List.length_append]
      nodup := List.nodup_append.mpr ⟨base.nodup, distinct, fun a ha b hb same =>
        proper.new b (part b hb) (total ▸ same ▸ ha)⟩
      others := List.forall_mem_append.mpr
        ⟨base.others, fun b hb => proper.listed b (part b hb)⟩ }

/-- What `join` makes of a group that has called back. -/
theorem Joining.Base.onJoin (base : p.Base env options) (joinable : Joinable env options)
    (listed : env.bootstrapHosts ≠ []) {closed : List JoinGroup} {g : JoinGroup}
    (groups : p.groups = closed ++ [g]) (spent : ∀ d ∈ closed, d.Closed ∧ d.outstanding = [])
    (done : g.Done p) (total : g.totalNodesJoined = p.nodesJoined)
    (supply : ∀ successes, successes.Subperm g.group →
      p.nodesJoined.length + successes.length < p.joiner.joinSize →
      Supply p.joiner.joinSize p.joiner.parallelismFactor (p.nodesJoined ++ successes)
        p.joiner.roundPreferredNodes p.joiner.roundNonPreferredNodes)
    (idle : ∀ t, p.queue.callback t = none) (going : p.calledBack = false ∧ p.results = [])
    (draw : JoinDraw) (merges : p.destroyed = false →
      p.joiner.joinSize ≤ p.numJoined + g.nodesJoined.length →
        draw.merges env p.joiner.joinResponses = true) :
    (p.onJoin env draw g.nodesJoined g.nodesFailed).Inv env options := by
  have closes : ∀ d ∈ p.groups, d.Closed := by
    rw [groups]
    exact List.forall_mem_append.mpr ⟨fun d hd => (spent d hd).1,
      List.forall_mem_singleton.mpr done.toClosed⟩
  have proper : g.Proper env := base.groups g (groups ▸ List.mem_append_right _ (by simp))
  have absorbed := base.absorb done proper total
  rw [Joining.onJoin, if_neg (by simp [going.1])]
  by_cases destroyed : p.destroyed = true
  · rw [if_pos destroyed]
    exact base.callBack closes idle going.2 destroyed
  · rw [if_neg destroyed]
    simp only
    have count := base.numJoined
    have enough := done.enough
    split
    case isTrue reached =>
      have merged := merges (Bool.eq_false_iff.mpr destroyed) reached
      rw [JoinDraw.merges] at merged
      cases together : JoinBody.mergeJoinResponses env.hostPort draw.otherwise
          p.joiner.joinResponses with
      | none =>
        rw [together] at merged
        cases merged
      | some updates =>
        simp only [together] at merged
        simp only [merged, if_true]
        have finished : Joining.Base env options { p with
            nodesJoined := p.nodesJoined ++ g.nodesJoined
            numJoined := p.numJoined + g.nodesJoined.length
            numFailed := p.numFailed + g.nodesFailed.length
            numGroups := p.numGroups + 1
            updates := updates
            joiner := { p.joiner with joinResponses := none } } :=
          { absorbed with }
        refine finished.callBack closes idle going.2 ⟨absorbed.nodup, absorbed.others, ?_⟩
        rw [← joinable.joinSize listed, ← base.joinSize, List.length_append]
        omega
    case isFalse short =>
      have few : p.nodesJoined.length + g.nodesJoined.length < p.joiner.joinSize := by omega
      split
      case isTrue late => exact absorbed.callBack closes idle going.2 ⟨rfl, late⟩
      case isFalse =>
        refine
          { absorbed with
            awaits := .timer p.queue.next ?_ (fun t => ?_) ?_ ?_ going }
        · simp only [groups]
          exact List.forall_mem_append.mpr ⟨spent, List.forall_mem_singleton.mpr
            ⟨done.toClosed, done.answered few⟩⟩
        · rw [TimerQueue.callback_setTimeout, idle]
        · rw [List.length_append]
          exact few
        · refine supply g.nodesJoined ?_ few
          exact (List.sublist_append_left _ _).subperm.trans done.account.subperm

section
variable {g : JoinGroup} {groups : List JoinGroup}

/-- Keeping a response leaves what the invariant is about. -/
theorem Joining.Base.keep (base : p.Base env options) (answer : JoinAnswer)
    (proper : ∀ g ∈ groups, g.Proper env) :
    Joining.Base env options { p with
      joiner := p.joiner.keepResponse answer, groups := groups } :=
  { base with groups := proper }

theorem JoinGroup.Open.keep (opened : g.Open p) (answer : JoinAnswer) :
    g.Open { p with joiner := p.joiner.keepResponse answer, groups := groups } :=
  { opened with }

theorem JoinGroup.Done.keep (done : g.Done p) (answer : JoinAnswer) :
    g.Done { p with joiner := p.joiner.keepResponse answer, groups := groups } :=
  { done with }

end

/-- Only the requests of the last group can be outstanding before `join` calls back. -/
theorem asked_last {closed : List JoinGroup} {last g : JoinGroup} {group request : ℕ}
    {asked : JoinRequest} (spent : ∀ d ∈ closed, d.Closed ∧ d.outstanding = [])
    (found : (closed ++ [last])[group]? = some g) (waits : g.outstanding[request]? = some asked) :
    group = closed.length ∧ g = last := by
  rcases Runs.earlier_or_last found with earlier | isLast
  · rw [(spent g earlier).2] at waits
    cases waits
  · exact isLast

theorem JoinGroup.nodesJoined_onJoin (g : JoinGroup) (opened : g.calledBack = false) (node : Str)
    (answer : JoinAnswer) :
    (g.onJoin node answer).1.nodesJoined = (g.push node answer).nodesJoined := by
  rw [JoinGroup.onJoin, opened, if_neg Bool.false_ne_true]
  generalize g.push node answer = pushed
  simp only
  split <;> rfl

theorem Joining.Inv.answer (inv : p.Inv env options) (joinable : Joinable env options)
    (listed : env.bootstrapHosts ≠ []) (draw : JoinDraw) (group request : ℕ)
    (answer : JoinAnswer) (merges : p.Merges env (.answer draw group request answer)) :
    (p.answer env draw group request answer).Inv env options := by
  rw [Joining.answer]
  rcases found : p.groups[group]? with _ | g
  case none => exact inv
  case some =>
    simp only
    rcases waits : g.outstanding[request]? with _ | asked
    case none => exact inv
    case some =>
      simp only
      have proper := inv.groups g (List.mem_of_getElem? found)
      have renewed {g' : JoinGroup} (same : g'.group = g.group)
          (total : g'.totalNodesJoined = g.totalNodesJoined) : g'.Proper env :=
        ⟨same ▸ proper.some, same ▸ proper.nodup, by rw [same, total]; exact proper.new,
          same ▸ proper.listed, same ▸ proper.foreign⟩
      have replaced {g' : JoinGroup} (proper' : g'.Proper env) :
          ∀ d ∈ p.groups.set group g', d.Proper env := fun d hd =>
        (List.mem_or_eq_of_mem_set hd).elim (inv.groups d) (· ▸ proper')
      cases inv.awaits with
      | group closed last groups spent opened _ idle going =>
        obtain ⟨rfl, rfl⟩ := asked_last spent (groups ▸ found) waits
        obtain ⟨same, total, outcome⟩ := opened.onJoin waits answer
        have joined := JoinGroup.nodesJoined_onJoin
          { g with outstanding := g.outstanding.eraseIdx request } opened.calledBack asked.host
          answer
        have few := opened.few
        have count := inv.numJoined
        have ready (going : p.destroyed = false) (reached : p.joiner.joinSize ≤ p.numJoined +
            (JoinGroup.onJoin { g with outstanding := g.outstanding.eraseIdx request } asked.host
              answer).1.nodesJoined.length) :
            draw.merges env (p.joiner.keepResponse answer).joinResponses = true := by
          rw [joined] at reached
          cases answer with
          | error =>
            -- an error cannot have been the host that was missing
            simp only [JoinGroup.push] at reached
            omega
          | response res =>
            simp only [JoinGroup.push, List.length_append, List.length_singleton] at reached
            exact merges g found (by rw [waits]; rfl) opened.calledBack going (by omega)
        generalize JoinGroup.onJoin _ asked.host answer = result at same total outcome ready
        obtain ⟨g', calls⟩ := result
        have base := inv.toBase.keep answer (replaced (renewed same total))
        have last : p.groups.set closed.length g' = closed ++ [g'] := by
          rw [groups, List.set_append_right _ _ le_rfl]
          simp
        rcases outcome with ⟨rfl, opened', asked'⟩ | ⟨rfl, done⟩
        · exact
            { base with
              awaits := .group closed g' last spent (opened'.keep answer) asked' idle going }
        · refine base.onJoin joinable listed last spent (done.keep answer)
            (total.trans opened.total) (fun successes part => ?_) idle going draw ready
          exact (opened.keep answer).supply successes (same ▸ part)
      | timer _ spent =>
        rw [(spent g (List.mem_of_getElem? found)).2] at waits
        cases waits
      | nothing result closed idle ended fair =>
        have done := closed g (List.mem_of_getElem? found)
        rw [JoinGroup.onJoin, if_pos done.calledBack]
        have proper' : JoinGroup.Proper env
            { g with outstanding := g.outstanding.eraseIdx request } := renewed rfl rfl
        have base := inv.toBase.keep answer (replaced proper')
        refine { base with awaits := .nothing result (fun d hd => ?_) idle ended fair }
        exact (List.mem_or_eq_of_mem_set hd).elim (closed d)
          fun same => same ▸ ⟨done.calledBack, done.callbacks⟩

theorem Joining.Inv.onTimeout (inv : p.Inv env options) (joinable : Joinable env options)
    (parallel : 1 ≤ options.parallelismFactor.getD 2) (draw : JoinDraw) (timer : ℕ) :
    (p.onTimeout env draw timer).Inv env options := by
  rw [Joining.onTimeout]
  rcases fires : p.queue.callback timer with _ | _
  case none => exact inv
  case some =>
    cases inv.awaits with
    | group closed g groups spent opened asked idle going => cases (idle timer).symm.trans fires
    | nothing result closed idle ended fair => cases (idle timer).symm.trans fires
    | timer pending spent timers few supply going =>
      have base : Joining.Base env options { p with
          queue := p.queue.clearTimeout timer
          joiner := { p.joiner with joinRetries := p.joiner.joinRetries + 1 } } :=
        { inv.toBase with }
      refine base.joinGroup joinable (inv.parallelismFactor.symm ▸ parallel) few supply spent
        (fun t => ?_) going draw
      rw [timers] at fires
      split at fires
      case isTrue here =>
        rw [TimerQueue.callback_clearTimeout, timers, here]
        split <;> rfl
      case isFalse => cases fires

theorem JoinResult.Fair.destroy {destroyed : Bool} {result : JoinResult}
    (fair : result.Fair env options destroyed) : result.Fair env options true := by
  cases result with
  | aborted => rfl
  | durationExceeded | single | joined => exact fair

theorem Joining.Inv.step (inv : p.Inv env options) (joinable : Joinable env options)
    (parallel : 1 ≤ options.parallelismFactor.getD 2) (listed : env.bootstrapHosts ≠ [])
    (event : JoinEvent) (merges : p.Merges env event) : (p.step env event).Inv env options := by
  cases event with
  | destroy =>
    have base : Joining.Base env options { p with destroyed := true } := { inv.toBase with }
    refine { base with awaits := ?_ }
    cases inv.awaits with
    | group closed g groups spent opened asked idle going =>
      exact .group closed g groups spent { opened with } asked idle going
    | timer pending spent timers few supply going =>
      exact .timer pending spent timers few supply going
    | nothing result closed idle ended fair => exact .nothing result closed idle ended fair.destroy
  | answer draw group request answer =>
    exact inv.answer joinable listed draw group request answer merges
  | onTimeout draw timer => exact inv.onTimeout joinable parallel draw timer

theorem Joining.inv_join (joinable : Joinable env options)
    (parallel : 1 ≤ options.parallelismFactor.getD 2) (size : 1 ≤ options.joinSize.getD 3)
    {joiner : Joiner} (made : Joiner.new env options = .ok joiner) (destroyed : Bool)
    (draw : JoinDraw) :
    env.bootstrapHosts ≠ [] ∧ (join env joiner destroyed draw).Inv env options := by
  rw [Joiner.new] at made
  split at made
  case isTrue => cases made
  case isFalse listed =>
    refine ⟨listed, ?_⟩
    obtain rfl := Except.ok.inj made
    have potential : Joiner.collectPotentialNodes env [] = env.others := by
      simp [Joiner.collectPotentialNodes_eq]
    have another := joinable.another listed
    rw [Joining.join, potential]
    generalize start : Joining.mk _ _ _ _ _ _ _ _ _ _ _ _ = p
    have base : p.Base env options := by
      subst start
      exact ⟨rfl, rfl, rfl, List.nodup_nil, List.forall_mem_nil _, List.forall_mem_nil _,
        List.forall_mem_nil _⟩
    have none : p.groups = [] ∧ p.nodesJoined = [] ∧ p.calledBack = false ∧ p.results = [] ∧
        p.joiner.roundPreferredNodes = [] ∧ p.joiner.roundNonPreferredNodes = [] := by
      subst start
      exact ⟨rfl, rfl, rfl, rfl, rfl, rfl⟩
    have idle (t : ℕ) : p.queue.callback t = Option.none := by
      subst start
      rfl
    obtain ⟨groups, joined, calledBack, results, preferred, nonPreferred⟩ := none
    split
    case isTrue aborted =>
      refine base.callBack (by simp [groups]) idle results ?_
      subst start
      exact aborted
    case isFalse =>
      rw [if_neg fun alone => another ?_]
      · refine base.joinGroup joinable (base.parallelismFactor.symm ▸ parallel) ?_ ?_
          (by simp [groups]) idle ⟨calledBack, results⟩ draw
        · rw [joined, base.joinSize]
          exact lt_min size (List.length_pos_iff.mpr another)
        · rw [joined, preferred, nonPreferred]
          exact .inl List.nodup_nil
      · have alone : env.bootstrapHosts = [env.hostPort.name] := of_decide_eq_true alone
        rw [JoinEnv.others, alone]
        simp

/-- In every run in which the bodies are merged when enough hosts have joined, every group is
proper and calls back once, the callback is waited for until it comes, and it comes once: too
late, or with as many distinct hosts as wanted. -/
theorem Joining.run_joins (env : JoinEnv) (options : JoinerOptions) (destroyed : Bool)
    (draw : JoinDraw) (events : List JoinEvent) (size : 1 ≤ options.joinSize.getD 3)
    (parallel : 1 ≤ options.parallelismFactor.getD 2) (joinable : Joinable env options)
    (merges : ∀ joiner, Joiner.new env options = .ok joiner →
      Runs.Throughout (step env) (Merges env) (join env joiner destroyed draw) events)
    {p : Joining} (runs : run env options destroyed draw events = .ok p) :
    Joins env options p := by
  rw [run] at runs
  cases made : Joiner.new env options with
  | error error =>
    rw [made] at runs
    cases runs
  | ok joiner =>
    rw [made] at runs
    obtain rfl := Except.ok.inj runs
    obtain ⟨listed, start⟩ := inv_join joinable parallel size made destroyed draw
    exact ((merges joiner made).foldl_invariant (Inv env options)
      (fun _ event inv merges => inv.step joinable parallel listed event merges) start).joins

/-- Two hosts join, one of them when it is asked again, and send their lists. -/
theorem Joining.run_joins_retry :
    let env : JoinEnv := ⟨.of "a:1" (by decide), str "app", [str "a:1", str "b:1", str "c:1"],
      100, 120000, 1200000, 2⟩
    let options : JoinerOptions := ⟨some 2, some 1, none⟩
    let draw : JoinDraw := ⟨5, fun _ => 0, 7, none, none⟩
    let body (checksum : ℚ) : Json := .object [(str "membershipChecksum", .number checksum),
      (str "membership", .array [.object [(str "address", .string (str "b:1")),
        (str "status", .string (str "alive")), (str "incarnationNumber", .number checksum)]])]
    let events : List JoinEvent := [.answer draw 0 0 .error, .answer draw 0 0 (.response (body 3)),
      .onTimeout draw 0, .answer draw 1 0 (.response (body 4))]
    ∃ p, run env options false draw events = .ok p ∧ Joins env options p ∧
      p.groups.length = 2 ∧ p.updates.length = 1 ∧ p.results.length = 1 := by
  intro env options draw body events
  have joinable : Joinable env options := ⟨fun _ => by decide, .inl (by decide)⟩
  have merges (joiner : Joiner) (made : Joiner.new env options = .ok joiner) :
      Runs.Throughout (step env) (Merges env) (join env joiner false draw) events := by
    obtain rfl := Except.ok.inj made
    decide +kernel
  exact ⟨_, rfl, run_joins env options false draw events (by decide) (by decide) joinable merges rfl,
    by decide +kernel, by decide +kernel, by decide +kernel⟩

/-- A bootstrap list of the local host, twice: the only group is empty, and nothing is left
to wait for. -/
theorem Joining.run_hangs :
    let env : JoinEnv := ⟨.of "a:1" (by decide), str "app", [str "a:1", str "a:1"],
      100, 120000, 1200000, 2⟩
    let options : JoinerOptions := ⟨none, none, none⟩
    ∃ p, run env options false ⟨5, fun _ => 0, 7, none, none⟩ [] = .ok p ∧
      ¬ Joins env options p := by
  intro env options
  refine ⟨_, rfl, fun joins => ?_⟩
  rcases joins.waits rfl with ⟨g, listed, asked⟩ | ⟨timer, pending⟩
  · obtain rfl := List.mem_singleton.mp listed
    exact asked rfl
  · cases pending

/-- The only host that is asked answers with an empty object: nobody calls back. -/
example :
    let env : JoinEnv := ⟨.of "a:1" (by decide), str "app", [str "a:1", str "b:1"],
      100, 120000, 1200000, 2⟩
    let options : JoinerOptions := ⟨none, none, none⟩
    let draw : JoinDraw := ⟨5, fun _ => 0, 7, none, none⟩
    let p := Joining.run env options false draw [.answer draw 0 0 (.response (.object []))]
    p.toOption.map (fun p => (p.results.length, p.groups.map fun g => g.outstanding.length)) =
      some (0, [0]) := by
  decide +kernel

end Ringpop.Members
