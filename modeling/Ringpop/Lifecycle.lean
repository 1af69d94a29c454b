import Ringpop.Gossip
import Ringpop.PeriodicHealer
import Ringpop.TracerDestroy

/-! `RingPop.bootstrap` and `RingPop.destroy` of `index.js`, with the handlers of
`on_ringpop_event.js` and `on_config_event.js` and the lag sampler that they start and stop. -/
namespace Ringpop.Members
open JsString Dictionary

/-- `lib/lag_sampler.js`; the lag itself, which `toobusy` measures, is left out. -/
structure LagSampler where
  lagTimer : Option ℕ
  queue : TimerQueue Unit

namespace LagSampler

def new : LagSampler := ⟨none, .empty⟩

def schedule (l : LagSampler) : LagSampler := ⟨some l.queue.next, l.queue.setTimeout ()⟩

def start (l : LagSampler) : LagSampler := if l.lagTimer.isSome then l else l.schedule

def stop (l : LagSampler) : LagSampler :=
  match l.lagTimer with
  | none => l
  | some timer => ⟨none, l.queue.clearTimeout timer⟩

def onTimeout (l : LagSampler) (timer : ℕ) : LagSampler :=
  match l.queue.callback timer with
  | none => l
  | some _ => { l with queue := l.queue.clearTimeout timer }.schedule

/-- The timer in the field is the only one that is pending. -/
def Sampling (l : LagSampler) : Prop :=
  ∀ timer, (l.queue.callback timer).isSome ↔ l.lagTimer = some timer

variable {l : LagSampler}

theorem sampling_new : new.Sampling := fun _ => by simp [new, TimerQueue.callback, TimerQueue.empty]

theorem sampling_schedule (idle : ∀ timer, l.queue.callback timer = none) :
    l.schedule.Sampling := by
  intro timer
  rw [schedule, TimerQueue.callback_setTimeout, idle, Option.some_inj]
  split
  case isTrue same => exact iff_of_true rfl same.symm
  case isFalse differs => exact iff_of_false Bool.false_ne_true (Ne.symm differs)

theorem Sampling.idle (sampling : l.Sampling) (none : l.lagTimer = none) (timer : ℕ) :
    l.queue.callback timer = Option.none := by
  refine Option.not_isSome_iff_eq_none.mp fun pending => ?_
  cases none.symm.trans ((sampling timer).mp pending)

theorem Sampling.cleared (sampling : l.Sampling) {timer : ℕ} (field : l.lagTimer = some timer)
    (other : ℕ) : (l.queue.clearTimeout timer).callback other = none := by
  rw [TimerQueue.callback_clearTimeout]
  split
  case isTrue => rfl
  case isFalse differs =>
    refine Option.not_isSome_iff_eq_none.mp fun pending => differs ?_
    exact Option.some.inj (((sampling other).mp pending).symm.trans field)

theorem Sampling.start (sampling : l.Sampling) : l.start.Sampling := by
  unfold LagSampler.start
  split
  case isTrue => exact sampling
  case isFalse none =>
    exact sampling_schedule (sampling.idle (Option.not_isSome_iff_eq_none.mp none))

/-- After `stop` no timer is pending. -/
theorem Sampling.stopped (sampling : l.Sampling) (timer : ℕ) :
    l.stop.lagTimer = none ∧ l.stop.queue.callback timer = none := by
  unfold LagSampler.stop
  split
  case h_1 none => exact ⟨none, sampling.idle none timer⟩
  case h_2 field => exact ⟨rfl, sampling.cleared field timer⟩

theorem Sampling.stop (sampling : l.Sampling) : l.stop.Sampling := fun timer => by
  obtain ⟨field, idle⟩ := sampling.stopped timer
  rw [field, idle]
  exact iff_of_false Bool.false_ne_true (Option.some_ne_none timer).symm

theorem Sampling.onTimeout (sampling : l.Sampling) (timer : ℕ) : (l.onTimeout timer).Sampling := by
  unfold LagSampler.onTimeout
  split
  case h_1 => exact sampling
  case h_2 _ pending =>
    have field := (sampling timer).mp (by rw [pending]; rfl)
    exact sampling_schedule (sampling.cleared field)

end LagSampler

/-- The settings that starting depends on. -/
inductive Setting where
  | autoGossip
  | backpressureEnabled
  | discoverProviderHealerPeriodicEnabled
deriving DecidableEq

def Setting.default : Setting → Json
  | autoGossip => .bool true
  | backpressureEnabled => .bool false
  | discoverProviderHealerPeriodicEnabled => .bool true

/-- The errors of `bootstrap` itself. -/
inductive BootstrapError where
  | alreadyReady
  | discoverProvider
  | noBootstrap
  | destroyed

def BootstrapError.message : BootstrapError → Str
  | alreadyReady => str "ringpop is already ready"
  | discoverProvider => str "failed to discover hosts using bootstrap provider"
  | noBootstrap => str ("ringpop cannot be bootstrapped without bootstrap hosts." ++
      " make sure you specify a valid bootstrap hosts file to the ringpop" ++
      " constructor or have a valid hosts.json file in the current working" ++ " directory.")
  | destroyed => str "ringpop was destroyed during bootstrap"

/-- An instance of ringpop. Calls of `bootstrap` are numbered; those in flight wait for the
discover provider or for their join, or are lost when `membership.set` throws. `traced` says whether some event has had a tracer, so that
`tracers.destroy` throws. The last two fields are a history. -/
structure RingPop where
  isReady : Bool
  destroyed : Bool
  traced : Bool
  config : Setting → Option Json
  gossip : Gossip
  healer : DiscoverProviderHealer
  lagSampler : LagSampler
  discovering : List ℕ
  joining : List ℕ
  lost : List ℕ
  calls : ℕ
  answers : List (ℕ × Except Str (List Address))

/-- Hosts that are not an array are `none`; `sets` says whether `membership.set` gets through
what has been stashed, and `draw` is what a healer reads that starts. -/
inductive RingPopEvent where
  | bootstrap
  | onHostsDiscovered (call : ℕ) (found : Except Str (Option (List Str)))
  | onJoin (call : ℕ) (joined : Except Str (List Address)) (sets : Bool) (draw : HealDraw)
  | destroy
  | trace
  | set (key : Setting) (newValue : Option Json)
  | gossip (event : GossipEvent)
  | healer (event : HealerEvent)
  | onTimeout (timer : ℕ)

/-- Only an instance that is ready lets a tick begin a round. -/
def GossipEvent.forInstance (isReady : Bool) : GossipEvent → GossipEvent
  | .fire timer target => .fire timer { target with isReady }
  | .tick target => .tick { target with isReady }
  | event => event

namespace RingPop
variable (baseProbability : ℚ)

def new (seed : Setting → Option Json) : RingPop where
  isReady := false
  destroyed := false
  traced := false
  config key := some ((seed key).getD key.default)
  gossip := .new
  healer := .new
  lagSampler := .new
  discovering := []
  joining := []
  lost := []
  calls := 0
  answers := []

def callBack (r : RingPop) (call : ℕ) (result : Except Str (List Address)) : RingPop :=
  { r with answers := r.answers ++ [(call, result)] }

def bootstrap (r : RingPop) : RingPop :=
  let call := r.calls
  let r := { r with calls := r.calls + 1 }
  if r.isReady then r.callBack call (.error BootstrapError.alreadyReady.message)
  else { r with discovering := r.discovering ++ [call] }

/-- The change of the local member is part of the node. -/
def onHostsDiscovered (r : RingPop) (call : ℕ) (found : Except Str (Option (List Str))) :
    RingPop :=
  if call ∈ r.discovering then
    let r := { r with discovering := r.discovering.erase call }
    match found with
    | .error _ => r.callBack call (.error BootstrapError.discoverProvider.message)
    | .ok none | .ok (some []) => r.callBack call (.error BootstrapError.noBootstrap.message)
    | .ok (some (_ :: _)) => { r with joining := r.joining ++ [call] }
  else r

/-- `createReadyHandler`. -/
def onReady (r : RingPop) (draw : HealDraw) : RingPop :=
  { r with
    gossip := if Json.truthy (r.config .autoGossip) then r.gossip.start else r.gossip
    lagSampler :=
      if Json.truthy (r.config .backpressureEnabled) then r.lagSampler.start else r.lagSampler
    healer :=
      if Json.truthy (r.config .discoverProviderHealerPeriodicEnabled) then
        r.healer.step baseProbability (.start draw)
      else r.healer }

def onJoin (r : RingPop) (call : ℕ) (joined : Except Str (List Address)) (sets : Bool)
    (draw : HealDraw) : RingPop :=
  if call ∈ r.joining then
    let r := { r with joining := r.joining.erase call }
    match joined with
    | .error err => r.callBack call (.error err)
    | .ok nodesJoined =>
      if r.destroyed then r.callBack call (.error BootstrapError.destroyed.message)
      else if !r.isReady && !sets then { r with lost := r.lost ++ [call] }
      else ({ r with isReady := true }.onReady baseProbability draw).callBack call (.ok nodesJoined)
  else r

/-- `createDestroyedHandler`, as far as timers are concerned that start themselves again. -/
def onDestroyed (r : RingPop) : RingPop :=
  { r with lagSampler := r.lagSampler.stop, healer := r.healer.step baseProbability .stop }

/-- When `tracers.destroy` throws, only gossip has been stopped. -/
def destroy (r : RingPop) : RingPop :=
  if r.destroyed then r
  else
    let r := { r with gossip := r.gossip.stop }
    if r.traced then r else { r with destroyed := true }.onDestroyed baseProbability

/-- `config.set`, with `createBackpressureEnabledHandler`. -/
def set (r : RingPop) (key : Setting) (newValue : Option Json) : RingPop :=
  let r := { r with config := fun other => if other = key then newValue else r.config other }
  match key with
  | .backpressureEnabled =>
    match newValue with
    | some (.bool true) => { r with lagSampler := r.lagSampler.start }
    | _ => { r with lagSampler := r.lagSampler.stop }
  | _ => r

def step (r : RingPop) : RingPopEvent → RingPop
  | .bootstrap => r.bootstrap
  | .onHostsDiscovered call found => r.onHostsDiscovered call found
  | .onJoin call joined sets draw => r.onJoin baseProbability call joined sets draw
  | .destroy => r.destroy baseProbability
  | .trace => { r with traced := true }
  | .set key newValue => r.set key newValue
  | .gossip event => { r with gossip := r.gossip.step (event.forInstance r.isReady) }
  | .healer event => { r with healer := r.healer.step baseProbability event }
  | .onTimeout timer => { r with lagSampler := r.lagSampler.onTimeout timer }

def run (seed : Setting → Option Json) (events : List RingPopEvent) : RingPop :=
  events.foldl (step baseProbability) (new seed)

/-- What a step of `destroy` does to what an instance has here. -/
def perform (r : RingPop) : Trace.DestroyStep → RingPop
  | .gossipStop => { r with gossip := r.gossip.stop }
  | .emitDestroyed => { r with destroyed := true }.onDestroyed baseProbability
  | _ => r

variable {baseProbability} {r : RingPop}

/-- The instance is this node, whose steps of `destroy` are recorded. -/
structure Traces (r : RingPop) (node : Trace.RingPop) : Prop where
  destroyed : r.destroyed = node.destroyed
  traced : r.traced = true ↔ node.tracers.tracers.keys ≠ []

theorem perform_stepsAfter (r : RingPop) (node : Trace.RingPop) :
    node.stepsAfter.foldl (perform baseProbability) r =
      { r with destroyed := true }.onDestroyed baseProbability := by
  have joiner : (if node.joiner then [Trace.DestroyStep.joinerDestroy] else []).foldl
      (perform baseProbability) r = r := by split <;> rfl
  have client : (if node.client then [Trace.DestroyStep.clientDestroy] else []).foldl
      (perform baseProbability) r = r := by split <;> rfl
  have ratesStop : r.perform baseProbability .ratesStop = r := rfl
  rw [Trace.RingPop.stepsAfter, List.foldl_cons, List.foldl_append, List.foldl_append,
    List.foldl_append, ratesStop, joiner]
  split <;> exact congrArg (perform baseProbability · .emitDestroyed) client

/-- `destroy` does to the instance what the steps do that it gets through. -/
theorem destroy_performs {node : Trace.RingPop} (h : r.Traces node) :
    ∃ steps, node.destroy.1.done = node.done ++ steps ∧
      r.destroy baseProbability = steps.foldl (perform baseProbability) r ∧
      (r.destroy baseProbability).Traces node.destroy.1 := by
  have same := h.destroyed
  cases idle : node.destroyed with
  | true =>
    have unchanged : node.destroy = (node, true) := if_pos idle
    rw [RingPop.destroy, if_pos (same.trans idle), unchanged]
    exact ⟨[], (List.append_nil _).symm, rfl, h⟩
  | false =>
    rw [RingPop.destroy, if_neg (by simp [same, idle]), Trace.RingPop.destroy_eq idle]
    by_cases traced : node.tracers.tracers.keys = []
    case pos =>
      have none : r.traced = false := by simpa [traced] using h.traced
      rw [Trace.TracerStore.destroy_of_empty traced]
      refine ⟨Trace.RingPop.stepsBefore ++ .tracersDestroy :: node.stepsAfter, rfl, ?_, ?_⟩
      · rw [List.foldl_append, List.foldl_cons, perform_stepsAfter]
        simp [none, Trace.RingPop.stepsBefore, perform]
      · simp only [none, Bool.false_eq_true, if_false]
        exact ⟨rfl, by simp [onDestroyed, traced]⟩
    case neg =>
      have some : r.traced = true := h.traced.mpr traced
      have throws : node.tracers.destroy = Option.none := by
        rw [← Option.not_isSome_iff_eq_none, Trace.TracerStore.destroy_iff]
        exact traced
      rw [throws]
      refine ⟨Trace.RingPop.stepsBefore, rfl, ?_, ?_⟩
      · simp [some, Trace.RingPop.stepsBefore, perform]
      · simp only [some, if_true]
        exact ⟨same, by simp [traced]⟩

/-- What became of the calls of `bootstrap`, and what an instance does not do before it is
ready. -/
structure Booting (r : RingPop) : Prop where
  counted : ∀ call, r.discovering.count call + r.joining.count call + r.lost.count call +
    (r.answers.map Prod.fst).count call = if call < r.calls then 1 else 0
  ready : r.isReady = true ↔ ∃ call nodes, (call, .ok nodes) ∈ r.answers
  exclusive : r.gossip.Exclusive
  quiet : r.isReady = false → ∀ id, r.gossip.rounds.get id = none
  sampling : r.lagSampler.Sampling

theorem booting_new (seed : Setting → Option Json) : (new seed).Booting where
  counted _ := rfl
  ready := by simp [new]
  exclusive := Gossip.exclusive_new
  quiet _ _ := rfl
  sampling := LagSampler.sampling_new

theorem count_snoc (calls : List ℕ) (call other : ℕ) :
    (calls ++ [call]).count other = calls.count other + if call = other then 1 else 0 := by
  rw [List.count_append, List.count_singleton]
  simp only [beq_iff_eq]

theorem count_erase {calls : List ℕ} {call : ℕ} (waiting : call ∈ calls) (other : ℕ) :
    (calls.erase call).count other + (if call = other then 1 else 0) = calls.count other := by
  have some := List.count_pos_iff.mpr waiting
  rw [List.count_erase]
  by_cases same : call = other
  · subst same
    simp only [BEq.rfl, if_true]
    omega
  · simp [same]

theorem Booting.bootstrap (booting : r.Booting) : r.bootstrap.Booting := by
  have next (call : ℕ) : (if call < r.calls + 1 then 1 else 0) =
      (if call < r.calls then 1 else 0) + if r.calls = call then 1 else 0 := by
    split <;> split <;> split <;> omega
  unfold RingPop.bootstrap
  cases ready : r.isReady with
  | true =>
    refine { booting with counted := fun call => ?_, ready := ?_, quiet := nofun }
    · have before := booting.counted call
      simp only [callBack, if_true, List.map_append, List.map_singleton, count_snoc, next]
      omega
    · have before := booting.ready
      simpa [callBack, ready] using before
  | false =>
    refine { booting with
      counted := fun call => ?_, ready := ?_, quiet := fun _ => booting.quiet ready }
    · have before := booting.counted call
      simp only [Bool.false_eq_true, if_false, count_snoc, next]
      omega
    · simpa [ready] using booting.ready

/-- An error takes a call from those in flight to those that have been answered. -/
theorem Booting.failed (booting : r.Booting) {discovering joining : List ℕ} {call : ℕ} (err : Str)
    (left : ∀ other, discovering.count other + joining.count other +
      (if call = other then 1 else 0) = r.discovering.count other + r.joining.count other) :
    (({ r with discovering, joining } : RingPop).callBack call (.error err)).Booting := by
  refine { booting with counted := fun other => ?_, ready := ?_ }
  · refine Eq.trans ?_ (booting.counted other)
    have fewer := left other
    simp only [callBack, List.map_append, List.map_singleton, count_snoc]
    omega
  · simpa [callBack] using booting.ready

theorem Booting.onHostsDiscovered (booting : r.Booting) (call : ℕ)
    (found : Except Str (Option (List Str))) : (r.onHostsDiscovered call found).Booting := by
  unfold RingPop.onHostsDiscovered
  split
  case isFalse => exact booting
  case isTrue waiting =>
    have left (other : ℕ) : (r.discovering.erase call).count other + r.joining.count other +
        (if call = other then 1 else 0) = r.discovering.count other + r.joining.count other := by
      have fewer := count_erase waiting other
      omega
    split
    case h_1 | h_2 | h_3 => exact booting.failed _ left
    case h_4 =>
      refine { booting with counted := fun other => ?_ }
      have before := booting.counted other
      have moved := left other
      simp only [count_snoc]
      omega

theorem Booting.onReady (booting : r.Booting) {nodes : List Address} {call : ℕ} (draw : HealDraw)
    (waiting : call ∈ r.joining) :
    ((({ r with joining := r.joining.erase call, isReady := true } : RingPop).onReady
      baseProbability draw).callBack call (.ok nodes)).Booting where
  counted other := by
    have before := booting.counted other
    have fewer := count_erase waiting other
    simp only [callBack, RingPop.onReady, List.map_append, List.map_singleton, count_snoc]
    omega
  ready := iff_of_true rfl ⟨call, nodes, by simp [callBack]⟩
  exclusive := by
    simp only [callBack, RingPop.onReady]
    split
    · exact booting.exclusive.step .start
    · exact booting.exclusive
  quiet := nofun
  sampling := by
    simp only [callBack, RingPop.onReady]
    split
    · exact booting.sampling.start
    · exact booting.sampling

theorem Booting.onJoin (booting : r.Booting) (call : ℕ) (joined : Except Str (List Address))
    (sets : Bool) (draw : HealDraw) :
    (r.onJoin baseProbability call joined sets draw).Booting := by
  unfold RingPop.onJoin
  split
  case isFalse => exact booting
  case isTrue waiting =>
    have left (other : ℕ) : r.discovering.count other + (r.joining.erase call).count other +
        (if call = other then 1 else 0) = r.discovering.count other + r.joining.count other := by
      have fewer := count_erase waiting other
      omega
    split
    case h_1 => exact booting.failed _ left
    case h_2 =>
      simp only
      split
      case isTrue => exact booting.failed _ left
      case isFalse =>
        split
        case isTrue =>
          refine { booting with counted := fun other => ?_ }
          have before := booting.counted other
          have fewer := left other
          simp only [count_snoc]
          omega
        case isFalse => exact booting.onReady draw waiting

theorem Booting.destroy (booting : r.Booting) : (r.destroy baseProbability).Booting := by
  have quiet (waiting : r.isReady = false) (id : ℕ) : r.gossip.stop.rounds.get id = none := by
    rw [Gossip.rounds_stop]
    exact booting.quiet waiting id
  unfold RingPop.destroy
  split
  · exact booting
  · simp only
    split
    · exact { booting with exclusive := booting.exclusive.step .stop, quiet }
    · exact
        { booting with
          exclusive := booting.exclusive.step .stop, quiet, sampling := booting.sampling.stop }

theorem Booting.set (booting : r.Booting) (key : Setting) (newValue : Option Json) :
    (r.set key newValue).Booting := by
  unfold RingPop.set
  simp only
  split
  · split
    · exact { booting with sampling := booting.sampling.start }
    · exact { booting with sampling := booting.sampling.stop }
  · exact { booting with }

/-- Before the instance is ready nothing brings a round about. -/
theorem quiet_step {g : Gossip} (quiet : ∀ id, g.rounds.get id = none) (event : GossipEvent)
    (id : ℕ) : (g.step (event.forInstance false)).rounds.get id = none := by
  cases event with
  | start =>
    simp only [GossipEvent.forInstance, Gossip.step, Gossip.rounds_start]
    exact quiet id
  | stop =>
    simp only [GossipEvent.forInstance, Gossip.step, Gossip.rounds_stop]
    exact quiet id
  | fire timer target =>
    simp only [GossipEvent.forInstance, Gossip.step, Gossip.fire]
    split
    · exact quiet id
    · rw [Gossip.rounds_tick _ true (.inr rfl)]
      exact quiet id
  | tick target =>
    rw [GossipEvent.forInstance, Gossip.step, Gossip.rounds_tick g false (.inr rfl)]
    exact quiet id
  | pingResponse other =>
    simp only [GossipEvent.forInstance, Gossip.step, Gossip.pingResponse, quiet other]
    exact quiet id
  | pingReqResponse other =>
    simp only [GossipEvent.forInstance, Gossip.step, Gossip.pingReqResponse, quiet other]
    exact quiet id

theorem Booting.step (booting : r.Booting) (event : RingPopEvent) :
    (r.step baseProbability event).Booting := by
  cases event with
  | bootstrap => exact booting.bootstrap
  | onHostsDiscovered call found => exact booting.onHostsDiscovered call found
  | onJoin call joined sets draw => exact booting.onJoin call joined sets draw
  | destroy => exact booting.destroy
  | trace => exact { booting with }
  | set key newValue => exact booting.set key newValue
  | gossip event =>
    refine { booting with exclusive := booting.exclusive.step _, quiet := fun waiting => ?_ }
    change r.isReady = false at waiting
    rw [RingPop.step, waiting]
    exact quiet_step (booting.quiet waiting) event
  | healer event => exact { booting with }
  | onTimeout timer => exact { booting with sampling := booting.sampling.onTimeout timer }

theorem booting_run (baseProbability : ℚ) (seed : Setting → Option Json)
    (events : List RingPopEvent) : (run baseProbability seed events).Booting :=
  Runs.foldl_invariant (step baseProbability) Booting (fun _ event booting => booting.step event)
    (booting_new seed) events

/-- What stays as it is, whatever comes later. -/
structure Later (r later : RingPop) : Prop where
  answers : r.answers <+: later.answers
  ready : r.isReady = true → later.isReady = true
  destroyed : r.destroyed = true → later.destroyed = true
  refused : r.destroyed = true → later.isReady = r.isReady ∧
    ∀ call nodes, (call, .ok nodes) ∈ later.answers → (call, .ok nodes) ∈ r.answers

theorem Later.refl (r : RingPop) : r.Later r :=
  ⟨List.prefix_refl _, id, id, fun _ => ⟨rfl, fun _ _ => id⟩⟩

theorem Later.trans {first second third : RingPop} (h : first.Later second)
    (h' : second.Later third) : first.Later third where
  answers := h.answers.trans h'.answers
  ready ready := h'.ready (h.ready ready)
  destroyed destroyed := h'.destroyed (h.destroyed destroyed)
  refused destroyed := by
    obtain ⟨same, old⟩ := h.refused destroyed
    obtain ⟨same', old'⟩ := h'.refused (h.destroyed destroyed)
    exact ⟨same'.trans same, fun call nodes joined => old call nodes (old' call nodes joined)⟩

/-- A step that answers no call. -/
theorem Later.of_same {later : RingPop} (isReady : later.isReady = r.isReady)
    (destroyed : r.destroyed = true → later.destroyed = true)
    (answers : later.answers = r.answers) : r.Later later :=
  ⟨answers ▸ List.prefix_refl _, isReady.trans, destroyed, fun _ =>
    ⟨isReady, fun _ _ => answers ▸ id⟩⟩

theorem Later.failed {later : RingPop} {call : ℕ} {err : Str} (isReady : later.isReady = r.isReady)
    (destroyed : r.destroyed = true → later.destroyed = true)
    (answers : later.answers = r.answers ++ [(call, .error err)]) : r.Later later := by
  refine ⟨answers ▸ List.prefix_append _ _, isReady.trans, destroyed, fun _ => ⟨isReady, ?_⟩⟩
  intro other nodes joined
  rw [answers] at joined
  simpa using joined

theorem later_step (baseProbability : ℚ) (r : RingPop) (event : RingPopEvent) :
    r.Later (r.step baseProbability event) := by
  cases event with
  | bootstrap =>
    rw [step, bootstrap]
    split
    · exact .failed rfl id rfl
    · exact .of_same rfl id rfl
  | onHostsDiscovered call found =>
    rw [step, onHostsDiscovered]
    split
    · split
      case h_1 | h_2 | h_3 => exact .failed rfl id rfl
      case h_4 => exact .of_same rfl id rfl
    · exact .refl r
  | onJoin call joined sets draw =>
    rw [step, onJoin]
    split
    · split
      · exact .failed rfl id rfl
      · simp only
        split
        case isTrue => exact .failed rfl id rfl
        case isFalse alive =>
          split
          case isTrue => exact .of_same rfl id rfl
          case isFalse =>
            exact ⟨List.prefix_append _ _, fun _ => rfl, id, fun destroyed => absurd destroyed alive⟩
    · exact .refl r
  | destroy =>
    rw [step, destroy]
    split
    · exact .refl r
    · simp only
      split
      · exact .of_same rfl id rfl
      · exact .of_same rfl (fun _ => rfl) rfl
  | set key newValue =>
    cases key with
    | backpressureEnabled =>
      simp only [step, set]
      split <;> exact .of_same rfl id rfl
    | autoGossip | discoverProviderHealerPeriodicEnabled => exact .of_same rfl id rfl
  | trace | gossip | healer | onTimeout => exact .of_same rfl id rfl

/-- However the calls of an instance overlap: each call of `bootstrap` is answered once, still
waits for an answer or is lost, and answers stay as they are; an instance is ready exactly if one of them
has joined, and stays so; once it has been destroyed none joins any more; it pings nobody before
it is ready; and the lag sampler has no timer but the one it knows of. -/
theorem run_bootstraps (baseProbability : ℚ) (seed : Setting → Option Json)
    (before after : List RingPopEvent) :
    let r := run baseProbability seed before
    let later := run baseProbability seed (before ++ after)
    (∀ call < r.calls, r.discovering.count call + r.joining.count call + r.lost.count call +
      (r.answers.map Prod.fst).count call = 1) ∧
    (r.isReady = true ↔ ∃ call nodes, (call, .ok nodes) ∈ r.answers) ∧
    (r.isReady = false → ∀ id, r.gossip.rounds.get id = none) ∧
    (∀ timer, (r.lagSampler.queue.callback timer).isSome ↔ r.lagSampler.lagTimer = some timer) ∧
    r.Later later := by
  intro r later
  have booting : r.Booting := booting_run baseProbability seed before
  refine ⟨fun call made => (booting.counted call).trans (if_pos made), booting.ready,
    booting.quiet, booting.sampling, ?_⟩
  have follows : later = after.foldl (step baseProbability) r := List.foldl_append
  rw [follows]
  exact Runs.foldl_invariant (step baseProbability) r.Later
    (fun _ event before => before.trans (later_step baseProbability _ event)) (.refl r) after

end RingPop
end Ringpop.Members
