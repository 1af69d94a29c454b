import Ringpop.TracerStore
import Ringpop.Runs
import Mathlib.Data.List.Find

/-! What holds of a tracer store after any calls of `add` and `remove`, completed connects and
timers: which options objects name which tracers. -/
namespace Ringpop.Trace.TracerStore
open JsString Dictionary

/-- What the options object is compared by. -/
def key (s : TracerStore) (opts : ℕ) : Option (Str ⊕ Option Str × Str) :=
  (s.sink opts).bind Sink.key

/-- The outcomes of `admission`, with what has been checked. -/
inductive Admits (s : TracerStore) (configs : Str → EventConfig) (traceEvent : Str)
    (opts : ℕ) : Admission → Prop
  | invalid (err : TraceError) (refuses : Tracer.invalidateOptions (s.opts opts) = some err) :
      Admits s configs traceEvent opts (.invalid err)
  | found (tracer : Tracer) (valid : Tracer.invalidateOptions (s.opts opts) = none)
      (found : s.get traceEvent opts = some tracer) :
      Admits s configs traceEvent opts (.found tracer)
  | throws (valid : Tracer.invalidateOptions (s.opts opts) = none)
      (fresh : s.get traceEvent opts = none)
      (unknown : ∀ sink, s.sink opts = some sink → sink.known = false) :
      Admits s configs traceEvent opts .throws
  | refused (given : TraceOpts) (sink : Sink) (known : sink.known = true) (err : TraceError)
      (valid : Tracer.invalidateOptions (s.opts opts) = none)
      (here : s.opts opts = some given) (typed : s.sink opts = some sink)
      (fresh : s.get traceEvent opts = none)
      (refuses : (Tracer.new s.nextTracer traceEvent given (sink.defaults (configs traceEvent))
        (Sink.named_defaults known _)).invalidate = some err) :
      Admits s configs traceEvent opts (.refused (sink.defaults (configs traceEvent)) err)
  | made (given : TraceOpts) (sink : Sink) (known : sink.known = true)
      (valid : Tracer.invalidateOptions (s.opts opts) = none)
      (here : s.opts opts = some given) (typed : s.sink opts = some sink)
      (fresh : s.get traceEvent opts = none)
      (accepts : (Tracer.new s.nextTracer traceEvent given (sink.defaults (configs traceEvent))
        (Sink.named_defaults known _)).invalidate = none) :
      Admits s configs traceEvent opts (.made (sink.defaults (configs traceEvent))
        (Tracer.new s.nextTracer traceEvent given (sink.defaults (configs traceEvent))
          (Sink.named_defaults known _)))

theorem admits (s : TracerStore) (configs : Str → EventConfig) (traceEvent : Str) (opts : ℕ) :
    Admits s configs traceEvent opts (s.admission configs traceEvent opts) := by
  rw [admission]
  cases valid : Tracer.invalidateOptions (s.opts opts) with
  | some err => exact .invalid err valid
  | none =>
    cases here : s.opts opts with
    | none => simp [Tracer.invalidateOptions, here] at valid
    | some given =>
      cases typed : s.sink opts with
      | none =>
        have fresh : s.get traceEvent opts = none := by rw [get, typed, Option.bind_none]
        exact .throws valid fresh (by simp [typed])
      | some sink =>
        dsimp only
        cases fresh : s.get traceEvent opts with
        | some tracer => exact .found tracer valid fresh
        | none =>
          dsimp only
          rw [construct]
          split
          case isFalse unknown =>
            refine .throws valid fresh fun other same => ?_
            rw [typed] at same
            exact Option.some.inj same ▸ eq_false_of_ne_true unknown
          case isTrue known =>
            dsimp only
            cases checked : (Tracer.new s.nextTracer traceEvent given
                (sink.defaults (configs traceEvent)) (Sink.named_defaults known _)).invalidate with
            | some err => exact .refused given sink known err valid here typed fresh checked
            | none => exact .made given sink known valid here typed fresh checked

variable {s : TracerStore} {traceEvent : Str} {opts : ℕ} {tracer other : Tracer}

theorem registered_splice (s : TracerStore) (traceEvent event : Str) (tracer : Tracer) :
    (s.splice traceEvent tracer).registered event =
      if event = traceEvent then (s.registered traceEvent).erase tracer
      else s.registered event := by
  rw [registered, splice, Dict.get_set]
  split <;> rfl

theorem registered_register (s : TracerStore) (event : Str) (tracer : Tracer)
    (onConnect : OnConnect) :
    (s.register tracer onConnect).registered event =
      if event = tracer.traceEvent then s.registered tracer.traceEvent ++ [tracer]
      else s.registered event := by
  rw [registered, register, accept, Dict.get_set]
  split <;> rfl

/-- Only timers are changed. -/
theorem updateExpiration_eq (s : TracerStore) (traceEvent : Str) (opts : ℕ) (tracer : Tracer)
    (now : ℚ) :
    ∃ timers timer, s.updateExpiration traceEvent opts tracer now =
      { s with timers := timers, timer := timer } := by
  rw [updateExpiration]
  split <;> exact ⟨_, _, rfl⟩

/-- Tracers that have ever been made have an `id` below `nextTracer`, and the options objects
that they have been asked for with name them. -/
structure WellFormed (s : TracerStore) : Prop where
  empty : s.tracers.entries = [] → s.nextTracer = 0
  nodup : ∀ traceEvent, (s.registered traceEvent).Nodup
  registered : ∀ traceEvent, ∀ tracer ∈ s.registered traceEvent,
    tracer.traceEvent = traceEvent ∧ tracer.id < s.nextTracer
  listener : ∀ tracer, s.listener tracer = true → tracer.id < s.nextTracer
  timer : ∀ tracer timer, s.timer tracer = some timer → tracer.id < s.nextTracer
  connecting : ∀ tracer connect, s.connecting tracer = some connect →
    tracer.id < s.nextTracer ∧ s.key connect.opts = tracer.key
  bound : ∀ timer bound, s.timers.callback timer = some bound →
    bound.tracer.id < s.nextTracer ∧ bound.traceEvent = bound.tracer.traceEvent ∧
      s.key bound.opts = bound.tracer.key
  accepted : ∀ pair ∈ s.accepted, pair.2.id < s.nextTracer ∧ s.key pair.1 = pair.2.key

theorem wellFormed_new (given : ℕ → Option TraceOpts) : WellFormed (new given) where
  empty _ := rfl
  nodup _ := List.nodup_nil
  registered _ _ h := by cases h
  listener _ h := by cases h
  timer _ _ h := by cases h
  connecting _ _ h := by cases h
  bound _ _ h := by cases h
  accepted _ h := by cases h

/-- The lookup by options is a lookup by what they name. -/
theorem WellFormed.get_eq (wf : WellFormed s) (traceEvent : Str) (opts : ℕ) :
    s.get traceEvent opts =
      (s.registered traceEvent).find? fun tracer => decide (tracer.key = s.key opts) := by
  have same (sink : Sink) (tracer : Tracer) (listed : tracer ∈ s.registered traceEvent) :
      tracer.matchesSink traceEvent sink = decide (tracer.key = sink.key) := by
    rw [Bool.eq_iff_iff, Tracer.matchesSink_iff, decide_eq_true_eq, eq_comm (a := sink.key)]
    exact and_iff_right (wf.registered traceEvent tracer listed).1
  rw [get, key]
  cases s.sink opts with
  | some sink => exact List.find?_congr (same sink)
  | none =>
    refine (List.find?_eq_none.mpr fun tracer _ => ?_).symm
    have named := tracer.isSome_key
    intro unnamed
    rw [of_decide_eq_true unnamed] at named
    cases named

theorem WellFormed.mem_get (wf : WellFormed s) (found : s.get traceEvent opts = some tracer) :
    tracer ∈ s.registered traceEvent ∧ s.key opts = tracer.key := by
  rw [wf.get_eq] at found
  have same := List.find?_some found
  exact ⟨List.mem_of_find?_eq_some found, (of_decide_eq_true same).symm⟩

/-- The first tracer with its name. -/
def Foremost (s : TracerStore) (tracer : Tracer) : Prop :=
  ((s.registered tracer.traceEvent).find? fun other => decide (other.key = tracer.key)) =
    some tracer

theorem Foremost.mem (first : s.Foremost tracer) : tracer ∈ s.registered tracer.traceEvent :=
  List.mem_of_find?_eq_some first

theorem WellFormed.get_iff (wf : WellFormed s) (same : s.key opts = tracer.key) :
    s.get tracer.traceEvent opts = some tracer ↔ s.Foremost tracer := by
  rw [wf.get_eq, Foremost, same]

/-- An object that has named a registered tracer finds a tracer with the same name. -/
theorem WellFormed.get_of_key (wf : WellFormed s) (same : s.key opts = tracer.key)
    (listed : tracer ∈ s.registered tracer.traceEvent) :
    ∃ first, s.get tracer.traceEvent opts = some first ∧ first.key = tracer.key := by
  rw [wf.get_eq, same]
  have present : ((s.registered tracer.traceEvent).find? fun other =>
      decide (other.key = tracer.key)).isSome :=
    List.find?_isSome.mpr ⟨tracer, listed, decide_eq_true rfl⟩
  obtain ⟨first, found⟩ := Option.isSome_iff_exists.mp present
  have named := List.find?_some found
  exact ⟨first, found, of_decide_eq_true named⟩

/-- Calls of callbacks and what is known about them do not matter. -/
theorem WellFormed.frame (wf : WellFormed s) (ticks : List Tick) (nextAdd : ℕ)
    (callers waiting : List Caller) (answers : List (Caller × Answer)) :
    WellFormed { s with
      ticks := ticks, nextAdd := nextAdd, callers := callers, waiting := waiting
      answers := answers } :=
  ⟨wf.empty, wf.nodup, wf.registered, wf.listener, wf.timer, wf.connecting, wf.bound, wf.accepted⟩

theorem key_writeSink (s : TracerStore) (config : EventConfig) {sink : Sink}
    (typed : s.sink opts = some sink) {other : ℕ} {name : Str ⊕ Option Str × Str}
    (named : s.key other = some name) :
    (s.writeSink opts (sink.defaults config)).key other = some name := by
  by_cases same : other = opts
  · subst same
    rw [key, typed, Option.bind_some] at named
    obtain ⟨given, here, -⟩ := Option.bind_eq_some_iff.mp typed
    have defaults := Sink.key_defaults (by rw [Sink.named, named]; rfl) config
    simp only [key, TracerStore.sink, writeSink, Function.update_self, here, Option.map_some,
      Option.bind_some, defaults, named]
  · rw [← named, key, key, TracerStore.sink, TracerStore.sink, writeSink]
    dsimp only
    rw [Function.update_of_ne same]

theorem WellFormed.writeSink (wf : WellFormed s) (config : EventConfig) {sink : Sink}
    (typed : s.sink opts = some sink) :
    WellFormed (s.writeSink opts (sink.defaults config)) := by
  have keeps (other : ℕ) (tracer : Tracer) (same : s.key other = tracer.key) :
      (s.writeSink opts (sink.defaults config)).key other = tracer.key := by
    obtain ⟨name, named⟩ := Option.isSome_iff_exists.mp tracer.isSome_key
    rw [named] at same ⊢
    exact key_writeSink s config typed same
  refine ⟨wf.empty, wf.nodup, wf.registered, wf.listener, wf.timer, ?_, ?_, ?_⟩
  · intro tracer connect h
    exact (wf.connecting tracer connect h).imp_right (keeps _ _)
  · intro timer bound h
    exact (wf.bound timer bound h).imp_right (And.imp_right (keeps _ _))
  · intro pair h
    exact (wf.accepted pair h).imp_right (keeps _ _)

theorem WellFormed.accept (wf : WellFormed s) (known : tracer.id < s.nextTracer)
    (same : s.key opts = tracer.key) : WellFormed (s.accept opts tracer) := by
  refine ⟨wf.empty, wf.nodup, wf.registered, wf.listener, wf.timer, wf.connecting, wf.bound, ?_⟩
  intro pair h
  rcases Runs.mem_extended.mp h with old | rfl
  · exact wf.accepted pair old
  · exact ⟨known, same⟩

theorem WellFormed.register (wf : WellFormed s) (connect : OnConnect)
    (new : tracer.id = s.nextTracer) (named : s.key connect.opts = tracer.key) :
    WellFormed (s.register tracer connect) where
  empty none := by
    have present : (s.register tracer connect).tracers.has tracer.traceEvent = true := by
      simp [TracerStore.register, TracerStore.accept]
    rw [← Dict.mem_keys, Dict.keys, none] at present
    cases present
  nodup event := by
    have fresh : tracer ∉ s.registered tracer.traceEvent := fun listed => by
      have old := (wf.registered _ tracer listed).2
      omega
    rw [registered_register]
    split
    · exact (List.nodup_append_comm.mp (List.nodup_cons.mpr ⟨fresh, wf.nodup _⟩))
    · exact wf.nodup event
  registered event other listed := by
    rw [registered_register] at listed
    simp only [TracerStore.register, TracerStore.accept]
    split at listed
    case isTrue same =>
      rcases Runs.mem_extended.mp listed with old | rfl
      · have known := wf.registered _ other old
        exact ⟨known.1.trans same.symm, by omega⟩
      · exact ⟨same.symm, by omega⟩
    case isFalse =>
      have known := wf.registered event other listed
      exact ⟨known.1, by omega⟩
  listener other h := Nat.lt_succ_of_lt (wf.listener other h)
  timer other timer h := Nat.lt_succ_of_lt (wf.timer other timer h)
  connecting other connect' h := by
    simp only [TracerStore.register, TracerStore.accept] at h ⊢
    by_cases same : other = tracer
    · subst same
      rw [Function.update_self] at h
      obtain rfl := Option.some.inj h
      exact ⟨by omega, named⟩
    · rw [Function.update_of_ne same] at h
      have known := wf.connecting other connect' h
      exact ⟨by omega, known.2⟩
  bound timer bound h := (wf.bound timer bound h).imp_left Nat.lt_succ_of_lt
  accepted pair h := by
    rcases Runs.mem_extended.mp h with old | rfl
    · exact (wf.accepted pair old).imp_left Nat.lt_succ_of_lt
    · exact ⟨by simp only [TracerStore.register, TracerStore.accept]; omega, named⟩

/-- A sink that disconnects later detaches its tracer once more. -/
theorem disconnect_eq (s : TracerStore) (tracer : Tracer) :
    ∃ more, (∀ call answer, Tick.emitAdd call answer ∉ more) ∧
      (s.disconnectSink tracer).disconnectSource tracer =
        { s with
          listener := Function.update s.listener tracer false, ticks := s.ticks ++ more } := by
  rw [disconnectSink]
  split
  · exact ⟨[.disconnectSource tracer], by simp, rfl⟩
  · exact ⟨[], by simp, by simp [disconnectSource]⟩

/-- What `remove` does to a tracer that it has found. -/
theorem remove_eq (found : s.get traceEvent opts = some tracer) :
    ∃ more, (∀ call answer, Tick.emitAdd call answer ∉ more) ∧
      s.remove traceEvent opts = { (s.clearTimer tracer).splice traceEvent tracer with
        listener := Function.update s.listener tracer false, ticks := s.ticks ++ more } := by
  rw [remove, found]
  exact disconnect_eq ((s.clearTimer tracer).splice traceEvent tracer) tracer

theorem remove_none (missing : s.get traceEvent opts = none) : s.remove traceEvent opts = s := by
  rw [remove, missing]

/-- A connect is over before its tracer is removed, or after it. -/
theorem remove_connected (s : TracerStore) (traceEvent : Str) (opts : ℕ) (tracer : Tracer) :
    { s with connecting := Function.update s.connecting tracer none }.remove traceEvent opts =
      { s.remove traceEvent opts with
        connecting := Function.update (s.remove traceEvent opts).connecting tracer none } := by
  have same : { s with connecting := Function.update s.connecting tracer none }.get traceEvent
      opts = s.get traceEvent opts := rfl
  rw [remove, remove, same]
  cases s.get traceEvent opts with
  | none => rfl
  | some found =>
    simp only [disconnectSink]
    split <;> rfl

/-- The options objects and what callers know are not touched by `remove`. -/
theorem remove_frame (s : TracerStore) (traceEvent : Str) (opts : ℕ) :
    ∃ tracers timers timer listener ticks, s.remove traceEvent opts = { s with
      tracers := tracers, timers := timers, timer := timer, listener := listener
      ticks := ticks } := by
  cases found : s.get traceEvent opts with
  | none =>
    rw [remove_none found]
    exact ⟨_, _, _, _, _, rfl⟩
  | some tracer =>
    obtain ⟨more, -, same⟩ := remove_eq found
    exact ⟨_, _, _, _, _, same⟩

theorem callback_clearTimer (s : TracerStore) (tracer : Tracer) (timer : ℕ) :
    (s.clearTimer tracer).timers.callback timer =
      if s.timer tracer = some timer then none else s.timers.callback timer := by
  rw [clearTimer]
  cases h : s.timer tracer with
  | none => rfl
  | some own => simp [TimerQueue.callback_clearTimeout, eq_comm]

theorem timer_clearTimer (s : TracerStore) (tracer other : Tracer) :
    (s.clearTimer tracer).timer other = if other = tracer then none else s.timer other := by
  simp [clearTimer, Function.update_apply]

theorem callback_of_clearTimer {timer : ℕ} {bound : Expiration}
    (h : (s.clearTimer tracer).timers.callback timer = some bound) :
    s.timer tracer ≠ some timer ∧ s.timers.callback timer = some bound := by
  rw [callback_clearTimer] at h
  split at h
  case isTrue => cases h
  case isFalse other => exact ⟨other, h⟩

theorem WellFormed.clearTimer (wf : WellFormed s) (tracer : Tracer) :
    WellFormed (s.clearTimer tracer) where
  empty := wf.empty
  nodup := wf.nodup
  registered := wf.registered
  listener := wf.listener
  timer other timer h := by
    rw [timer_clearTimer] at h
    split at h
    case isTrue => cases h
    case isFalse => exact wf.timer other timer h
  connecting := wf.connecting
  bound timer bound h := wf.bound timer bound (callback_of_clearTimer h).2
  accepted := wf.accepted

theorem WellFormed.updateExpiration (wf : WellFormed s) (known : tracer.id < s.nextTracer)
    (same : s.key opts = tracer.key) (now : ℚ) :
    WellFormed (s.updateExpiration tracer.traceEvent opts tracer now) := by
  have cleared := wf.clearTimer tracer
  rw [TracerStore.updateExpiration]
  split
  · exact cleared
  refine ⟨cleared.empty, cleared.nodup, cleared.registered, cleared.listener, ?_,
    cleared.connecting, ?_, cleared.accepted⟩
  · intro other timer h
    dsimp only at h
    by_cases own : other = tracer
    · exact own ▸ known
    · rw [Function.update_of_ne own] at h
      exact cleared.timer other timer h
  · intro timer bound h
    rcases TimerQueue.callback_of_setTimeout h with ⟨-, rfl⟩ | old
    · exact ⟨known, rfl, same⟩
    · exact cleared.bound timer bound old

theorem WellFormed.listener_update (wf : WellFormed s) (known : tracer.id < s.nextTracer)
    (listens : Bool) :
    WellFormed { s with listener := Function.update s.listener tracer listens } := by
  refine ⟨wf.empty, wf.nodup, wf.registered, ?_, wf.timer, wf.connecting, wf.bound, wf.accepted⟩
  intro other h
  by_cases same : other = tracer
  · exact same ▸ known
  · dsimp only at h
    rw [Function.update_of_ne same] at h
    exact wf.listener other h

theorem WellFormed.splice (wf : WellFormed s) (event : Str) (tracer : Tracer) :
    WellFormed (s.splice event tracer) := by
  have fewer (event' : Str) :
      ((s.splice event tracer).registered event').Sublist (s.registered event') := by
    rw [registered_splice]
    split
    case isTrue same => exact same ▸ List.erase_sublist
    case isFalse => exact List.Sublist.refl _
  refine ⟨fun none => ?_, fun event' => (fewer event').nodup (wf.nodup event'), ?_, wf.listener,
    wf.timer, wf.connecting, wf.bound, wf.accepted⟩
  · have present : (s.splice event tracer).tracers.has event = true := by
      simp [TracerStore.splice]
    rw [← Dict.mem_keys, Dict.keys, none] at present
    cases present
  · intro event' other listed
    exact wf.registered event' other ((fewer event').subset listed)

theorem WellFormed.remove (wf : WellFormed s) (traceEvent : Str) (opts : ℕ) :
    WellFormed (s.remove traceEvent opts) := by
  cases found : s.get traceEvent opts with
  | none =>
    rw [remove_none found]
    exact wf
  | some tracer =>
    obtain ⟨more, -, same⟩ := remove_eq found
    have known := (wf.registered traceEvent tracer (wf.mem_get found).1).2
    rw [same]
    exact (((wf.clearTimer tracer).splice traceEvent tracer).listener_update known false).frame
      (s.ticks ++ more) s.nextAdd s.callers s.waiting s.answers

theorem WellFormed.mem_remove (wf : WellFormed s) (found : s.get traceEvent opts = some tracer)
    (event : Str) :
    other ∈ (s.remove traceEvent opts).registered event ↔
      other ∈ s.registered event ∧ other ≠ tracer := by
  obtain ⟨more, -, same⟩ := remove_eq found
  have listed := (wf.mem_get found).1
  have spliced : (s.remove traceEvent opts).registered event =
      (s.splice traceEvent tracer).registered event := by rw [same]; rfl
  rw [spliced, registered_splice]
  split
  case isTrue here =>
    rw [here, (wf.nodup traceEvent).mem_erase_iff, and_comm]
  case isFalse elsewhere =>
    refine (and_iff_left_of_imp fun there equal => elsewhere ?_).symm
    rw [← (wf.registered event other there).1, equal, (wf.registered _ tracer listed).1]

theorem WellFormed.mem_of_mem_remove (wf : WellFormed s) {event : Str}
    (listed : other ∈ (s.remove traceEvent opts).registered event) :
    other ∈ s.registered event := by
  cases found : s.get traceEvent opts with
  | none => rwa [remove_none found] at listed
  | some first => exact ((wf.mem_remove found event).mp listed).1

theorem WellFormed.foremost_remove (wf : WellFormed s)
    (found : s.get traceEvent opts = some tracer) (first : s.Foremost other)
    (differs : other ≠ tracer) : (s.remove traceEvent opts).Foremost other := by
  obtain ⟨more, -, same⟩ := remove_eq found
  have spliced : (s.remove traceEvent opts).registered other.traceEvent =
      (s.splice traceEvent tracer).registered other.traceEvent := by rw [same]; rfl
  rw [Foremost, spliced, registered_splice]
  split
  case isFalse => exact first
  case isTrue here =>
    rw [Foremost, here, List.find?_eq_some_iff_append] at first
    obtain ⟨name, before, after, split, earlier⟩ := first
    rw [(wf.nodup traceEvent).erase_eq_filter, split, List.filter_append, List.filter_cons_of_pos
      (by simpa using differs), List.find?_eq_some_iff_append]
    refine ⟨name, _, _, rfl, fun passed listed => ?_⟩
    exact earlier passed (List.mem_of_mem_filter listed)

theorem WellFormed.add (wf : WellFormed s) (configs : Str → EventConfig) (traceEvent : Str)
    (opts : ℕ) (callback : Bool) (err : Option Str) (now : ℚ) :
    WellFormed (s.add configs traceEvent opts callback err now) := by
  have outcome := s.admits configs traceEvent opts
  rw [TracerStore.add]
  generalize s.admission configs traceEvent opts = admission at outcome
  have once : WellFormed (s.onceAdd callback (admission.fails err)) := wf.frame _ _ _ _ _
  cases outcome with
  | invalid err refuses => exact wf.frame _ _ _ _ _
  | found tracer valid found =>
    obtain ⟨listed, same⟩ := wf.mem_get found
    obtain ⟨rfl, known⟩ := wf.registered _ tracer listed
    exact ((once.accept known same).updateExpiration known same now).frame _ _ _ _ _
  | throws => exact wf.frame _ _ _ _ _
  | refused given sink known err valid here typed =>
    exact (wf.writeSink _ typed).frame _ _ _ _ _
  | made given sink known valid here typed =>
    refine (once.writeSink (configs traceEvent) typed).register _ rfl ?_
    simp only [key, TracerStore.sink, TracerStore.writeSink, Function.update_self, onceAdd, here,
      Option.map_some, Option.bind_some]
    rfl

theorem WellFormed.connected (wf : WellFormed s) (tracer : Tracer) :
    WellFormed { s with connecting := Function.update s.connecting tracer none } := by
  refine ⟨wf.empty, wf.nodup, wf.registered, wf.listener, wf.timer, ?_, wf.bound, wf.accepted⟩
  intro other connect h
  dsimp only at h
  by_cases same : other = tracer
  · rw [same, Function.update_self] at h
    cases h
  · rw [Function.update_of_ne same] at h
    exact wf.connecting other connect h

theorem WellFormed.onConnect (wf : WellFormed s) (tracer : Tracer) (now : ℚ) :
    WellFormed (s.onConnect tracer now) := by
  rw [TracerStore.onConnect]
  cases connecting : s.connecting tracer with
  | none => exact wf
  | some connect =>
    obtain ⟨known, same⟩ := wf.connecting tracer connect connecting
    have done := wf.connected tracer
    cases failed : connect.err with
    | some err =>
      simp only [failed]
      exact (done.remove _ _).frame _ _ _ _ _
    | none =>
      simp only [failed]
      exact ((done.listener_update known true).updateExpiration known same now).frame _ _ _ _ _

theorem WellFormed.fired (wf : WellFormed s) (timer : ℕ) :
    WellFormed { s with timers := s.timers.clearTimeout timer } := by
  refine ⟨wf.empty, wf.nodup, wf.registered, wf.listener, wf.timer, wf.connecting, ?_, wf.accepted⟩
  intro other bound h
  exact wf.bound other bound (TimerQueue.callback_of_clearTimeout h).2

theorem WellFormed.onTimeout (wf : WellFormed s) (timer : ℕ) : WellFormed (s.onTimeout timer) := by
  rw [TracerStore.onTimeout]
  split
  · exact wf
  · exact (wf.fired timer).remove _ _

theorem WellFormed.onTick (wf : WellFormed s) : WellFormed s.onTick := by
  rw [TracerStore.onTick]
  split
  · exact wf
  · exact wf.frame _ _ _ _ _
  case h_3 tracer ticks h =>
    refine ⟨wf.empty, wf.nodup, wf.registered, ?_, wf.timer, wf.connecting, wf.bound, wf.accepted⟩
    intro other listens
    refine wf.listener other ?_
    by_contra silent
    simp [disconnectSource, Function.update_apply, silent] at listens

theorem WellFormed.step (wf : WellFormed s) (configs : Str → EventConfig) (event : StoreEvent) :
    WellFormed (s.step configs event) := by
  cases event with
  | add traceEvent opts callback err now => exact wf.add configs traceEvent opts callback err now
  | remove traceEvent opts => exact wf.remove traceEvent opts
  | onConnect tracer now => exact wf.onConnect tracer now
  | onTimeout timer => exact wf.onTimeout timer
  | onTick => exact wf.onTick

theorem wellFormed_run (configs : Str → EventConfig) (given : ℕ → Option TraceOpts)
    (events : List StoreEvent) : WellFormed (run configs given events) :=
  Runs.foldl_invariant (step configs) WellFormed (fun _ event wf => wf.step configs event)
    (wellFormed_new given) events

end Ringpop.Trace.TracerStore
