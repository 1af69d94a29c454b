import Ringpop.TracerInvariant

/-! Which runs of a tracer store leave no tracer that listens for ever: a tracer that listens is
registered, and one that is connected has a timer that ends it. -/
namespace Ringpop.Trace.TracerStore
open JsString Dictionary

/-- The timer has been set for the tracer, and is pending. -/
def SetFor (s : TracerStore) (tracer : Tracer) (timer : ℕ) : Prop :=
  ∃ bound, s.timers.callback timer = some bound ∧ bound.tracer = tracer

/-- Tracers that listen are registered, and those that are connected expire. -/
structure Expiring (s : TracerStore) : Prop where
  registered : ∀ tracer, s.listener tracer = true → tracer ∈ s.registered tracer.traceEvent
  expires : ∀ traceEvent, ∀ tracer ∈ s.registered traceEvent, s.connecting tracer = none →
    ∃ timer, (∀ other, s.SetFor tracer other ↔ other = timer) ∧
      tracer ∉ (s.onTimeout timer).registered traceEvent ∧
      (s.onTimeout timer).listener tracer = false

/-- A tracer that has connected is still registered, and the first one that its options name;
one that has failed to connect is the first one as long as it is registered; and whenever the
time of a connected tracer is set there is some left. -/
def InTime (s : TracerStore) : StoreEvent → Prop
  | .add traceEvent opts _ _ now =>
    Tracer.invalidateOptions (s.opts opts) = none →
      ∀ tracer, s.get traceEvent opts = some tracer → s.connecting tracer = none →
        newOffset (s.opts opts) now ≠ 0
  | .onConnect tracer now =>
    ∀ connect, s.connecting tracer = some connect →
      if connect.err.isSome then
        tracer ∈ s.registered tracer.traceEvent →
          s.get tracer.traceEvent connect.opts = some tracer
      else
        s.get tracer.traceEvent connect.opts = some tracer ∧
          newOffset (s.opts connect.opts) now ≠ 0
  | _ => True

/-- Timers are pending exactly for the tracers that have one, and end them. -/
structure Timed (s : TracerStore) : Prop where
  listening : ∀ tracer, s.listener tracer = true → tracer ∈ s.registered tracer.traceEvent
  pending : ∀ timer bound, s.timers.callback timer = some bound →
    s.timer bound.tracer = some timer ∧ s.Foremost bound.tracer
  timed : ∀ tracer timer, s.timer tracer = some timer → s.SetFor tracer timer

/-- What holds in a run whose steps are in time. -/
structure Sound (s : TracerStore) : Prop where
  wellFormed : WellFormed s
  timed : Timed s
  expires : ∀ traceEvent, ∀ tracer ∈ s.registered traceEvent, s.connecting tracer = none →
    (s.timer tracer).isSome

variable {s : TracerStore} {traceEvent : Str} {opts : ℕ} {tracer other : Tracer}

theorem Timed.clearTimer (timed : Timed s) (tracer : Tracer) : Timed (s.clearTimer tracer) := by
  have others {timer : ℕ} {bound : Expiration}
      (h : (s.clearTimer tracer).timers.callback timer = some bound) :
      s.timers.callback timer = some bound ∧ bound.tracer ≠ tracer := by
    obtain ⟨differs, old⟩ := callback_of_clearTimer h
    exact ⟨old, fun own => differs (own ▸ (timed.pending timer bound old).1)⟩
  refine ⟨timed.listening, ?_, ?_⟩
  · intro timer bound h
    obtain ⟨old, differs⟩ := others h
    rw [timer_clearTimer, if_neg differs]
    exact timed.pending timer bound old
  · intro other timer h
    rw [timer_clearTimer] at h
    split at h
    case isTrue => cases h
    case isFalse differs =>
      obtain ⟨bound, old, rfl⟩ := timed.timed other timer h
      refine ⟨bound, ?_, rfl⟩
      rw [callback_clearTimer, if_neg]
      · exact old
      · intro own
        obtain ⟨bound', old', rfl⟩ := timed.timed tracer timer own
        rw [old] at old'
        exact differs (Option.some.inj old' ▸ rfl)

theorem Timed.updateExpiration (timed : Timed s) (first : s.Foremost tracer)
    (traceEvent : Str) (opts : ℕ) (now : ℚ) :
    Timed (s.updateExpiration traceEvent opts tracer now) := by
  have cleared := timed.clearTimer tracer
  rw [TracerStore.updateExpiration]
  split
  · exact cleared
  have unset : (s.clearTimer tracer).timer tracer = none := by
    rw [timer_clearTimer, if_pos rfl]
  refine ⟨cleared.listening, ?_, ?_⟩
  · intro timer bound h
    dsimp only at h ⊢
    rcases TimerQueue.callback_of_setTimeout h with ⟨rfl, rfl⟩ | old
    · exact ⟨Function.update_self .., first⟩
    · obtain ⟨own, foremost⟩ := cleared.pending timer bound old
      have differs : bound.tracer ≠ tracer := fun same => by
        rw [same, unset] at own
        cases own
      exact ⟨by rw [Function.update_of_ne differs, own], foremost⟩
  · intro other timer h
    dsimp only at h
    by_cases same : other = tracer
    · rw [same, Function.update_self] at h
      obtain rfl := Option.some.inj h
      exact ⟨_, by rw [TimerQueue.callback_setTimeout, if_pos rfl], same.symm⟩
    · rw [Function.update_of_ne same] at h
      obtain ⟨bound, old, own⟩ := cleared.timed other timer h
      refine ⟨bound, ?_, own⟩
      rw [TimerQueue.callback_setTimeout, if_neg]
      · exact old
      · rintro rfl
        rw [TimerQueue.callback, TimerQueue.fresh _ _ (Nat.le_refl _)] at old
        cases old

theorem Timed.remove (timed : Timed s) (wf : WellFormed s) (traceEvent : Str) (opts : ℕ) :
    Timed (s.remove traceEvent opts) := by
  cases found : s.get traceEvent opts with
  | none =>
    rw [remove_none found]
    exact timed
  | some tracer =>
    have cleared := timed.clearTimer tracer
    obtain ⟨more, -, same⟩ := remove_eq found
    refine ⟨?_, ?_, ?_⟩
    · intro other h
      rw [same] at h
      dsimp only at h
      by_cases own : other = tracer
      · rw [own, Function.update_self] at h
        cases h
      · rw [Function.update_of_ne own] at h
        exact (wf.mem_remove found _).mpr ⟨timed.listening other h, own⟩
    · intro timer bound h
      rw [same] at h
      obtain ⟨own, foremost⟩ := cleared.pending timer bound h
      refine ⟨by rw [same]; exact own, wf.foremost_remove found foremost ?_⟩
      rintro rfl
      rw [timer_clearTimer, if_pos rfl] at own
      cases own
    · intro other timer h
      rw [same] at h
      obtain ⟨bound, pending, own⟩ := cleared.timed other timer h
      exact ⟨bound, by rw [same]; exact pending, own⟩

theorem Timed.register (timed : Timed s) (tracer : Tracer) (connect : OnConnect) :
    Timed (s.register tracer connect) := by
  refine ⟨?_, ?_, timed.timed⟩
  · intro other h
    have listed := timed.listening other h
    rw [registered_register]
    split
    case isTrue same => exact List.mem_append_left _ (same ▸ listed)
    case isFalse => exact listed
  · intro timer bound h
    obtain ⟨own, first⟩ := timed.pending timer bound h
    refine ⟨own, ?_⟩
    rw [Foremost, registered_register]
    split
    case isTrue same =>
      rw [Foremost, same] at first
      rw [List.find?_append, first, Option.some_or]
    case isFalse => exact first

/-- A timer ends the tracer that it has been set for. -/
theorem Sound.onTimeout_eq (sound : Sound s) {timer : ℕ} {bound : Expiration}
    (h : s.timers.callback timer = some bound) :
    s.onTimeout timer = s.remove bound.traceEvent bound.opts ∧
      s.get bound.traceEvent bound.opts = some bound.tracer := by
  obtain ⟨own, first⟩ := sound.timed.pending timer bound h
  obtain ⟨-, event, same⟩ := sound.wellFormed.bound timer bound h
  have found : s.get bound.traceEvent bound.opts = some bound.tracer := by
    rw [event, sound.wellFormed.get_iff same]
    exact first
  refine ⟨?_, found⟩
  have found' : { s with timers := s.timers.clearTimeout timer }.get bound.traceEvent bound.opts =
      some bound.tracer := found
  rw [onTimeout, h]
  dsimp only
  rw [TracerStore.remove, found', TracerStore.remove, found]
  have cleared : { s with timers := s.timers.clearTimeout timer }.clearTimer bound.tracer =
      s.clearTimer bound.tracer := by
    simp only [TracerStore.clearTimer, own, Option.elim_some,
      TimerQueue.clearTimeout_clearTimeout]
  dsimp only
  rw [cleared]

theorem Sound.expiring (sound : Sound s) : Expiring s where
  registered := sound.timed.listening
  expires traceEvent tracer listed connected := by
    obtain ⟨timer, own⟩ :=
      Option.isSome_iff_exists.mp (sound.expires traceEvent tracer listed connected)
    obtain ⟨bound, pending, rfl⟩ := sound.timed.timed tracer timer own
    obtain ⟨removes, found⟩ := sound.onTimeout_eq pending
    refine ⟨timer, fun other => ⟨?_, ?_⟩, ?_, ?_⟩
    · rintro ⟨bound', pending', same⟩
      have own' := (sound.timed.pending other bound' pending').1
      rw [same, own] at own'
      exact (Option.some.inj own').symm
    · rintro rfl
      exact ⟨bound, pending, rfl⟩
    · rw [removes, sound.wellFormed.mem_remove found]
      exact fun h => h.2 rfl
    · obtain ⟨more, -, same⟩ := remove_eq found
      rw [removes, same]
      exact Function.update_self ..

theorem sound_new (given : ℕ → Option TraceOpts) : Sound (new given) where
  wellFormed := wellFormed_new given
  timed :=
    { listening := fun _ h => by cases h
      pending := fun _ _ h => by cases h
      timed := fun _ _ h => by cases h }
  expires _ _ h := by cases h

/-- After `updateExpiration` the tracer has a timer if and only if there is time left. -/
theorem timer_updateExpiration (s : TracerStore) (traceEvent : Str) (opts : ℕ)
    (tracer other : Tracer) (now : ℚ) :
    ((s.updateExpiration traceEvent opts tracer now).timer other).isSome =
      if other = tracer then decide (newOffset (s.opts opts) now ≠ 0)
      else (s.timer other).isSome := by
  rw [updateExpiration]
  have opts_eq : (s.clearTimer tracer).opts = s.opts := rfl
  rw [opts_eq]
  split
  case isTrue none =>
    rw [timer_clearTimer]
    split <;> simp [none]
  case isFalse some =>
    dsimp only
    rw [Function.update_apply, timer_clearTimer]
    split <;> simp [some]

/-- The time of a registered tracer is set by way of its own options. -/
theorem expires_updateExpiration
    (expires : ∀ event, ∀ other ∈ s.registered event, other ≠ tracer →
      s.connecting other = none → (s.timer other).isSome) (traceEvent : Str) (opts : ℕ) (now : ℚ)
    (left : s.connecting tracer = none → newOffset (s.opts opts) now ≠ 0) :
    ∀ event, ∀ other ∈ (s.updateExpiration traceEvent opts tracer now).registered event,
      (s.updateExpiration traceEvent opts tracer now).connecting other = none →
      ((s.updateExpiration traceEvent opts tracer now).timer other).isSome := by
  intro event other listed connected
  rw [timer_updateExpiration]
  obtain ⟨timers, timer, same⟩ := s.updateExpiration_eq traceEvent opts tracer now
  rw [same] at listed connected
  split
  case isTrue same => exact decide_eq_true (left (same ▸ connected))
  case isFalse differs => exact expires event other listed differs connected

theorem Sound.add (sound : Sound s) (configs : Str → EventConfig) (callback : Bool)
    (err : Option Str) (now : ℚ) (inTime : s.InTime (.add traceEvent opts callback err now)) :
    Sound (s.add configs traceEvent opts callback err now) := by
  obtain ⟨wf, timed, expires⟩ := sound
  have wf' := wf.add configs traceEvent opts callback err now
  have outcome := s.admits configs traceEvent opts
  rw [TracerStore.add] at wf' ⊢
  generalize s.admission configs traceEvent opts = admission at outcome wf' ⊢
  generalize admission.fails err = fails at wf' ⊢
  cases outcome with
  | found tracer valid found =>
    obtain ⟨listed, same⟩ := wf.mem_get found
    obtain ⟨rfl, -⟩ := wf.registered _ tracer listed
    have first := (wf.get_iff same).mp found
    have once : Timed ((s.onceAdd callback fails).accept opts tracer) :=
      ⟨timed.listening, timed.pending, timed.timed⟩
    have timed' := once.updateExpiration first tracer.traceEvent opts now
    refine ⟨wf', ⟨timed'.listening, timed'.pending, timed'.timed⟩, ?_⟩
    exact expires_updateExpiration (s := (s.onceAdd callback fails).accept opts tracer)
      (fun event other there _ => expires event other there) _ _ _ (inTime valid tracer found)
  | made given sink known valid here typed =>
    have written : Timed ((s.onceAdd callback fails).writeSink opts
        (sink.defaults (configs traceEvent))) := ⟨timed.listening, timed.pending, timed.timed⟩
    refine ⟨wf', written.register _ _, ?_⟩
    intro event other there connected
    rw [registered_register] at there
    simp only [TracerStore.register, TracerStore.accept] at connected
    have old : other ∈ s.registered event := by
      split at there
      case isFalse => exact there
      case isTrue same =>
        rcases Runs.mem_extended.mp there with old | rfl
        · exact same ▸ old
        · rw [Function.update_self] at connected
          cases connected
    have differs : s.connecting other = none := by
      rw [Function.update_apply] at connected
      split at connected
      · cases connected
      · exact connected
    exact expires event other old differs
  | _ => exact ⟨wf', ⟨timed.listening, timed.pending, timed.timed⟩, expires⟩

theorem Sound.remove (sound : Sound s) (traceEvent : Str) (opts : ℕ) :
    Sound (s.remove traceEvent opts) := by
  obtain ⟨wf, timed, expires⟩ := sound
  refine ⟨wf.remove traceEvent opts, timed.remove wf traceEvent opts, ?_⟩
  intro event other listed connected
  cases found : s.get traceEvent opts with
  | none =>
    rw [remove_none found] at listed connected ⊢
    exact expires event other listed connected
  | some tracer =>
    obtain ⟨there, differs⟩ := (wf.mem_remove found event).mp listed
    obtain ⟨more, -, same⟩ := remove_eq found
    rw [same] at connected ⊢
    have timer : (s.clearTimer tracer).timer other = s.timer other := by
      rw [timer_clearTimer, if_neg differs]
    exact timer ▸ expires event other there connected

theorem Timed.connectSource (timed : Timed s)
    (listed : tracer ∈ s.registered tracer.traceEvent) : Timed (s.connectSource tracer) := by
  refine ⟨fun other h => ?_, timed.pending, timed.timed⟩
  rw [TracerStore.connectSource] at h
  dsimp only at h
  by_cases same : other = tracer
  · exact same ▸ listed
  · rw [Function.update_of_ne same] at h
    exact timed.listening other h

/-- A tracer that is done connecting needs a timer, if it is registered. -/
theorem Sound.connected (sound : Sound s)
    (ends : tracer ∈ s.registered tracer.traceEvent → (s.timer tracer).isSome) :
    Sound { s with connecting := Function.update s.connecting tracer none } := by
  obtain ⟨wf, timed, expires⟩ := sound
  refine ⟨wf.connected tracer, ⟨timed.listening, timed.pending, timed.timed⟩, ?_⟩
  intro event other listed connected
  by_cases same : other = tracer
  · subst same
    obtain ⟨rfl, -⟩ := wf.registered event other listed
    exact ends listed
  · dsimp only at connected
    rw [Function.update_of_ne same] at connected
    exact expires event other listed connected

theorem Sound.frame (sound : Sound s) (ticks : List Tick) (nextAdd : ℕ)
    (callers waiting : List Caller) (answers : List (Caller × Answer)) :
    Sound { s with
      ticks := ticks, nextAdd := nextAdd, callers := callers, waiting := waiting
      answers := answers } :=
  ⟨sound.wellFormed.frame .., ⟨sound.timed.1, sound.timed.2, sound.timed.3⟩, sound.expires⟩

theorem Sound.onConnect (sound : Sound s) (now : ℚ) (inTime : s.InTime (.onConnect tracer now)) :
    Sound (s.onConnect tracer now) := by
  have wf := sound.wellFormed
  have wf' := wf.onConnect tracer now
  rw [TracerStore.onConnect] at wf' ⊢
  cases connecting : s.connecting tracer with
  | none => exact sound
  | some connect =>
    have met := inTime connect connecting
    have same := (wf.connecting tracer connect connecting).2
    rw [connecting] at wf'
    cases failed : connect.err with
    | some err =>
      rw [failed, if_pos Option.isSome_some] at met
      simp only [failed]
      rw [remove_connected]
      refine ((sound.remove _ _).connected fun listed => ?_).frame _ _ _ _ _
      have found := met (wf.mem_of_mem_remove listed)
      exact absurd rfl ((wf.mem_remove found _).mp listed).2
    | none =>
      rw [failed, if_neg (by simp)] at met
      obtain ⟨found, left⟩ := met
      have first := (wf.get_iff same).mp found
      simp only [failed] at wf' ⊢
      have done : Timed { s with connecting := Function.update s.connecting tracer none } :=
        ⟨sound.timed.listening, sound.timed.pending, sound.timed.timed⟩
      have timed' := (done.connectSource first.mem).updateExpiration first tracer.traceEvent
        connect.opts now
      refine ⟨wf', ⟨timed'.listening, timed'.pending, timed'.timed⟩, ?_⟩
      refine expires_updateExpiration (s := TracerStore.connectSource _ tracer) ?_ _ _ _
        fun _ => left
      intro event other listed differs connected
      refine sound.expires event other listed ?_
      simp only [TracerStore.connectSource] at connected
      rwa [Function.update_of_ne differs] at connected

theorem Sound.onTimeout (sound : Sound s) (timer : ℕ) : Sound (s.onTimeout timer) := by
  cases pending : s.timers.callback timer with
  | none =>
    rw [TracerStore.onTimeout, pending]
    exact sound
  | some bound =>
    rw [(sound.onTimeout_eq pending).1]
    exact sound.remove _ _

theorem Sound.onTick (sound : Sound s) : Sound s.onTick := by
  have wf' := sound.wellFormed.onTick
  rw [TracerStore.onTick] at wf' ⊢
  split at wf'
  · exact sound
  · exact sound.frame _ _ _ _ _
  · refine ⟨wf', ⟨fun other listens => ?_, sound.timed.pending, sound.timed.timed⟩, sound.expires⟩
    refine sound.timed.listening other ?_
    by_contra silent
    simp [disconnectSource, Function.update_apply, silent] at listens

theorem Sound.step (sound : Sound s) (configs : Str → EventConfig) (event : StoreEvent)
    (inTime : s.InTime event) : Sound (s.step configs event) := by
  cases event with
  | add traceEvent opts callback err now => exact sound.add configs callback err now inTime
  | remove traceEvent opts => exact sound.remove traceEvent opts
  | onConnect tracer now => exact sound.onConnect now inTime
  | onTimeout timer => exact sound.onTimeout timer
  | onTick => exact sound.onTick

/-- A registered tracer that has connected and has no timer stays for ever. -/
theorem Expiring.timer (expiring : Expiring s)
    (listed : tracer ∈ s.registered traceEvent) (connected : s.connecting tracer = none) :
    ∃ timer, s.SetFor tracer timer := by
  obtain ⟨timer, only, -⟩ := expiring.expires traceEvent tracer listed connected
  exact ⟨timer, (only timer).mpr rfl⟩

/-- No timer is set when no time is left. -/
theorem Timed.not_setFor (timed : Timed s) {now : ℚ} (none : newOffset (s.opts opts) now = 0)
    (traceEvent : Str) (timer : ℕ) :
    ¬ (s.updateExpiration traceEvent opts tracer now).SetFor tracer timer := by
  have cleared : s.updateExpiration traceEvent opts tracer now = s.clearTimer tracer := by
    rw [TracerStore.updateExpiration]
    exact if_pos none
  rw [cleared]
  rintro ⟨bound, pending, rfl⟩
  have own := ((timed.clearTimer bound.tracer).pending timer bound pending).1
  rw [timer_clearTimer, if_pos rfl] at own
  cases own

/-- A timer that is bound to the options of another tracer does not end its own. -/
theorem not_expiring_of_other (wf : WellFormed s) (same : s.key opts = tracer.key) {now : ℚ}
    (left : newOffset (s.opts opts) now ≠ 0) (listed : tracer ∈ s.registered tracer.traceEvent)
    (connected : s.connecting tracer = none)
    (missed : s.get tracer.traceEvent opts ≠ some tracer) :
    ¬ Expiring (s.updateExpiration tracer.traceEvent opts tracer now) := by
  intro expiring
  obtain ⟨first, found, -⟩ := wf.get_of_key same listed
  have differs : tracer ≠ first := fun equal => missed (equal ▸ found)
  have known := (wf.registered _ tracer listed).2
  have wf' := wf.updateExpiration known same now
  rw [updateExpiration, if_neg (by exact left)] at expiring wf'
  obtain ⟨timer, only, gone, -⟩ := expiring.expires tracer.traceEvent tracer listed connected
  have pending := TimerQueue.callback_setTimeout (s.clearTimer tracer).timers
    ⟨tracer, tracer.traceEvent, opts⟩ (s.clearTimer tracer).timers.next
  rw [if_pos rfl] at pending
  obtain rfl := (only _).mp ⟨_, pending, rfl⟩
  apply gone
  rw [onTimeout, pending]
  exact ((wf'.fired _).mem_remove (by exact found) _).mpr ⟨listed, differs⟩

/-- Emissions that are still to come do not matter. -/
theorem Expiring.of_emitAddNextTick {call : ℕ} {answer : Answer}
    (expiring : Expiring (s.emitAddNextTick call answer)) : Expiring s := by
  have same (timer : ℕ) :
      ((s.emitAddNextTick call answer).onTimeout timer).tracers = (s.onTimeout timer).tracers ∧
      ((s.emitAddNextTick call answer).onTimeout timer).listener =
        (s.onTimeout timer).listener := by
    have pending : (s.emitAddNextTick call answer).timers = s.timers := rfl
    rw [onTimeout, onTimeout, pending]
    cases s.timers.callback timer with
    | none => exact ⟨rfl, rfl⟩
    | some bound =>
      have lookup : { s.emitAddNextTick call answer with
          timers := s.timers.clearTimeout timer }.get bound.traceEvent bound.opts =
          { s with timers := s.timers.clearTimeout timer }.get bound.traceEvent bound.opts := rfl
      dsimp only
      rw [remove, remove, lookup]
      cases { s with timers := s.timers.clearTimeout timer }.get bound.traceEvent bound.opts with
      | none => exact ⟨rfl, rfl⟩
      | some tracer =>
        simp only [disconnectSink]
        split <;> exact ⟨rfl, rfl⟩
  refine ⟨expiring.registered, fun event tracer listed connected => ?_⟩
  obtain ⟨timer, only, gone, silent⟩ := expiring.expires event tracer listed connected
  rw [TracerStore.registered, (same timer).1] at gone
  rw [(same timer).2] at silent
  exact ⟨timer, only, gone, silent⟩

/-- A tracer that listens does not expire when it is not registered, or not found by its own
options, or has no time left. -/
theorem not_expiring (wf : WellFormed s) (same : s.key opts = tracer.key) {now : ℚ}
    (timed : tracer ∈ s.registered tracer.traceEvent → Timed s)
    (listens : s.listener tracer = true) (connected : s.connecting tracer = none)
    (missed : s.get tracer.traceEvent opts ≠ some tracer ∨ newOffset (s.opts opts) now = 0) :
    ¬ Expiring (s.updateExpiration tracer.traceEvent opts tracer now) := by
  intro expiring
  obtain ⟨timers, timer, same'⟩ := s.updateExpiration_eq tracer.traceEvent opts tracer now
  have listed : tracer ∈ s.registered tracer.traceEvent := by
    have registered := expiring.registered tracer
    rw [same'] at registered
    exact registered listens
  by_cases none : newOffset (s.opts opts) now = 0
  · have expires := expiring.expires tracer.traceEvent tracer
    rw [same'] at expires
    obtain ⟨timer, only, -⟩ := expires listed connected
    exact (timed listed).not_setFor none tracer.traceEvent timer (same' ▸ (only timer).mpr rfl)
  · exact not_expiring_of_other wf same none listed connected (missed.resolve_right none) expiring

theorem Sound.not_add (sound : Sound s) (configs : Str → EventConfig) (callback : Bool)
    (err : Option Str) (now : ℚ) (missed : ¬ s.InTime (.add traceEvent opts callback err now)) :
    ¬ Expiring (s.add configs traceEvent opts callback err now) := by
  intro expiring
  simp only [InTime, not_forall, not_not] at missed
  obtain ⟨valid, tracer, found, connected, none⟩ := missed
  obtain ⟨listed, same⟩ := sound.wellFormed.mem_get found
  have outcome := s.admits configs traceEvent opts
  rw [TracerStore.add] at expiring
  generalize s.admission configs traceEvent opts = admission at outcome expiring
  generalize admission.fails err = fails at expiring
  cases outcome with
  | found tracer' _ found' =>
    obtain rfl : tracer = tracer' := Option.some.inj (found.symm.trans found')
    have once : Timed ((s.onceAdd callback fails).accept opts tracer) :=
      ⟨sound.timed.listening, sound.timed.pending, sound.timed.timed⟩
    obtain ⟨timers, timer, same⟩ := updateExpiration_eq
      ((s.onceAdd callback fails).accept opts tracer) traceEvent opts tracer now
    have expires := expiring.of_emitAddNextTick.expires traceEvent tracer
    rw [same] at expires
    obtain ⟨timer, only, -⟩ := expires listed connected
    exact once.not_setFor none traceEvent timer (same ▸ (only timer).mpr rfl)
  | invalid _ refuses => cases valid.symm.trans refuses
  | throws _ fresh => cases found.symm.trans fresh
  | refused _ _ _ _ _ _ _ fresh => cases found.symm.trans fresh
  | made _ _ _ _ _ _ fresh => cases found.symm.trans fresh

theorem Sound.not_onConnect (sound : Sound s) (now : ℚ)
    (missed : ¬ s.InTime (.onConnect tracer now)) : ¬ Expiring (s.onConnect tracer now) := by
  intro expiring
  have wf := sound.wellFormed
  simp only [InTime, not_forall] at missed
  obtain ⟨connect, connecting, missed⟩ := missed
  have same := (wf.connecting tracer connect connecting).2
  rw [TracerStore.onConnect, connecting] at expiring
  cases failed : connect.err with
  | some err =>
    rw [failed, if_pos Option.isSome_some, Classical.not_imp] at missed
    obtain ⟨listed, missed⟩ := missed
    obtain ⟨first, found, -⟩ := wf.get_of_key same listed
    have differs : tracer ≠ first := fun equal => missed (equal ▸ found)
    simp only [failed] at expiring
    rw [remove_connected] at expiring
    obtain ⟨timer, bound, pending, own⟩ := expiring.timer
      ((wf.mem_remove found tracer.traceEvent).mpr ⟨listed, differs⟩) (Function.update_self ..)
    obtain ⟨more, -, removed⟩ := remove_eq found
    have before : (s.clearTimer first).timers.callback timer = some bound := by
      rw [← pending, removed]
      rfl
    have foremost := (sound.timed.pending timer bound (callback_of_clearTimer before).2).2
    rw [own] at foremost
    exact missed ((wf.get_iff same).mpr foremost)
  | none =>
    rw [failed, if_neg (by simp), not_and_or, not_not] at missed
    simp only [failed] at expiring
    refine not_expiring ((wf.connected tracer).listener_update ?_ true) same ?_
      (Function.update_self ..) (Function.update_self ..) missed expiring.of_emitAddNextTick
    · exact (wf.connecting tracer connect connecting).1
    · intro listed
      refine Timed.connectSource (s := { s with connecting := _ }) ?_ listed
      exact ⟨sound.timed.listening, sound.timed.pending, sound.timed.timed⟩

theorem Sound.not_step (sound : Sound s) (configs : Str → EventConfig) (event : StoreEvent)
    (missed : ¬ s.InTime event) : ¬ Expiring (s.step configs event) := by
  cases event with
  | add traceEvent opts callback err now => exact sound.not_add configs callback err now missed
  | onConnect tracer now => exact sound.not_onConnect now missed
  | _ => exact absurd trivial missed

/-- In a run of the store every tracer that listens is registered and every connected one
expires, exactly as long as every step is in time. -/
theorem run_expiring_iff (configs : Str → EventConfig) (given : ℕ → Option TraceOpts)
    (events : List StoreEvent) :
    (∀ reached, reached <+: events → Expiring (run configs given reached)) ↔
      Runs.Throughout (step configs) InTime (new given) events :=
  Runs.always_iff_throughout Sound Expiring (fun _ => Sound.expiring)
    (fun _ event sound => sound.step configs event)
    (fun _ event sound => sound.not_step configs event) (sound_new given) events

/-- A log tracer that is removed before it is connected listens for ever: its timer finds
nothing to remove. -/
theorem run_not_expiring :
    let event := str "membership.checksum.update"
    let given : TraceOpts := ⟨some 50, none, some (.log none none)⟩
    let sink := Sink.log (some (str "info")) checksumUpdate.message
    let tracer := Tracer.new 0 event given sink (by decide)
    let removed := run (fun _ => checksumUpdate) (fun _ => some given)
      [.add event 0 false none 0, .remove event 0, .onConnect tracer 0]
    removed.registered event = [] ∧ removed.listener tracer = true ∧
      (removed.onTimeout 0).listener tracer = true ∧
      (∀ timer, (removed.onTimeout 0).timers.callback timer = none) ∧ ¬ Expiring removed := by
  intro event given sink tracer removed
  have empty : removed.registered event = [] := by decide
  have listens : removed.listener tracer = true := by decide
  refine ⟨empty, listens, by decide, ?_, fun expiring => ?_⟩
  · exact TimerQueue.count_eq_zero.mp (by decide)
  · have there := expiring.registered tracer listens
    rw [show tracer.traceEvent = event from rfl, empty] at there
    cases there

end Ringpop.Trace.TracerStore
