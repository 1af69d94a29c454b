import Ringpop.TracerInvariant

/-! Which options are the same to a tracer store: `matches` compares an options object as it is,
and the constructors have written defaults into some of the objects and not into others. -/
namespace Ringpop.Trace
open JsString Dictionary

theorem Sink.defaults_defaults (config : EventConfig) (sink : Sink) :
    (sink.defaults config).defaults config = sink.defaults config := by
  cases sink <;> simp [defaults]

def TraceOpts.filled (config : EventConfig) (opts : TraceOpts) : TraceOpts :=
  { opts with sink := opts.sink.map (Sink.defaults config) }

theorem TraceOpts.filled_filled (config : EventConfig) (opts : TraceOpts) :
    (opts.filled config).filled config = opts.filled config := by
  rw [filled, filled, Option.map_map]
  congr 2
  exact funext (Sink.defaults_defaults config)

/-- The defaults do not make options valid or invalid. -/
theorem Tracer.invalidateOptions_filled (config : EventConfig) (opts : Option TraceOpts) :
    invalidateOptions (opts.map (TraceOpts.filled config)) = invalidateOptions opts := by
  cases opts with
  | none => rfl
  | some opts => simp [invalidateOptions, TraceOpts.filled]

/-- Calls about one event of the node, and whatever else happens in the meantime. -/
def StoreEvent.concerns (traceEvent : Str) : StoreEvent → Bool
  | .add event .. => event = traceEvent
  | .remove event _ => event = traceEvent
  | _ => true

def StoreEvent.isAdd : StoreEvent → Bool
  | .add .. => true
  | _ => false

namespace TracerStore

/-- An `add` with equal options has found or made the tracer. What a caller has put into an
options object is kept in `given`. -/
def AddedFor (given : ℕ → Option TraceOpts) (s : TracerStore) (opts : ℕ) (tracer : Tracer) :
    Prop :=
  ∃ other, (other, tracer) ∈ s.accepted ∧ given other = given opts

/-- Another `add` with equal options leaves the tracers as they are, and a `remove` with equal
options leaves no tracer of theirs. -/
def Idempotent (configs : Str → EventConfig) (given : ℕ → Option TraceOpts) (s : TracerStore) :
    StoreEvent → Prop
  | .add traceEvent opts callback err now =>
    (∃ tracer ∈ s.registered traceEvent, s.AddedFor given opts tracer) →
      (s.add configs traceEvent opts callback err now).registered traceEvent =
        s.registered traceEvent
  | .remove traceEvent opts =>
    ∀ tracer, s.AddedFor given opts tracer →
      tracer ∉ (s.remove traceEvent opts).registered traceEvent
  | _ => True

/-- Some constructor takes the options, with the defaults. -/
def takes (s : TracerStore) (config : EventConfig) (traceEvent : Str) (opts : ℕ) : Bool :=
  match s.opts opts, s.sink opts with
  | some given, some sink =>
    match s.construct config traceEvent given sink with
    | .made _ _ => true
    | _ => false
  | _, _ => false

/-- Where a tracer has been added for equal options, the object of the caller names its message
or endpoint. In an `add` it may instead be refused with the defaults; in a `remove` the tracer is
the first one of that name. -/
def Named (configs : Str → EventConfig) (given : ℕ → Option TraceOpts) (s : TracerStore) :
    StoreEvent → Prop
  | .add traceEvent opts _ _ _ =>
    (∃ tracer ∈ s.registered traceEvent, s.AddedFor given opts tracer) →
      (s.key opts).isSome ∨ s.takes (configs traceEvent) traceEvent opts = false
  | .remove traceEvent opts =>
    ∀ tracer ∈ s.registered traceEvent, s.AddedFor given opts tracer →
      (s.key opts).isSome ∧ s.Foremost tracer
  | _ => True

/-- Every options object is as it was given, or has the defaults. -/
structure Filled (config : EventConfig) (given : ℕ → Option TraceOpts) (s : TracerStore) :
    Prop where
  wellFormed : WellFormed s
  opts : ∀ opts, s.opts opts = given opts ∨
    s.opts opts = (given opts).map (TraceOpts.filled config)
  valid : ∀ pair ∈ s.accepted, Tracer.invalidateOptions (given pair.1) = none

variable {s : TracerStore} {configs : Str → EventConfig} {given : ℕ → Option TraceOpts}
  {config : EventConfig} {traceEvent : Str} {opts : ℕ} {tracer : Tracer}

theorem Filled.invalidateOptions_eq (filled : Filled config given s) (opts : ℕ) :
    Tracer.invalidateOptions (s.opts opts) = Tracer.invalidateOptions (given opts) := by
  rcases filled.opts opts with same | same
  · rw [same]
  · rw [same, Tracer.invalidateOptions_filled]

/-- What an object names is what was given, or else what the defaults name. -/
theorem Filled.key_eq (filled : Filled config given s) {name : Str ⊕ Option Str × Str}
    (named : s.key opts = some name) :
    (((given opts).map (TraceOpts.filled config)).bind TraceOpts.sink).bind Sink.key =
      some name := by
  rcases filled.opts opts with same | same
  · rw [key, sink, same] at named
    obtain ⟨sink', typed, key⟩ := Option.bind_eq_some_iff.mp named
    obtain ⟨opts', here, typed⟩ := Option.bind_eq_some_iff.mp typed
    have kept := Sink.key_defaults (by rw [Sink.named, key]; rfl) config
    simp only [here, Option.map_some, Option.bind_some, TraceOpts.filled, typed, kept, key]
  · rw [← same]
    exact named

theorem Filled.key_congr (filled : Filled config given s) {other : ℕ}
    (same : given other = given opts) (named : (s.key opts).isSome = true)
    (named' : (s.key other).isSome = true) : s.key opts = s.key other := by
  obtain ⟨name, here⟩ := Option.isSome_iff_exists.mp named
  obtain ⟨name', there⟩ := Option.isSome_iff_exists.mp named'
  have first := filled.key_eq here
  rw [← same, filled.key_eq there] at first
  rw [here, there, first]

/-- An object that names anything names the tracers that were added for equal options. -/
theorem Filled.key_added (filled : Filled config given s) (added : s.AddedFor given opts tracer)
    (named : (s.key opts).isSome = true) : s.key opts = tracer.key := by
  obtain ⟨other, accepted, same⟩ := added
  have own := (filled.wellFormed.accepted _ accepted).2
  have named' : (s.key other).isSome = true := by
    rw [own]
    exact tracer.isSome_key
  rw [filled.key_congr same named named', own]

theorem Filled.writeSink (filled : Filled config given s) {sink : Sink}
    (typed : s.sink opts = some sink) :
    Filled config given (s.writeSink opts (sink.defaults config)) where
  wellFormed := filled.wellFormed.writeSink config typed
  opts other := by
    by_cases same : other = opts
    · subst same
      obtain ⟨here, found, own⟩ := Option.bind_eq_some_iff.mp typed
      have written : (s.writeSink other (sink.defaults config)).opts other =
          (s.opts other).map (TraceOpts.filled config) := by
        simp only [TracerStore.writeSink, Function.update_self, found, Option.map_some,
          TraceOpts.filled, own]
      refine .inr (written.trans ?_)
      rcases filled.opts other with kept | kept
      · rw [kept]
      · rw [kept, Option.map_map]
        exact congrFun (congrArg Option.map (funext (TraceOpts.filled_filled config))) _
    · simp only [TracerStore.writeSink, Function.update_of_ne same]
      exact filled.opts other
  valid := filled.valid

/-- `add` makes a new tracer exactly when the object names none and is taken. -/
theorem Filled.admission_made (filled : Filled (configs traceEvent) given s)
    (listed : tracer ∈ s.registered traceEvent) (added : s.AddedFor given opts tracer) :
    (∃ sink made, s.admission configs traceEvent opts = .made sink made) ↔
      (s.key opts).isSome = false ∧ s.takes (configs traceEvent) traceEvent opts = true := by
  have wf := filled.wellFormed
  obtain ⟨rfl, -⟩ := wf.registered traceEvent tracer listed
  constructor
  · rintro ⟨sink, made, admitted⟩
    have outcome := s.admits configs tracer.traceEvent opts
    rw [admitted] at outcome
    cases outcome with
    | made here sink known valid found typed fresh accepts =>
      constructor
      · by_contra named
        rw [Bool.not_eq_false] at named
        obtain ⟨first, present, -⟩ := wf.get_of_key (filled.key_added added named) listed
        rw [fresh] at present
        cases present
      · simp only [takes, found, typed, construct, dif_pos known, accepts]
  · rintro ⟨unnamed, taken⟩
    obtain ⟨other, accepted, same⟩ := added
    have valid : Tracer.invalidateOptions (s.opts opts) = none := by
      rw [filled.invalidateOptions_eq, ← same]
      exact filled.valid _ accepted
    have fresh : s.get tracer.traceEvent opts = none := by
      by_contra present
      obtain ⟨first, found⟩ := Option.ne_none_iff_exists'.mp present
      rw [(wf.mem_get found).2, first.isSome_key] at unnamed
      cases unnamed
    rw [takes] at taken
    rw [admission, valid]
    split at taken
    case h_2 => cases taken
    case h_1 here sink found typed =>
      rw [found, typed]
      simp only [fresh]
      split at taken
      case h_1 sink' made constructed => exact ⟨sink', made, constructed⟩
      case h_2 => cases taken

theorem kept_remove (s : TracerStore) (traceEvent : Str) (opts : ℕ) :
    (s.remove traceEvent opts).opts = s.opts ∧
      (s.remove traceEvent opts).accepted = s.accepted := by
  obtain ⟨_, _, _, _, _, same⟩ := s.remove_frame traceEvent opts
  rw [same]
  exact ⟨rfl, rfl⟩

/-- Only `add` touches options objects. -/
theorem kept_step (s : TracerStore) (configs : Str → EventConfig) {event : StoreEvent}
    (other : event.isAdd = false) :
    (s.step configs event).opts = s.opts ∧ (s.step configs event).accepted = s.accepted := by
  cases event with
  | add => cases other
  | remove traceEvent opts => exact s.kept_remove traceEvent opts
  | onConnect tracer now =>
    rw [step, onConnect]
    split
    · exact ⟨rfl, rfl⟩
    · dsimp only
      split
      · exact kept_remove _ _ _
      · obtain ⟨timers, timer, same⟩ := updateExpiration_eq (connectSource _ tracer)
          tracer.traceEvent _ tracer now
        rw [same]
        exact ⟨rfl, rfl⟩
  | onTimeout timer =>
    rw [step, onTimeout]
    split
    · exact ⟨rfl, rfl⟩
    · exact kept_remove _ _ _
  | onTick =>
    rw [step, onTick]
    split <;> exact ⟨rfl, rfl⟩

theorem Filled.add (filled : Filled (configs traceEvent) given s) (callback : Bool)
    (err : Option Str) (now : ℚ) :
    Filled (configs traceEvent) given (s.add configs traceEvent opts callback err now) := by
  have wf' := filled.wellFormed.add configs traceEvent opts callback err now
  have outcome := s.admits configs traceEvent opts
  rw [TracerStore.add] at wf' ⊢
  generalize s.admission configs traceEvent opts = admission at outcome wf' ⊢
  generalize admission.fails err = fails at wf' ⊢
  have accepts (tracer : Tracer) (valid : Tracer.invalidateOptions (s.opts opts) = none) :
      ∀ pair ∈ s.accepted ++ [(opts, tracer)],
        Tracer.invalidateOptions (given pair.1) = none := by
    intro pair h
    rcases Runs.mem_extended.mp h with old | rfl
    · exact filled.valid pair old
    · rw [← filled.invalidateOptions_eq, valid]
  cases outcome with
  | found tracer valid found =>
    obtain ⟨timers, timer, same⟩ := updateExpiration_eq
      ((s.onceAdd callback fails).accept opts tracer) traceEvent opts tracer now
    refine ⟨wf', ?_, ?_⟩
    · dsimp only
      rw [same]
      exact filled.opts
    · dsimp only
      rw [same]
      exact accepts tracer valid
  | refused given sink known err valid here typed =>
    have written := filled.writeSink typed
    exact ⟨wf', written.opts, written.valid⟩
  | made given sink known valid here typed =>
    have written := filled.writeSink typed
    exact ⟨wf', written.opts, accepts _ valid⟩
  | _ => exact ⟨wf', filled.opts, filled.valid⟩

theorem Filled.step (filled : Filled (configs traceEvent) given s) (event : StoreEvent)
    (concerns : event.concerns traceEvent = true) :
    Filled (configs traceEvent) given (s.step configs event) := by
  have wf' := filled.wellFormed.step configs event
  cases adds : event.isAdd with
  | false =>
    obtain ⟨kept, accepted⟩ := s.kept_step configs adds
    exact ⟨wf', fun other => kept ▸ filled.opts other, accepted ▸ filled.valid⟩
  | true =>
    cases event with
    | add event opts callback err now =>
      obtain rfl := of_decide_eq_true concerns
      exact filled.add callback err now
    | _ => cases adds

/-- The tracers of an event change when one is made. -/
theorem registered_add (s : TracerStore) (configs : Str → EventConfig) (traceEvent : Str)
    (opts : ℕ) (callback : Bool) (err : Option Str) (now : ℚ) :
    (s.add configs traceEvent opts callback err now).registered traceEvent =
        s.registered traceEvent ↔
      ¬ ∃ sink made, s.admission configs traceEvent opts = .made sink made := by
  have outcome := s.admits configs traceEvent opts
  rw [TracerStore.add]
  generalize s.admission configs traceEvent opts = admission at outcome ⊢
  generalize admission.fails err = fails
  cases outcome with
  | found tracer =>
    obtain ⟨timers, timer, same⟩ := updateExpiration_eq
      ((s.onceAdd callback fails).accept opts tracer) traceEvent opts tracer now
    refine iff_of_true ?_ (by simp)
    dsimp only
    rw [same]
    rfl
  | made =>
    refine iff_of_false (fun same => ?_) (by simp)
    have length := congrArg List.length same
    rw [registered_register, if_pos (by rfl), List.length_append] at length
    exact Nat.succ_ne_self _ length
  | _ => exact iff_of_true rfl (by simp)

theorem Filled.idempotent_add (filled : Filled (configs traceEvent) given s) (callback : Bool)
    (err : Option Str) (now : ℚ) :
    Idempotent configs given s (.add traceEvent opts callback err now) ↔
      Named configs given s (.add traceEvent opts callback err now) := by
  refine imp_congr_right fun h => ?_
  obtain ⟨tracer, listed, added⟩ := h
  rw [registered_add, filled.admission_made listed added, not_and_or, Bool.not_eq_false,
    Bool.not_eq_true]

theorem Filled.idempotent_remove (filled : Filled config given s) (traceEvent : Str) (opts : ℕ) :
    Idempotent configs given s (.remove traceEvent opts) ↔
      Named configs given s (.remove traceEvent opts) := by
  have wf := filled.wellFormed
  constructor
  · intro removes tracer listed added
    have gone := removes tracer added
    obtain ⟨rfl, -⟩ := wf.registered traceEvent tracer listed
    cases found : s.get tracer.traceEvent opts with
    | none =>
      rw [remove_none found] at gone
      exact absurd listed gone
    | some first =>
      obtain rfl : tracer = first := by
        by_contra differs
        exact gone ((wf.mem_remove found _).mpr ⟨listed, differs⟩)
      have same := (wf.mem_get found).2
      exact ⟨same ▸ tracer.isSome_key, (wf.get_iff same).mp found⟩
  · intro named tracer added kept
    have listed := wf.mem_of_mem_remove kept
    obtain ⟨present, first⟩ := named tracer listed added
    obtain ⟨rfl, -⟩ := wf.registered traceEvent tracer listed
    have found := (wf.get_iff (filled.key_added added present)).mpr first
    exact ((wf.mem_remove found _).mp kept).2 rfl

theorem filled_new (config : EventConfig) (given : ℕ → Option TraceOpts) :
    Filled config given (new given) where
  wellFormed := wellFormed_new given
  opts _ := .inl rfl
  valid _ h := by cases h

/-- Calls with equal options are idempotent in a run exactly as long as the objects of the
callers name what has been added for equal ones. -/
theorem run_idempotent_iff (configs : Str → EventConfig) (given : ℕ → Option TraceOpts)
    (traceEvent : Str) (events : List StoreEvent)
    (concerns : ∀ event ∈ events, event.concerns traceEvent = true) :
    Runs.Throughout (step configs) (Idempotent configs given) (new given) events ↔
      Runs.Throughout (step configs) (Named configs given) (new given) events := by
  refine Runs.throughout_congr (Filled (configs traceEvent) given)
    (fun s event there filled => filled.step event (concerns event there)) ?_ (filled_new _ given)
  intro s event there filled
  have here := concerns event there
  cases event with
  | add event opts callback err now =>
    obtain rfl := of_decide_eq_true here
    exact filled.idempotent_add callback err now
  | remove event opts => exact filled.idempotent_remove event opts
  | _ => exact Iff.rfl

theorem run_idempotent_same_object :
    let event := str "membership.checksum.update"
    let given : ℕ → Option TraceOpts := fun _ => some ⟨some 50, none, some (.log none none)⟩
    let events : List StoreEvent := [.add event 0 true none 0, .add event 0 true none 0]
    (∀ call ∈ events, call.concerns event = true) ∧
      Runs.Throughout (step fun _ => checksumUpdate) (Idempotent (fun _ => checksumUpdate) given)
        (new given) events := by
  intro event given events
  have concerns : ∀ call ∈ events, call.concerns event = true := by decide
  refine ⟨concerns, (run_idempotent_iff _ given event events concerns).mpr ⟨?_, ?_, trivial⟩⟩
  · rintro ⟨tracer, listed, -⟩
    cases listed
  · exact fun _ => .inl (by decide)

/-- Two objects with the same contents make two tracers, and a third one removes neither. -/
theorem run_not_idempotent :
    let event := str "membership.checksum.update"
    let given : ℕ → Option TraceOpts := fun _ => some ⟨some 50, none, some (.log none none)⟩
    let events : List StoreEvent := [.add event 0 true none 0, .add event 1 true none 0]
    let twice := run (fun _ => checksumUpdate) given events
    (twice.registered event).length = 2 ∧
      ((twice.remove event 2).registered event).length = 2 ∧
      ¬ Runs.Throughout (step fun _ => checksumUpdate)
        (Idempotent (fun _ => checksumUpdate) given) (new given) events := by
  intro event given events twice
  refine ⟨by decide, by decide, ?_⟩
  rintro ⟨-, again, -⟩
  let tracer := Tracer.new 0 event ⟨some 50, none, none⟩
    (.log (some (str "info")) checksumUpdate.message) (by decide)
  have same := again ⟨tracer, by decide, 0, by decide, rfl⟩
  have lengths := congrArg List.length same
  revert lengths
  decide

end TracerStore
end Ringpop.Trace
