import Ringpop.TracerInvariant

/-! Which callbacks of `add` are called with the outcome of their own `add`: an emission of the
store calls all that are registered by then. -/
namespace Ringpop.Trace.TracerStore
open JsString Dictionary

/-- The `add` is going to emit an outcome of its own. -/
def Pending (s : TracerStore) (call : ℕ) : Prop :=
  (∃ answer, Tick.emitAdd call answer ∈ s.ticks) ∨
    ∃ tracer connect, s.connecting tracer = some connect ∧ connect.call = call

/-- The calls of the callback of an `add`: whether they were with an error. -/
def calls (s : TracerStore) (call : ℕ) : List Bool :=
  (s.answers.filter fun pair => pair.1.call = call).map fun pair => pair.2.isError

/-- Every callback has been called once, with the outcome of its own `add`, or is not called
yet and the outcome is to come. -/
def OwnAnswers (s : TracerStore) : Prop :=
  ∀ caller ∈ s.callers,
    s.calls caller.call = [] ∧ s.Pending caller.call ∨ s.calls caller.call = [caller.fails]

/-- What an event emits at once: whether it is an error. -/
def emission (s : TracerStore) : StoreEvent → Option Bool
  | .onConnect tracer _ =>
    (s.connecting tracer).bind fun connect => connect.err.map fun _ => true
  | .onTick =>
    match s.ticks with
    | .emitAdd _ answer :: _ => some answer.isError
    | _ => none
  | _ => none

/-- No callback is given with a sink of a type that has no tracer. -/
def Typed (s : TracerStore) : StoreEvent → Prop
  | .add _ opts callback _ _ =>
    callback = true → Tracer.invalidateOptions (s.opts opts) = none →
      ∃ sink, s.sink opts = some sink ∧ sink.known = true
  | _ => True

/-- An emission finds only callbacks that wait for the same outcome. -/
def Alike (s : TracerStore) (event : StoreEvent) : Prop :=
  s.Typed event ∧
    ∀ error, s.emission event = some error → ∀ caller ∈ s.waiting, caller.fails = error

/-- Callbacks that wait have not been called, and the others have been, once. -/
structure Answering (s : TracerStore) : Prop where
  wellFormed : WellFormed s
  distinct : (s.callers.map Caller.call).Nodup
  numbered : ∀ caller ∈ s.callers, caller.call < s.nextAdd
  announced : ∀ call, s.Pending call → call < s.nextAdd
  waiting : s.waiting.Sublist s.callers
  answers : ∀ pair ∈ s.answers, pair.1 ∈ s.callers
  uncalled : ∀ caller ∈ s.waiting, s.calls caller.call = [] ∧ s.Pending caller.call
  called : ∀ caller ∈ s.callers, caller ∉ s.waiting → s.calls caller.call = [caller.fails]

variable {s : TracerStore}

theorem Answering.ownAnswers (answering : Answering s) : OwnAnswers s := fun caller given => by
  by_cases waits : caller ∈ s.waiting
  · exact .inl (answering.uncalled caller waits)
  · exact .inr (answering.called caller given waits)

theorem answering_new (given : ℕ → Option TraceOpts) : Answering (new given) where
  wellFormed := wellFormed_new given
  distinct := List.nodup_nil
  numbered _ h := by cases h
  announced call h := by
    rcases h with ⟨answer, h⟩ | ⟨tracer, connect, h, -⟩ <;> cases h
  waiting := List.Sublist.refl _
  answers _ h := by cases h
  uncalled _ h := by cases h
  called _ h := by cases h

theorem calls_emitAdd (s : TracerStore) (answer : Answer) (call : ℕ) :
    (s.emitAdd answer).calls call =
      s.calls call ++
        (s.waiting.filter fun caller => caller.call = call).map fun _ => answer.isError := by
  simp only [calls, emitAdd, List.filter_append, List.map_append, List.filter_map, List.map_map]
  rfl

/-- Numbers tell callbacks apart. -/
theorem filter_call {callers : List Caller} (distinct : (callers.map Caller.call).Nodup)
    {caller : Caller} (listed : caller ∈ callers) :
    (callers.filter fun other => other.call = caller.call) = [caller] := by
  induction callers with
  | nil => cases listed
  | cons first callers ih =>
    rw [List.map_cons, List.nodup_cons] at distinct
    have others : (callers.filter fun other => other.call = first.call) = [] := by
      refine List.filter_eq_nil_iff.mpr fun other there same => distinct.1 ?_
      exact of_decide_eq_true same ▸ List.mem_map_of_mem there
    rcases List.mem_cons.mp listed with rfl | there
    · rw [List.filter_cons, if_pos (decide_eq_true rfl), others]
    · have differs : ¬ decide (first.call = caller.call) = true := fun same =>
        distinct.1 (of_decide_eq_true same ▸ List.mem_map_of_mem there)
      rw [List.filter_cons, if_neg differs, ih distinct.2 there]

theorem Answering.distinct_waiting (answering : Answering s) :
    (s.waiting.map Caller.call).Nodup :=
  (answering.waiting.map Caller.call).nodup answering.distinct

/-- All callbacks that wait are called once. -/
theorem Answering.emitAdd (answering : Answering s) (answer : Answer)
    (alike : ∀ caller ∈ s.waiting, caller.fails = answer.isError) :
    Answering (s.emitAdd answer) where
  wellFormed := answering.wellFormed.frame _ _ _ _ _
  distinct := answering.distinct
  numbered := answering.numbered
  announced := answering.announced
  waiting := List.nil_sublist _
  answers pair h := by
    rcases List.mem_append.mp h with old | new
    · exact answering.answers pair old
    · obtain ⟨caller, waits, rfl⟩ := List.mem_map.mp new
      exact answering.waiting.subset waits
  uncalled _ h := by cases h
  called caller given _ := by
    rw [calls_emitAdd]
    by_cases waits : caller ∈ s.waiting
    · rw [filter_call answering.distinct_waiting waits, (answering.uncalled caller waits).1,
        alike caller waits]
      rfl
    · have none : (s.waiting.filter fun other => other.call = caller.call) = [] := by
        have others := filter_call answering.distinct given
        have sub := answering.waiting.filter fun other => decide (other.call = caller.call)
        rw [others] at sub
        rcases List.sublist_singleton.mp sub with none | only
        · exact none
        · have there : caller ∈ s.waiting.filter fun other => decide (other.call = caller.call) :=
            only ▸ List.mem_singleton_self caller
          exact absurd (List.mem_of_mem_filter there) waits
      rw [none, answering.called caller given waits]
      rfl

/-- An emission of another kind is a wrong answer. -/
theorem Answering.not_emitAdd (answering : Answering s) (answer : Answer) {caller : Caller}
    (waits : caller ∈ s.waiting) (differs : caller.fails ≠ answer.isError) :
    ¬ OwnAnswers (s.emitAdd answer) := by
  intro own
  have answered : (s.emitAdd answer).calls caller.call = [answer.isError] := by
    rw [calls_emitAdd, filter_call answering.distinct_waiting waits,
      (answering.uncalled caller waits).1]
    rfl
  rcases own caller (answering.waiting.subset waits) with ⟨none, -⟩ | once
  · rw [answered] at none
    cases none
  · rw [answered] at once
    exact differs (List.singleton_inj.mp once).symm

/-- What is answered stays so while nothing is emitted and nothing pending is lost. -/
theorem Answering.quiet {s' : TracerStore} (answering : Answering s) (wf : WellFormed s')
    (callers : s'.callers = s.callers) (waiting : s'.waiting = s.waiting)
    (answers : s'.answers = s.answers) (nextAdd : s'.nextAdd = s.nextAdd)
    (later : ∀ caller ∈ s.waiting, s.Pending caller.call → s'.Pending caller.call)
    (earlier : ∀ call, s'.Pending call → s.Pending call) : Answering s' where
  wellFormed := wf
  distinct := callers ▸ answering.distinct
  numbered := by
    rw [callers, nextAdd]
    exact answering.numbered
  announced call h := nextAdd ▸ answering.announced call (earlier call h)
  waiting := by
    rw [callers, waiting]
    exact answering.waiting
  answers := by
    rw [callers, answers]
    exact answering.answers
  uncalled caller h := by
    rw [waiting] at h
    rw [calls, answers]
    exact (answering.uncalled caller h).imp_right (later caller h)
  called caller given waits := by
    rw [callers] at given
    rw [waiting] at waits
    rw [calls, answers]
    exact answering.called caller given waits

theorem pending_remove (s : TracerStore) (traceEvent : Str) (opts call : ℕ) :
    (s.remove traceEvent opts).Pending call ↔ s.Pending call := by
  cases found : s.get traceEvent opts with
  | none => rw [remove_none found]
  | some tracer =>
    obtain ⟨more, none, same⟩ := remove_eq found
    rw [same]
    refine or_congr_left (exists_congr fun answer => ?_)
    exact List.mem_append.trans (or_iff_left (none call answer))

theorem waiting_remove (s : TracerStore) (traceEvent : Str) (opts : ℕ) :
    (s.remove traceEvent opts).waiting = s.waiting := by
  obtain ⟨_, _, _, _, _, same⟩ := s.remove_frame traceEvent opts
  rw [same]

theorem Answering.remove (answering : Answering s) (traceEvent : Str) (opts : ℕ) :
    Answering (s.remove traceEvent opts) := by
  have wf := answering.wellFormed.remove traceEvent opts
  have pending := s.pending_remove traceEvent opts
  cases found : s.get traceEvent opts with
  | none =>
    rw [remove_none found]
    exact answering
  | some tracer =>
    obtain ⟨more, -, same⟩ := remove_eq found
    rw [same] at wf pending ⊢
    exact answering.quiet wf rfl rfl rfl rfl (fun _ _ => (pending _).mpr)
      fun _ => (pending _).mp

/-- Nobody has heard of the next `add` yet. -/
theorem Answering.calls_next (answering : Answering s) : s.calls s.nextAdd = [] := by
  rw [calls, List.map_eq_nil_iff, List.filter_eq_nil_iff]
  intro pair h same
  have old := answering.numbered _ (answering.answers pair h)
  have own := of_decide_eq_true same
  omega

/-- An `add` that is going to emit an outcome may have a callback. -/
theorem Answering.onceAdd {s' : TracerStore} (answering : Answering s) (wf : WellFormed s')
    {callback fails : Bool} (callers : s'.callers = (s.onceAdd callback fails).callers)
    (waiting : s'.waiting = (s.onceAdd callback fails).waiting)
    (answers : s'.answers = s.answers) (nextAdd : s'.nextAdd = s.nextAdd + 1)
    (later : ∀ call, s.Pending call → s'.Pending call)
    (own : callback = true → s'.Pending s.nextAdd)
    (earlier : ∀ call, s'.Pending call → s.Pending call ∨ call = s.nextAdd) : Answering s' := by
  have announced : ∀ call, s'.Pending call → call < s'.nextAdd := by
    intro call h
    rw [nextAdd]
    rcases earlier call h with old | rfl
    · exact Nat.lt_succ_of_lt (answering.announced call old)
    · exact Nat.lt_succ_self _
  have calls_eq (call : ℕ) : s'.calls call = s.calls call := by rw [calls, calls, answers]
  let own' : Caller := ⟨s.nextAdd, fails⟩
  let new := if callback then [own'] else []
  have mem_new {caller : Caller} (h : caller ∈ new) : callback = true ∧ caller = own' :=
    (List.mem_ite_nil_right.mp h).imp_right List.mem_singleton.mp
  have callers' : s'.callers = s.callers ++ new := callers
  have waiting' : s'.waiting = s.waiting ++ new := waiting
  refine ⟨wf, ?_, ?_, announced, ?_, ?_, ?_, ?_⟩
  · have single : (new.map Caller.call).Nodup := by cases callback <;> simp [new]
    rw [callers', List.map_append]
    refine List.nodup_append.mpr ⟨answering.distinct, single, fun call old call' here equal => ?_⟩
    obtain ⟨caller, given, rfl⟩ := List.mem_map.mp old
    obtain ⟨caller', there, rfl⟩ := List.mem_map.mp here
    rw [(mem_new there).2] at equal
    exact Nat.ne_of_lt (answering.numbered caller given) equal
  · intro caller h
    rw [callers', List.mem_append] at h
    rw [nextAdd]
    rcases h with old | here
    · exact Nat.lt_succ_of_lt (answering.numbered caller old)
    · rw [(mem_new here).2]
      exact Nat.lt_succ_self _
  · rw [callers', waiting']
    exact answering.waiting.append (List.Sublist.refl _)
  · rw [answers, callers']
    exact fun pair h => List.mem_append_left _ (answering.answers pair h)
  · intro caller h
    rw [waiting', List.mem_append] at h
    rw [calls_eq]
    rcases h with old | here
    · exact (answering.uncalled caller old).imp_right (later _)
    · obtain ⟨given, rfl⟩ := mem_new here
      exact ⟨answering.calls_next, own given⟩
  · intro caller h waits
    rw [callers', List.mem_append] at h
    rw [waiting', List.mem_append, not_or] at waits
    rw [calls_eq]
    exact answering.called caller (h.resolve_right waits.2) waits.1

/-- An outcome that is emitted in a later tick. -/
theorem pending_emitAddNextTick {call : ℕ} (s : TracerStore) (own : ℕ) (answer : Answer) :
    (s.emitAddNextTick own answer).Pending call ↔ s.Pending call ∨ call = own := by
  simp only [Pending, emitAddNextTick, List.mem_append, List.mem_singleton, Tick.emitAdd.injEq,
    exists_or]
  constructor
  · rintro ((h | ⟨answer', same, -⟩) | h)
    · exact .inl (.inl h)
    · exact .inr same
    · exact .inl (.inr h)
  · rintro ((h | h) | rfl)
    · exact .inl (.inl h)
    · exact .inr h
    · exact .inl (.inr ⟨answer, rfl, rfl⟩)

theorem pending_register {tracer : Tracer} (fresh : s.connecting tracer = none)
    (connect : OnConnect) (call : ℕ) :
    (s.register tracer connect).Pending call ↔ s.Pending call ∨ call = connect.call := by
  rw [Pending, Pending, or_assoc]
  refine or_congr_right ⟨?_, ?_⟩
  · rintro ⟨other, connect', h, rfl⟩
    simp only [register, accept, Function.update_apply] at h
    split at h
    · exact .inr (congrArg OnConnect.call (Option.some.inj h).symm)
    · exact .inl ⟨other, connect', h, rfl⟩
  · rintro (⟨other, connect', h, rfl⟩ | rfl)
    · have differs : other ≠ tracer := fun same => by
        rw [same, fresh] at h
        cases h
      exact ⟨other, connect', by simp [register, accept, differs, h], rfl⟩
    · exact ⟨tracer, connect, by simp [register, accept], rfl⟩

theorem Answering.add (answering : Answering s) (configs : Str → EventConfig) {traceEvent : Str}
    {opts : ℕ} {callback : Bool} {err : Option Str} {now : ℚ}
    (alike : s.Alike (.add traceEvent opts callback err now)) :
    Answering (s.add configs traceEvent opts callback err now) := by
  have wf' := answering.wellFormed.add configs traceEvent opts callback err now
  have outcome := s.admits configs traceEvent opts
  rw [TracerStore.add] at wf' ⊢
  generalize s.admission configs traceEvent opts = admission at outcome wf' ⊢
  generalize admission.fails err = fails at wf' ⊢
  -- the outcomes that are emitted in the next tick
  have next {s' : TracerStore} {answer : Answer}
      (wf : WellFormed (s'.emitAddNextTick s.nextAdd answer))
      (same : ∃ opts timers timer accepted, s' = { s.onceAdd callback fails with
        opts := opts, timers := timers, timer := timer, accepted := accepted }) :
      Answering (s'.emitAddNextTick s.nextAdd answer) := by
    obtain ⟨opts, timers, timer, accepted, rfl⟩ := same
    exact answering.onceAdd wf rfl rfl rfl rfl
      (fun call h => (pending_emitAddNextTick _ _ _).mpr (.inl h))
      (fun _ => (pending_emitAddNextTick _ _ _).mpr (.inr rfl))
      (fun call => (pending_emitAddNextTick _ _ _).mp)
  cases outcome with
  | invalid => exact next wf' ⟨_, _, _, _, rfl⟩
  | found tracer =>
    obtain ⟨timers, timer, same⟩ := updateExpiration_eq
      ((s.onceAdd callback fails).accept opts tracer) traceEvent opts tracer now
    exact next wf' ⟨_, _, _, _, same⟩
  | throws valid fresh unknown =>
    refine answering.onceAdd wf' rfl rfl rfl rfl (fun _ => id) (fun given => ?_) (fun _ => .inl)
    obtain ⟨sink, typed, known⟩ := alike.1 given valid
    rw [unknown sink typed] at known
    cases known
  | refused => exact next wf' ⟨_, _, _, _, rfl⟩
  | made given sink known =>
    have fresh : s.connecting (Tracer.new s.nextTracer traceEvent given
        (sink.defaults (configs traceEvent)) (Sink.named_defaults known _)) = none := by
      by_contra connecting
      obtain ⟨connect, here⟩ := Option.ne_none_iff_exists'.mp connecting
      exact absurd (answering.wellFormed.connecting _ _ here).1 (Nat.lt_irrefl _)
    have pending := pending_register
      (s := (s.onceAdd callback fails).writeSink opts (sink.defaults (configs traceEvent))) fresh
    exact answering.onceAdd wf' rfl rfl rfl rfl (fun call h => (pending _ call).mpr (.inl h))
      (fun _ => (pending _ _).mpr (.inr rfl)) (fun call => (pending _ call).mp)

theorem pending_connected {call : ℕ} {tracer : Tracer}
    (h : { s with connecting := Function.update s.connecting tracer none }.Pending call) :
    s.Pending call := by
  refine h.imp_right ?_
  rintro ⟨other, connect, here, rfl⟩
  simp only [Function.update_apply] at here
  split at here
  · cases here
  · exact ⟨other, connect, here, rfl⟩

theorem Answering.onConnect (answering : Answering s) {tracer : Tracer} {now : ℚ}
    (alike : s.Alike (.onConnect tracer now)) : Answering (s.onConnect tracer now) := by
  have wf' := answering.wellFormed.onConnect tracer now
  rw [TracerStore.onConnect] at wf' ⊢
  cases connecting : s.connecting tracer with
  | none => exact answering
  | some connect =>
    rw [connecting] at wf'
    cases failed : connect.err with
    | some err =>
      simp only [failed] at wf' ⊢
      have emits : s.emission (.onConnect tracer now) = some true := by
        simp [emission, connecting, failed]
      have removed := answering.remove tracer.traceEvent connect.opts
      have emitted := removed.emitAdd (.error err)
        (s.waiting_remove tracer.traceEvent connect.opts ▸ alike.2 true emits)
      rw [remove_connected] at wf' ⊢
      exact emitted.quiet wf' rfl rfl rfl rfl (fun _ h => by cases h)
        fun _ => pending_connected (s := TracerStore.emitAdd _ _)
    | none =>
      simp only [failed] at wf' ⊢
      obtain ⟨timers, timer, same⟩ := updateExpiration_eq
        ({ s with connecting := Function.update s.connecting tracer none }.connectSource tracer)
        tracer.traceEvent connect.opts tracer now
      rw [same] at wf' ⊢
      refine answering.quiet wf' rfl rfl rfl rfl (fun caller _ h => ?_) (fun call h => ?_)
      · rw [pending_emitAddNextTick]
        by_cases own : caller.call = connect.call
        · exact .inr own
        · refine .inl (h.imp_right ?_)
          rintro ⟨other, connect', here, same'⟩
          have differs : other ≠ tracer := by
            rintro rfl
            rw [connecting] at here
            exact own (same' ▸ congrArg OnConnect.call (Option.some.inj here).symm)
          exact ⟨other, connect', by simp [TracerStore.connectSource, differs, here], same'⟩
      · rw [pending_emitAddNextTick] at h
        rcases h with old | rfl
        · exact pending_connected old
        · exact .inr ⟨tracer, connect, connecting, rfl⟩

theorem Answering.onTimeout (answering : Answering s) (timer : ℕ) :
    Answering (s.onTimeout timer) := by
  rw [TracerStore.onTimeout]
  split
  · exact answering
  · refine Answering.remove ?_ _ _
    exact answering.quiet (answering.wellFormed.fired timer) rfl rfl rfl rfl (fun _ _ => id)
      fun _ => id

theorem Answering.onTick (answering : Answering s) (alike : s.Alike .onTick) :
    Answering s.onTick := by
  have wf' := answering.wellFormed.onTick
  have emits := alike.2
  rw [emission] at emits
  rw [TracerStore.onTick] at wf' ⊢
  cases ticks : s.ticks with
  | nil => exact answering
  | cons tick rest =>
    rw [ticks] at wf' emits
    -- a tick that is gone announces nothing
    have fewer (s' : TracerStore) (same : s'.ticks = s.ticks) {call : ℕ}
        (h : { s' with ticks := rest }.Pending call) : s'.Pending call := by
      refine h.imp_left (Exists.imp fun answer there => ?_)
      rw [same, ticks]
      exact List.mem_cons_of_mem _ there
    cases tick with
    | emitAdd call answer =>
      have emitted := answering.emitAdd answer (emits _ rfl)
      exact emitted.quiet wf' rfl rfl rfl rfl (fun _ h => by cases h)
        fun _ => fewer (s.emitAdd answer) rfl
    | disconnectSource tracer =>
      refine answering.quiet wf' rfl rfl rfl rfl (fun caller _ h => ?_) fun _ => fewer s rfl
      refine h.imp_left (Exists.imp fun answer there => ?_)
      rw [ticks] at there
      exact (List.mem_cons.mp there).resolve_left (by simp)

theorem Answering.step (answering : Answering s) (configs : Str → EventConfig)
    (event : StoreEvent) (alike : s.Alike event) : Answering (s.step configs event) := by
  cases event with
  | add traceEvent opts callback err now => exact answering.add configs alike
  | remove traceEvent opts => exact answering.remove traceEvent opts
  | onConnect tracer now => exact answering.onConnect alike
  | onTimeout timer => exact answering.onTimeout timer
  | onTick => exact answering.onTick alike

theorem OwnAnswers.mono {s' : TracerStore} (own : OwnAnswers s') (callers : s'.callers = s.callers)
    (answers : s'.answers = s.answers) (pending : ∀ call, s'.Pending call → s.Pending call) :
    OwnAnswers s := by
  intro caller given
  have here := own caller (callers ▸ given)
  rw [calls, answers] at here
  exact here.imp_left (And.imp_right (pending _))

theorem Answering.not_emission (answering : Answering s) (configs : Str → EventConfig)
    {event : StoreEvent} {error : Bool} (emits : s.emission event = some error) {caller : Caller}
    (waits : caller ∈ s.waiting) (differs : caller.fails ≠ error) :
    ¬ OwnAnswers (s.step configs event) := by
  intro own
  cases event with
  | onConnect tracer now =>
    obtain ⟨connect, connecting, outcome⟩ := Option.bind_eq_some_iff.mp emits
    obtain ⟨err, failed, rfl⟩ := Option.map_eq_some_iff.mp outcome
    rw [TracerStore.step, TracerStore.onConnect, connecting] at own
    simp only [failed] at own
    rw [remove_connected] at own
    have removed := answering.remove tracer.traceEvent connect.opts
    refine removed.not_emitAdd (.error err)
      (s.waiting_remove tracer.traceEvent connect.opts ▸ waits) differs ?_
    exact own.mono rfl rfl fun _ => pending_connected (s := TracerStore.emitAdd _ _)
  | onTick =>
    rw [emission] at emits
    rw [TracerStore.step, TracerStore.onTick] at own
    split at emits
    case h_2 => cases emits
    case h_1 call answer rest ticks =>
      obtain rfl := Option.some.inj emits
      rw [ticks] at own
      refine answering.not_emitAdd _ waits differs (own.mono rfl rfl fun call h => ?_)
      refine h.imp_left (Exists.imp fun answer there => ?_)
      rw [TracerStore.emitAdd, ticks]
      exact List.mem_cons_of_mem _ there
  | _ => cases emits

/-- Where the type has no tracer `add` throws, and its callback stays behind. -/
theorem Answering.not_add (answering : Answering s) (configs : Str → EventConfig)
    {traceEvent : Str} {opts : ℕ} {err : Option Str} {now : ℚ}
    (valid : Tracer.invalidateOptions (s.opts opts) = none)
    (unknown : ¬ ∃ sink, s.sink opts = some sink ∧ sink.known = true) :
    ¬ OwnAnswers (s.add configs traceEvent opts true err now) := by
  intro own
  have outcome := s.admits configs traceEvent opts
  rw [TracerStore.add] at own
  generalize s.admission configs traceEvent opts = admission at outcome own
  cases outcome with
  | throws =>
    have given := own ⟨s.nextAdd, true⟩ (List.mem_append_right _ (List.mem_singleton_self _))
    have none : (s.onceAdd true true).calls s.nextAdd = [] := answering.calls_next
    rcases given with ⟨-, pending⟩ | once
    · exact absurd (answering.announced _ pending) (Nat.lt_irrefl _)
    · rw [show (s.onceAdd true true).calls s.nextAdd = [true] from once] at none
      cases none
  | invalid _ refuses => cases valid.symm.trans refuses
  | found tracer _ found =>
    have named := (answering.wellFormed.mem_get found).2
    obtain ⟨name, here⟩ := Option.isSome_iff_exists.mp tracer.isSome_key
    rw [here] at named
    obtain ⟨sink, typed, key⟩ := Option.bind_eq_some_iff.mp named
    exact unknown ⟨sink, typed, by cases sink <;> first | rfl | cases key⟩
  | refused _ sink known _ _ _ typed => exact unknown ⟨sink, typed, known⟩
  | made _ sink known _ _ typed => exact unknown ⟨sink, typed, known⟩

theorem Answering.not_step (answering : Answering s) (configs : Str → EventConfig)
    (event : StoreEvent) (missed : ¬ s.Alike event) : ¬ OwnAnswers (s.step configs event) := by
  rcases not_and_or.mp missed with missed | missed
  · cases event with
    | add traceEvent opts callback err now =>
      simp only [Typed, Classical.not_imp] at missed
      obtain ⟨rfl, valid, unknown⟩ := missed
      exact answering.not_add configs valid unknown
    | _ => exact absurd trivial missed
  · simp only [not_forall] at missed
    obtain ⟨error, emits, caller, waits, differs⟩ := missed
    exact answering.not_emission configs emits waits differs

/-- In a run of the store every callback gets its own answer, exactly as long as no emission
finds a callback that waits for another outcome. -/
theorem run_ownAnswers_iff (configs : Str → EventConfig) (given : ℕ → Option TraceOpts)
    (events : List StoreEvent) :
    (∀ reached, reached <+: events → OwnAnswers (run configs given reached)) ↔
      Runs.Throughout (step configs) Alike (new given) events :=
  Runs.always_iff_throughout Answering OwnAnswers (fun _ => Answering.ownAnswers)
    (fun _ event answering => answering.step configs event)
    (fun _ event answering => answering.not_step configs event) (answering_new given) events

/-- An `add` of a tracer that is still connecting is told that the next one has invalid
options, and never hears of its own success. -/
theorem run_not_ownAnswers :
    let event := str "membership.checksum.update"
    let valid : TraceOpts :=
      ⟨some 50, none, some (.tchannel (some (str "127.0.0.1:3000")) none none)⟩
    let given : ℕ → Option TraceOpts := fun opts =>
      if opts = 0 then some valid else some { valid with expiresIn := none }
    let sink := Sink.tchannel (some (str "127.0.0.1:3000")) checksumUpdate.endpoint
      (some (str "ringpop"))
    let tracer := Tracer.new 0 event valid sink (by decide)
    let answered := run (fun _ => checksumUpdate) given
      [.add event 0 true none 0, .add event 1 true none 0, .onTick, .onConnect tracer 0, .onTick]
    answered.callers = [⟨0, false⟩, ⟨1, true⟩] ∧ answered.calls 0 = [true] ∧
      answered.calls 1 = [true] ∧ answered.waiting = [] ∧ ¬ OwnAnswers answered := by
  intro event valid given sink tracer answered
  have callers : answered.callers = [⟨0, false⟩, ⟨1, true⟩] := by decide
  have first : answered.calls 0 = [true] := by decide
  refine ⟨callers, first, by decide, by decide, fun own => ?_⟩
  rcases own ⟨0, false⟩ (by rw [callers]; exact List.mem_cons_self) with ⟨none, -⟩ | once
  · rw [first] at none
    cases none
  · rw [first] at once
    cases once

end Ringpop.Trace.TracerStore
