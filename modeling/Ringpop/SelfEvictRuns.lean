import Ringpop.SelfEvict

/-! Every run of a self eviction whose hooks and pings call back once goes through the phases in
order. -/
namespace Ringpop.Members
open JsString Dictionary Countdowns

namespace HookType

/-- The phases up to the one that runs the hooks. -/
def reached : HookType → List PhaseName
  | preEvict => [.preEvict]
  | postEvict => [.preEvict, .evicting, .postEvict]

/-- What comes after the hooks. -/
def next : HookType → Task
  | preEvict => .evict
  | postEvict => .done

end HookType

namespace SelfEvict
variable {s s' : SelfEvict}

theorem hooksDone_eq (s : SelfEvict) (type : HookType) :
    s.hooksDone type = s.nextTick type.next := by
  cases type <;> rfl

theorem map_phase_modify (phases : List Phase) (i : ℕ) {f : Phase → Phase}
    (same : ∀ phase, (f phase).phase = phase.phase) :
    (phases.modify i f).map Phase.phase = phases.map Phase.phase := by
  refine List.ext_getElem? fun j => ?_
  rw [List.getElem?_map, List.getElem?_map, List.getElem?_modify]
  cases phases[j]? with
  | none => rfl
  | some phase =>
    by_cases here : i = j
    · simp [here, same]
    · simp [here]

@[simp] theorem phaseNames_transitionTo (s : SelfEvict) (phaseName : PhaseName) (now : ℤ) :
    (s.transitionTo phaseName now).phaseNames = s.phaseNames ++ [phaseName] := by
  rw [phaseNames, transitionTo, List.map_append, map_phase_modify]
  · rfl
  · intro phase
    rfl

theorem nodup_hookNames (s : SelfEvict) (type : HookType) : (s.hookNames type).Nodup :=
  s.hooks.nodup_keys.filter _

theorem currentPhase_eq_none : s.currentPhase = none ↔ s.phaseNames = [] := by
  rw [currentPhase, List.getLast?_eq_none_iff, phaseNames, List.map_eq_nil_iff]

/-- Hooks that have not all completed: those that are to be called are waiting for a tick. -/
structure Running (names : List Str) (ticks : List Task) (before : List HookRun)
    (run : HookRun) : Prop where
  parties : run.afterHook.parties = names
  sound : run.afterHook.Sound
  unfinished : ¬ names ⊆ run.afterHook.reported
  called : run.afterHook.reported ⊆ run.started
  started : run.started ⊆ names
  nodup : ticks.Nodup
  ticks : ∀ task, task ∈ ticks ↔
    ∃ name ∈ names, name ∉ run.started ∧ task = .runHook before.length name

/-- Every hook that was called has completed. -/
def Quiet (runs : List HookRun) : Prop := ∀ run ∈ runs, run.started ⊆ run.afterHook.reported

/-- Every ping has called back. -/
def Answered (evictions : List Eviction) : Prop :=
  ∀ eviction ∈ evictions, eviction.pinged.parties ⊆ eviction.pinged.reported

/-- What is pending, phase by phase. -/
inductive Progress (s : SelfEvict) : Prop
  | idle (names : s.phaseNames = []) (ticks : s.ticks = []) (runs : s.runs = [])
      (evictions : s.evictions = [])
  | running (type : HookType) (before : List HookRun) (run : HookRun)
      (names : s.phaseNames = type.reached) (isType : run.type = type)
      (running : Running (s.hookNames type) s.ticks before run) (runs : s.runs = before ++ [run])
      (quiet : Quiet before) (answered : Answered s.evictions)
  | ran (type : HookType) (names : s.phaseNames = type.reached)
      (ticks : s.ticks = [.hooksDone type] ∨ s.ticks = [type.next]) (quiet : Quiet s.runs)
      (answered : Answered s.evictions)
      (completed : ∀ name ∈ s.hookNames type, s.Completed type name)
  | pinging (before : List Eviction) (eviction : Eviction)
      (names : s.phaseNames = [.preEvict, .evicting]) (ticks : s.ticks = [])
      (quiet : Quiet s.runs) (evictions : s.evictions = before ++ [eviction])
      (answered : Answered before) (sound : eviction.pinged.Sound)
      (unanswered : ¬ eviction.pinged.parties ⊆ eviction.pinged.reported)
      (whole : eviction.broken = [])
  | pinged (names : s.phaseNames = [.preEvict, .evicting]) (ticks : s.ticks = [.postEvict])
      (quiet : Quiet s.runs) (answered : Answered s.evictions)
  | done (names : s.phaseNames = [.preEvict, .evicting, .postEvict, .done])
      (ticks : s.ticks = []) (quiet : Quiet s.runs) (answered : Answered s.evictions)

/-- What the phases that were entered have left behind. -/
structure Recorded (s : SelfEvict) : Prop where
  evicting : .evicting ∈ s.phaseNames →
    ∀ name ∈ s.hookNames .preEvict, s.Completed .preEvict name
  done : .done ∈ s.phaseNames → ∀ name ∈ s.hookNames .postEvict, s.Completed .postEvict name
  localStatus : s.localStatus = if .evicting ∈ s.phaseNames then [.faulty] else []
  initiated : 0 < s.initiated ↔ s.phaseNames ≠ []
  callback : s.phaseNames ≠ [] → s.callback = some 0
  numbers : ∀ call ∈ s.callbacks, call.1 < s.initiated
  first : s.calls 0 = if .done ∈ s.phaseNames then [none] else []
  refused : ∀ initiate, 0 < initiate → initiate < s.initiated →
    ∃ error, s.calls initiate = [some error]

structure Invariant (s : SelfEvict) : Prop where
  progress : s.Progress
  recorded : s.Recorded

/-- A step that enters no phase. -/
structure Frame (s s' : SelfEvict) : Prop where
  hooks : s'.hooks = s.hooks
  phaseNames : s'.phaseNames = s.phaseNames
  localStatus : s'.localStatus = s.localStatus
  initiated : s'.initiated = s.initiated
  callback : s'.callback = s.callback
  callbacks : s'.callbacks = s.callbacks
  completed : ∀ type name, s.Completed type name → s'.Completed type name

theorem Frame.hookNames (frame : Frame s s') (type : HookType) :
    s'.hookNames type = s.hookNames type := by
  rw [SelfEvict.hookNames, frame.hooks]
  rfl

theorem Recorded.of_frame (recorded : s.Recorded) (frame : Frame s s') : s'.Recorded := by
  have calls (initiate : ℕ) : s'.calls initiate = s.calls initiate := by
    rw [SelfEvict.calls, frame.callbacks]
    rfl
  constructor
  · rw [frame.phaseNames, frame.hookNames]
    exact fun entered name listed => frame.completed _ _ (recorded.evicting entered name listed)
  · rw [frame.phaseNames, frame.hookNames]
    exact fun entered name listed => frame.completed _ _ (recorded.done entered name listed)
  · rw [frame.localStatus, frame.phaseNames]
    exact recorded.localStatus
  · rw [frame.initiated, frame.phaseNames]
    exact recorded.initiated
  · rw [frame.phaseNames, frame.callback]
    exact recorded.callback
  · rw [frame.callbacks, frame.initiated]
    exact recorded.numbers
  · rw [calls, frame.phaseNames]
    exact recorded.first
  · intro initiate more less
    rw [calls]
    exact recorded.refused initiate more (frame.initiated ▸ less)

/-- A step that enters a phase after the first. -/
structure Enters (s s' : SelfEvict) (phaseName : PhaseName) : Prop where
  fresh : phaseName ∉ s.phaseNames
  started : s.phaseNames ≠ []
  hooks : s'.hooks = s.hooks
  phaseNames : s'.phaseNames = s.phaseNames ++ [phaseName]
  runs : s'.runs = s.runs
  localStatus : s'.localStatus = s.localStatus ++ if phaseName = .evicting then [.faulty] else []
  initiated : s'.initiated = s.initiated
  callback : s'.callback = s.callback
  callbacks : s'.callbacks = s.callbacks ++ if phaseName = .done then [(0, none)] else []

theorem Recorded.enter (recorded : s.Recorded) {phaseName : PhaseName}
    (enters : Enters s s' phaseName)
    (evicting : phaseName = .evicting → ∀ name ∈ s.hookNames .preEvict,
      s.Completed .preEvict name)
    (done : phaseName = .done → ∀ name ∈ s.hookNames .postEvict, s.Completed .postEvict name) :
    s'.Recorded := by
  have hookNames (type : HookType) : s'.hookNames type = s.hookNames type := by
    rw [SelfEvict.hookNames, enters.hooks]
    rfl
  have completed {type : HookType} {name : Str} (h : s.Completed type name) :
      s'.Completed type name := by
    rw [Completed, enters.runs]
    exact h
  have initiated := recorded.initiated.mpr enters.started
  have mem (p : PhaseName) : p ∈ s'.phaseNames ↔ p ∈ s.phaseNames ∨ p = phaseName := by
    rw [enters.phaseNames, List.mem_append, List.mem_singleton]
  have calls (initiate : ℕ) : s'.calls initiate =
      s.calls initiate ++ if phaseName = .done ∧ initiate = 0 then [none] else [] := by
    rw [SelfEvict.calls, enters.callbacks, List.filter_append, List.map_append]
    congr 1
    by_cases last : phaseName = .done
    · by_cases first : initiate = 0
      · simp [last, first]
      · simp [last, first, Ne.symm first]
    · simp [last]
  constructor
  · rw [mem, hookNames]
    rintro (before | now) name listed
    · exact completed (recorded.evicting before name listed)
    · exact completed (evicting now.symm name listed)
  · rw [mem, hookNames]
    rintro (before | now) name listed
    · exact completed (recorded.done before name listed)
    · exact completed (done now.symm name listed)
  · rw [enters.localStatus, recorded.localStatus]
    simp only [mem]
    by_cases now : phaseName = .evicting
    · have before := now ▸ enters.fresh
      simp [now, before]
    · simp [now, Ne.symm now]
  · rw [enters.initiated, enters.phaseNames]
    simp [initiated]
  · intro _
    rw [enters.callback]
    exact recorded.callback enters.started
  · rw [enters.callbacks, enters.initiated]
    intro call listed
    rcases List.mem_append.mp listed with before | now
    · exact recorded.numbers call before
    · split at now
      case isTrue => exact List.mem_singleton.mp now ▸ initiated
      case isFalse => cases now
  · rw [calls, recorded.first]
    simp only [mem]
    by_cases now : phaseName = .done
    · have before := now ▸ enters.fresh
      simp [now, before]
    · simp [now, Ne.symm now]
  · intro initiate more less
    rw [calls, if_neg fun h => more.ne' h.2, List.append_nil]
    exact recorded.refused initiate more (enters.initiated ▸ less)

theorem frame_nextTick (s : SelfEvict) (task : Task) : Frame s (s.nextTick task) :=
  ⟨rfl, rfl, rfl, rfl, rfl, rfl, fun _ _ h => h⟩

theorem completed_set {i : ℕ} {run : HookRun} (here : s.runs[i]? = some run) (run' : HookRun)
    (runs : s'.runs = s.runs.set i run') (isType : run'.type = run.type)
    (more : run.afterHook.reported ⊆ run'.afterHook.reported) {type : HookType} {name : Str}
    (completed : s.Completed type name) : s'.Completed type name := by
  obtain ⟨r, listed, same, reported⟩ := completed
  obtain ⟨j, there⟩ := List.mem_iff_getElem?.mp listed
  have inside := (List.getElem?_eq_some_iff.mp here).1
  rw [Completed, runs]
  by_cases equal : i = j
  · subst equal
    obtain rfl := Option.some.inj (here.symm.trans there)
    refine ⟨run', List.mem_iff_getElem?.mpr ⟨i, ?_⟩, isType.trans same, more reported⟩
    rw [List.getElem?_set_self inside]
  · refine ⟨r, List.mem_iff_getElem?.mpr ⟨j, ?_⟩, same, reported⟩
    rw [List.getElem?_set_ne equal]
    exact there

theorem set_last {α : Type} (before : List α) (last a : α) :
    (before ++ [last]).set before.length a = before ++ [a] := by
  rw [List.set_append_right _ _ (Nat.le_refl _), Nat.sub_self]
  rfl

theorem frame_runHooks (s : SelfEvict) (type : HookType) : Frame s (s.runHooks type) := by
  simp only [runHooks]
  split
  · rw [hooksDone_eq]
    exact frame_nextTick s type.next
  · refine ⟨rfl, rfl, rfl, rfl, rfl, rfl, fun _ _ completed => ?_⟩
    obtain ⟨run, listed, same⟩ := completed
    exact ⟨run, List.mem_append_left _ listed, same⟩

/-- The hooks of a phase are all to be called. -/
theorem progress_runHooks {type : HookType} (names : s.phaseNames = type.reached)
    (ticks : s.ticks = []) (quiet : Quiet s.runs) (answered : Answered s.evictions) :
    (s.runHooks type).Progress := by
  simp only [runHooks]
  split
  case isTrue none =>
    rw [hooksDone_eq]
    refine .ran type names (.inr ?_) quiet answered fun name listed => ?_
    · rw [nextTick, ticks, List.nil_append]
    · have listed : name ∈ s.hookNames type := listed
      rw [none] at listed
      cases listed
  case isFalse some =>
    refine .running type s.runs ⟨type, .after (s.hookNames type), []⟩ names rfl ?_ rfl quiet
      answered
    have waiting := (s.nodup_hookNames type).map
      (f := Task.runHook s.runs.length) fun _ _ same => (Task.runHook.inj same).2
    rw [ticks, List.nil_append]
    exact {
      parties := rfl
      sound := Countdown.sound_after (s.nodup_hookNames type)
      unfinished := fun all => some (List.subset_nil.mp all)
      called := List.nil_subset _
      started := List.nil_subset _
      nodup := waiting
      ticks := fun task => by
        rw [List.mem_map]
        constructor
        · rintro ⟨name, listed, rfl⟩
          exact ⟨name, listed, List.not_mem_nil, rfl⟩
        · rintro ⟨name, listed, -, rfl⟩
          exact ⟨name, listed, rfl⟩ }

/-- A task that is waiting calls a hook, or it is the only one. -/
theorem Progress.of_mem_ticks (progress : s.Progress) {task : Task} (due : task ∈ s.ticks) :
    (∃ (type : HookType) (before : List HookRun) (run : HookRun) (name : Str),
      task = .runHook before.length name ∧ name ∈ s.hookNames type ∧ name ∉ run.started ∧
      s.phaseNames = type.reached ∧ run.type = type ∧
      Running (s.hookNames type) s.ticks before run ∧ s.runs = before ++ [run] ∧ Quiet before ∧
      Answered s.evictions) ∨
    (s.ticks = [task] ∧ Quiet s.runs ∧ Answered s.evictions ∧
      ((∃ type : HookType, (task = .hooksDone type ∨ task = type.next) ∧
        s.phaseNames = type.reached ∧ ∀ name ∈ s.hookNames type, s.Completed type name) ∨
      (task = .postEvict ∧ s.phaseNames = [.preEvict, .evicting]))) := by
  cases progress with
  | running type before run names isType running runs quiet answered =>
    obtain ⟨name, listed, fresh, rfl⟩ := (running.ticks task).mp due
    exact .inl ⟨type, before, run, name, rfl, listed, fresh, names, isType, running, runs, quiet,
      answered⟩
  | ran type names ticks quiet answered completed =>
    rcases ticks with ticks | ticks
    · obtain rfl := List.mem_singleton.mp (ticks ▸ due)
      exact .inr ⟨ticks, quiet, answered, .inl ⟨type, .inl rfl, names, completed⟩⟩
    · obtain rfl := List.mem_singleton.mp (ticks ▸ due)
      exact .inr ⟨ticks, quiet, answered, .inl ⟨type, .inr rfl, names, completed⟩⟩
  | pinged names ticks quiet answered =>
    obtain rfl := List.mem_singleton.mp (ticks ▸ due)
    exact .inr ⟨ticks, quiet, answered, .inr ⟨rfl, names⟩⟩
  | idle _ ticks | pinging _ _ _ ticks | done _ ticks =>
    rw [ticks] at due
    cases due

theorem Running.callHook {names : List Str} {before : List HookRun} {run : HookRun}
    {ticks : List Task} (running : Running names ticks before run) {name : Str}
    (listed : name ∈ names) :
    Running names (ticks.erase (.runHook before.length name)) before
      { run with started := run.started ++ [name] } :=
  { running with
    called := List.Subset.trans running.called (List.subset_append_left _ _)
    started := List.append_subset.mpr
      ⟨running.started, fun _ h => List.mem_singleton.mp h ▸ listed⟩
    nodup := running.nodup.erase _
    ticks := fun task => by
      rw [running.nodup.mem_erase_iff, running.ticks]
      constructor
      · rintro ⟨other, waiting, known, fresh, rfl⟩
        refine ⟨waiting, known, fun started => ?_, rfl⟩
        rcases Runs.mem_extended.mp started with before | rfl
        · exact fresh before
        · exact other rfl
      · rintro ⟨waiting, known, fresh, rfl⟩
        refine ⟨fun same => ?_, waiting, known, fun started => ?_, rfl⟩
        · exact fresh (Runs.mem_extended.mpr (.inr (Task.runHook.inj same).2))
        · exact fresh (Runs.mem_extended.mpr (.inl started)) }

theorem enters_evict (ringpop : RingpopView) (fresh : .evicting ∉ s.phaseNames)
    (started : s.phaseNames ≠ []) : Enters s (s.evict ringpop) .evicting := by
  have names : ((s.transitionTo .evicting ringpop.now).phases.modify s.phases.length fun phase =>
      { phase with
        numberOfPings := some (getMembersToPing ringpop).length
        numberOfSuccessfulPings := some 0 }).map Phase.phase = s.phaseNames ++ [.evicting] := by
    rw [map_phase_modify]
    · exact phaseNames_transitionTo s .evicting ringpop.now
    · intro phase
      rfl
  simp only [evict]
  split <;>
    exact ⟨fresh, started, rfl, names, rfl, rfl, rfl, rfl, (List.append_nil _).symm⟩

theorem progress_evict (ringpop : RingpopView) (names : s.phaseNames = [.preEvict])
    (ticks : s.ticks = []) (quiet : Quiet s.runs) (answered : Answered s.evictions) :
    (s.evict ringpop).Progress := by
  have entered : (s.evict ringpop).phaseNames = [.preEvict, .evicting] := by
    have enters : Enters s (s.evict ringpop) .evicting :=
      enters_evict ringpop (by rw [names]; decide) (by rw [names]; decide)
    rw [enters.phaseNames, names]
    rfl
  simp only [evict] at entered ⊢
  split at entered
  case isTrue pings =>
    rw [if_pos pings]
    refine .pinging s.evictions ⟨s.phases.length, .after _, []⟩ entered ticks quiet rfl answered
      (Countdown.sound_after List.nodup_range) (fun all => ?_) rfl
    exact List.not_mem_nil (all (List.mem_range.mpr pings.2))
  case isFalse none =>
    rw [if_neg none]
    refine .pinged entered ?_ quiet answered
    show s.ticks ++ [.postEvict] = [.postEvict]
    rw [ticks, List.nil_append]

theorem Recorded.evict (recorded : s.Recorded) (ringpop : RingpopView)
    (names : s.phaseNames = [.preEvict])
    (completed : ∀ name ∈ s.hookNames .preEvict, s.Completed .preEvict name) :
    (s.evict ringpop).Recorded := by
  have enters : Enters s (s.evict ringpop) .evicting :=
    enters_evict ringpop (by rw [names]; decide) (by rw [names]; decide)
  exact recorded.enter enters (fun _ => completed) fun h => by cases h

theorem Invariant.postEvict (recorded : s.Recorded) (now : ℤ)
    (names : s.phaseNames = [.preEvict, .evicting]) (ticks : s.ticks = [])
    (quiet : Quiet s.runs) (answered : Answered s.evictions) : (s.postEvict now).Invariant := by
  have entered := phaseNames_transitionTo s .postEvict now
  have enters : Enters s (s.transitionTo .postEvict now) .postEvict :=
    ⟨by rw [names]; decide, by rw [names]; decide, rfl, entered, rfl, (List.append_nil _).symm,
      rfl, rfl, (List.append_nil _).symm⟩
  have recorded := recorded.enter enters (fun h => by cases h) fun h => by cases h
  rw [names] at entered
  exact ⟨progress_runHooks entered ticks quiet answered,
    recorded.of_frame (frame_runHooks _ .postEvict)⟩

theorem Invariant.done (recorded : s.Recorded) (now : ℤ)
    (names : s.phaseNames = HookType.postEvict.reached) (ticks : s.ticks = [])
    (quiet : Quiet s.runs) (answered : Answered s.evictions)
    (completed : ∀ name ∈ s.hookNames .postEvict, s.Completed .postEvict name) :
    (s.done now).Invariant := by
  have entered := phaseNames_transitionTo s .done now
  have same : (s.transitionTo .done now).callback = some 0 :=
    recorded.callback (by rw [names]; decide)
  rw [SelfEvict.done]
  simp only [same]
  have enters : Enters s { s.transitionTo .done now with
      callback := some 0, callbacks := s.callbacks ++ [(0, none)] } .done :=
    ⟨by rw [names]; decide, by rw [names]; decide, rfl, entered, rfl, (List.append_nil _).symm, rfl,
      same.symm, rfl⟩
  exact ⟨.done (entered.trans (by rw [names]; rfl)) ticks quiet answered,
    recorded.enter enters (fun h => by cases h) fun _ => completed⟩

theorem callHook_eq {i : ℕ} {run : HookRun} (here : s.runs[i]? = some run) (name : Str) :
    s.callHook i name =
      { s with runs := s.runs.set i { run with started := run.started ++ [name] } } := by
  rw [callHook, here]

theorem Invariant.tick (inv : s.Invariant) {task : Task} (due : task ∈ s.ticks)
    (ringpop : RingpopView) :
    ({ s with ticks := s.ticks.erase task }.perform ringpop task).Invariant := by
  have idle (ticks : List Task) : ({ s with ticks := ticks } : SelfEvict).Recorded :=
    inv.recorded.of_frame ⟨rfl, rfl, rfl, rfl, rfl, rfl, fun _ _ h => h⟩
  rcases inv.progress.of_mem_ticks due with
    ⟨type, before, run, name, rfl, listed, -, names, isType, running, runs, quiet, answered⟩ |
    ⟨ticks, quiet, answered, ⟨type, rfl | rfl, names, completed⟩ | ⟨rfl, names⟩⟩
  · have here : s.runs[before.length]? = some run := by
      rw [runs, List.getElem?_concat_length]
    let waiting := s.ticks.erase (.runHook before.length name)
    rw [perform, callHook_eq (s := { s with ticks := waiting }) here]
    have last : s.runs.set before.length { run with started := run.started ++ [name] } =
        before ++ [{ run with started := run.started ++ [name] }] := by
      rw [runs, set_last]
    refine ⟨.running type before { run with started := run.started ++ [name] } names isType
      (running.callHook listed) last quiet answered, inv.recorded.of_frame
      ⟨rfl, rfl, rfl, rfl, rfl, rfl, fun _ _ => ?_⟩⟩
    exact completed_set here { run with started := run.started ++ [name] } rfl rfl
      (List.Subset.refl _)
  · rw [ticks, List.erase_cons_head, perform, hooksDone_eq]
    exact ⟨.ran type names (.inr rfl) quiet answered completed, idle [type.next]⟩
  · rw [ticks, List.erase_cons_head]
    cases type with
    | preEvict =>
      exact ⟨progress_evict ringpop names rfl quiet answered,
        (idle []).evict ringpop names completed⟩
    | postEvict => exact .done (idle []) ringpop.now names rfl quiet answered completed
  · rw [ticks, List.erase_cons_head]
    exact .postEvict (idle []) ringpop.now names rfl quiet answered

/-- Before the first call of `initiate` nothing has happened. -/
theorem Progress.of_idle (progress : s.Progress) (names : s.phaseNames = []) :
    s.ticks = [] ∧ s.runs = [] ∧ s.evictions = [] := by
  cases progress with
  | idle _ ticks runs evictions => exact ⟨ticks, runs, evictions⟩
  | running type _ _ reached | ran type reached =>
    rw [names] at reached
    cases type <;> cases reached
  | pinging _ _ reached | pinged reached | done reached =>
    rw [names] at reached
    cases reached

theorem Invariant.initiate_first (inv : s.Invariant) (names : s.phaseNames = []) (now : ℤ) :
    ({ s with initiated := s.initiated + 1, callback := some s.initiated }.preEvict
      now).Invariant := by
  obtain ⟨ticks, runs, evictions⟩ := inv.progress.of_idle names
  have recorded := inv.recorded
  have first : s.initiated = 0 := by
    by_contra some
    exact recorded.initiated.mp (Nat.pos_of_ne_zero some) names
  let s' : SelfEvict :=
    { s with initiated := s.initiated + 1, callback := some s.initiated }.transitionTo .preEvict now
  have entered : s'.phaseNames = [.preEvict] := by
    rw [phaseNames_transitionTo]
    exact congrArg (· ++ [PhaseName.preEvict]) names
  have start : s'.Recorded := {
    evicting := fun h => by rw [entered] at h; cases h with | tail _ h => cases h
    done := fun h => by rw [entered] at h; cases h with | tail _ h => cases h
    localStatus := by
      rw [entered]
      exact recorded.localStatus.trans (by rw [names]; rfl)
    initiated := by
      rw [entered]
      exact ⟨fun _ => List.cons_ne_nil _ _, fun _ => Nat.succ_pos _⟩
    callback := fun _ => congrArg some first
    numbers := fun call listed => Nat.lt_succ_of_lt (recorded.numbers call listed)
    first := by
      rw [entered]
      exact recorded.first.trans (by rw [names]; rfl)
    refused := fun initiate more less => by
      have less : initiate < s.initiated + 1 := less
      omega }
  refine ⟨progress_runHooks entered ticks ?_ ?_, start.of_frame (frame_runHooks s' .preEvict)⟩
  · intro run listed
    have listed : run ∈ s.runs := listed
    rw [runs] at listed
    cases listed
  · intro eviction listed
    have listed : eviction ∈ s.evictions := listed
    rw [evictions] at listed
    cases listed

/-- Every other call of `initiate` is refused. -/
theorem Recorded.refuse (recorded : s.Recorded) (started : s.phaseNames ≠ [])
    (error : RingpopIsAlreadyShuttingDownError) :
    ({ s with
      initiated := s.initiated + 1
      callbacks := s.callbacks ++ [(s.initiated, some error)] } : SelfEvict).Recorded := by
  have some := recorded.initiated.mpr started
  have calls (initiate : ℕ) : SelfEvict.calls { s with
      initiated := s.initiated + 1
      callbacks := s.callbacks ++ [(s.initiated, .some error)] } initiate =
      s.calls initiate ++ if s.initiated = initiate then [.some error] else [] := by
    rw [SelfEvict.calls, List.filter_append, List.map_append]
    by_cases this : s.initiated = initiate <;> simp [SelfEvict.calls, this]
  have none : s.calls s.initiated = [] := by
    rw [SelfEvict.calls, List.map_eq_nil_iff, List.filter_eq_nil_iff]
    intro call listed
    have before := recorded.numbers call listed
    simp [before.ne]
  exact { recorded with
    initiated := ⟨fun _ => started, fun _ => Nat.succ_pos _⟩
    numbers := fun call listed => by
      rcases Runs.mem_extended.mp listed with before | rfl
      · exact Nat.lt_succ_of_lt (recorded.numbers call before)
      · exact Nat.lt_succ_self _
    first := by
      rw [calls, if_neg some.ne', List.append_nil]
      exact recorded.first
    refused := fun initiate more less => by
      rw [calls]
      by_cases this : s.initiated = initiate
      · rw [← this, none, if_pos rfl]
        exact ⟨error, rfl⟩
      · rw [if_neg this, List.append_nil]
        have less : initiate < s.initiated + 1 := less
        exact recorded.refused initiate more (by omega) }

theorem Progress.refuse (progress : s.Progress) (initiated : ℕ)
    (callbacks : List (ℕ × Option RingpopIsAlreadyShuttingDownError)) :
    ({ s with initiated := initiated, callbacks := callbacks } : SelfEvict).Progress := by
  cases progress with
  | idle names ticks runs evictions => exact .idle names ticks runs evictions
  | running type before run names isType running runs quiet answered =>
    exact .running type before run names isType running runs quiet answered
  | ran type names ticks quiet answered completed =>
    exact .ran type names ticks quiet answered completed
  | pinging before eviction names ticks quiet evictions answered sound unanswered whole =>
    exact .pinging before eviction names ticks quiet evictions answered sound unanswered whole
  | pinged names ticks quiet answered => exact .pinged names ticks quiet answered
  | done names ticks quiet answered => exact .done names ticks quiet answered

theorem Invariant.initiate (inv : s.Invariant) (now : ℤ) : (s.initiate now).Invariant := by
  unfold SelfEvict.initiate
  cases current : s.currentPhase with
  | none => exact inv.initiate_first (currentPhase_eq_none.mp current) now
  | some phase =>
    have started : s.phaseNames ≠ [] := fun names => by
      rw [currentPhase_eq_none.mpr names] at current
      cases current
    exact ⟨inv.progress.refuse _ _, inv.recorded.refuse started ⟨phase⟩⟩

/-- A hook that was called and has not completed belongs to the hooks that run now. -/
theorem Progress.of_unfinished (progress : s.Progress) {i : ℕ} {run : HookRun}
    (here : s.runs[i]? = some run) {name : Str} (called : name ∈ run.started)
    (fresh : name ∉ run.afterHook.reported) :
    ∃ (type : HookType) (before : List HookRun), s.phaseNames = type.reached ∧ run.type = type ∧
      Running (s.hookNames type) s.ticks before run ∧ s.runs = before ++ [run] ∧
      i = before.length ∧ Quiet before ∧ Answered s.evictions := by
  have settled (quiet : Quiet s.runs) : False :=
    fresh (quiet run (List.mem_of_getElem? here) called)
  cases progress with
  | idle _ _ runs =>
    rw [runs] at here
    cases here
  | running type before last names isType running runs quiet answered =>
    rw [runs] at here
    rcases Runs.earlier_or_last here with earlier | ⟨rfl, rfl⟩
    · exact absurd (quiet run earlier called) fresh
    · exact ⟨type, before, names, isType, running, runs, rfl, quiet, answered⟩
  | ran _ _ _ quiet | pinging _ _ _ _ quiet | pinged _ _ quiet | done _ _ quiet =>
    exact (settled quiet).elim

/-- When all hooks have completed, none is left to be called. -/
theorem Running.ticks_eq_nil {names : List Str} {ticks : List Task} {before : List HookRun}
    {run : HookRun} (running : Running names ticks before run) (all : names ⊆ run.started) :
    ticks = [] := by
  refine List.eq_nil_iff_forall_not_mem.mpr fun task due => ?_
  obtain ⟨name, listed, fresh, -⟩ := (running.ticks task).mp due
  exact fresh (all listed)

theorem Invariant.hookDone (inv : s.Invariant) {i : ℕ} {name : Str}
    (once : s.callsBackOnce (.hookDone i name) = true) : (s.hookDone i name).Invariant := by
  unfold SelfEvict.hookDone
  cases here : s.runs[i]? with
  | none => exact inv
  | some run =>
    by_cases called : run.started.contains name = true
    case neg =>
      simp only [called, Bool.false_eq_true, if_false]
      exact inv
    have fresh : name ∉ run.afterHook.reported := by
      simpa [callsBackOnce, here] using once
    have called : name ∈ run.started := List.contains_iff_mem.mp called
    obtain ⟨type, before, names, isType, running, runs, rfl, quiet, answered⟩ :=
      inv.progress.of_unfinished here called fresh
    let run' : HookRun := { run with afterHook := run.afterHook.call name }
    have known : name ∈ run.afterHook.parties := by
      rw [running.parties]
      exact running.started called
    have sound : run'.afterHook.Sound := running.sound.call known fresh
    have reported : run'.afterHook.reported ⊆ run.started :=
      List.append_subset.mpr ⟨running.called, fun _ h => List.mem_singleton.mp h ▸ called⟩
    have last : s.runs.set before.length run' = before ++ [run'] := by rw [runs, set_last]
    let next : SelfEvict := { s with runs := s.runs.set before.length run' }
    have completed (type : HookType) (other : Str) (h : s.Completed type other) :
        next.Completed type other :=
      completed_set here run' rfl rfl (List.subset_append_left _ _) h
    simp only [List.contains_iff_mem.mpr called, if_true]
    split
    case isTrue expired =>
      have all : s.hookNames type ⊆ run'.afterHook.reported := by
        rw [← running.parties]
        exact sound.expired_iff.mp expired
      have ticks : s.ticks ++ [.hooksDone run.type] = [.hooksDone type] := by
        rw [running.ticks_eq_nil (List.Subset.trans all reported), isType, List.nil_append]
      refine ⟨.ran type names (.inl ticks) ?_ answered fun other listed => ?_,
        inv.recorded.of_frame ⟨rfl, rfl, rfl, rfl, rfl, rfl, completed⟩⟩
      · intro r listed
        have listed : r ∈ s.runs.set before.length run' := listed
        rw [last] at listed
        rcases Runs.mem_extended.mp listed with earlier | rfl
        · exact quiet r earlier
        · exact List.Subset.trans running.started all
      · refine ⟨run', ?_, isType, all listed⟩
        show run' ∈ s.runs.set before.length run'
        rw [last]
        exact List.mem_append_right _ List.mem_cons_self
    case isFalse more =>
      refine ⟨.running type before run' names isType ?_ last quiet answered,
        inv.recorded.of_frame ⟨rfl, rfl, rfl, rfl, rfl, rfl, completed⟩⟩
      exact { running with
        sound := sound
        unfinished := fun all => more (sound.expired_iff.mpr (running.parties.symm ▸ all))
        called := reported }

theorem Invariant.onPing (inv : s.Invariant) (i ping : ℕ) {res : Response} {listed : ListedMembers}
    (returns : PingSender.breaks listed res = false) :
    (s.onPing i ping res listed).Invariant := by
  unfold SelfEvict.onPing
  cases here : s.evictions[i]? with
  | none => exact inv
  | some eviction =>
    by_cases due : ping ∈ eviction.pinged.parties ∧
        ping ∉ eviction.pinged.reported ++ eviction.broken
    case neg =>
      simp only [due, if_false]
      exact inv
    obtain ⟨asked, fresh⟩ := due
    rw [List.mem_append, not_or] at fresh
    have settled (answered : Answered s.evictions) : False :=
      fresh.1 (answered eviction (List.mem_of_getElem? here) asked)
    cases inv.progress with
    | idle _ _ _ evictions =>
      rw [evictions] at here
      cases here
    | running _ _ _ _ _ _ _ _ answered | ran _ _ _ _ answered | pinged _ _ _ answered
    | done _ _ _ answered => exact (settled answered).elim
    | pinging before last names ticks quiet evictions answered sound unanswered whole =>
      rw [evictions] at here
      rcases Runs.earlier_or_last here with earlier | ⟨rfl, rfl⟩
      · exact absurd (answered eviction earlier asked) fresh.1
      let eviction' : Eviction := { eviction with pinged := eviction.pinged.call ping }
      have sound' : eviction'.pinged.Sound := sound.call asked fresh.1
      have set : s.evictions.set before.length eviction' = before ++ [eviction'] := by
        rw [evictions, set_last]
      cases handled : (PingSender.onPing listed res).1 with
      | throws => cases returns.symm.trans ((PingSender.breaks_iff listed res).mpr handled)
      | callsBack err =>
        have same : (if err.isSome = true then s.phases
            else s.phases.modify eviction.phase fun phase =>
              { phase with
                numberOfSuccessfulPings := phase.numberOfSuccessfulPings.map (· + 1) }).map
            Phase.phase = s.phaseNames := by
          split
          · rfl
          · rw [map_phase_modify]
            · rfl
            · intro phase
              rfl
        simp only [asked, List.mem_append, fresh, or_self, not_false_eq_true, and_self, if_true,
          SelfEvict.afterPing]
        split
        case isTrue expired =>
          have ticks : s.ticks ++ [.postEvict] = [.postEvict] := by rw [ticks, List.nil_append]
          refine ⟨.pinged (same.trans names) ticks quiet fun e listed => ?_,
            inv.recorded.of_frame ⟨rfl, same, rfl, rfl, rfl, rfl, fun _ _ h => h⟩⟩
          have listed : e ∈ s.evictions.set before.length eviction' := listed
          rw [set] at listed
          rcases Runs.mem_extended.mp listed with earlier | rfl
          · exact answered e earlier
          · exact sound'.expired_iff.mp expired
        case isFalse more =>
          exact ⟨.pinging before eviction' (same.trans names) ticks quiet set answered sound'
            (fun all => more (sound'.expired_iff.mpr all)) whole,
            inv.recorded.of_frame ⟨rfl, same, rfl, rfl, rfl, rfl, fun _ _ h => h⟩⟩

theorem Invariant.step (inv : s.Invariant) {event : SelfEvictEvent}
    (once : s.callsBackOnce event = true) : (s.step event).Invariant := by
  cases event with
  | initiate now => exact inv.initiate now
  | hookDone run name => exact inv.hookDone once
  | onPing eviction ping res listed =>
    exact inv.onPing eviction ping (by simpa [callsBackOnce] using once)
  | tick task ringpop =>
    rw [SelfEvict.step]
    split
    case isTrue due => exact inv.tick (List.contains_iff_mem.mp due) ringpop
    case isFalse => exact inv

theorem registerHooks_ok {call : Option HookArgument} (h : s.registerHooks call = .ok s') :
    ∃ hooks, s' = { s with hooks := hooks } := by
  cases call with
  | none => cases h
  | some argument =>
    simp only [registerHooks, bind, Except.bind, pure, Except.pure, throw, throwThe,
      MonadExceptOf.throw] at h
    repeat' split at h
    all_goals first | cases h; done | exact ⟨_, (Except.ok.inj h).symm⟩

/-- `registerHooks` changes nothing but the hooks. -/
theorem registered_eq (calls : List (Option HookArgument)) :
    ∃ hooks, registered calls = { new with hooks := hooks } := by
  refine Runs.foldl_invariant _ (fun s => ∃ hooks, s = { new with hooks := hooks }) ?_
    ⟨.empty, rfl⟩ calls
  rintro s call ⟨hooks, same⟩
  cases result : s.registerHooks call with
  | error => exact ⟨hooks, same⟩
  | ok s' =>
    obtain ⟨hooks', rfl⟩ := registerHooks_ok result
    exact ⟨hooks', by rw [same]; rfl⟩

theorem invariant_registered (calls : List (Option HookArgument)) :
    (registered calls).Invariant := by
  obtain ⟨hooks, same⟩ := registered_eq calls
  rw [same]
  refine ⟨.idle rfl rfl rfl rfl, ?_⟩
  exact {
    evicting := fun h => by cases h
    done := fun h => by cases h
    localStatus := rfl
    initiated := ⟨fun h => absurd h (Nat.lt_irrefl 0), fun h => absurd rfl h⟩
    callback := fun h => absurd rfl h
    numbers := fun _ h => by cases h
    first := rfl
    refused := fun _ _ h => by cases h }

theorem Progress.phases (progress : s.Progress) :
    s.phaseNames <+: [.preEvict, .evicting, .postEvict, .done] := by
  cases progress with
  | idle names =>
    rw [names]
    exact List.nil_prefix
  | running type _ _ names | ran type names =>
    rw [names]
    cases type with
    | preEvict => exact ⟨[.evicting, .postEvict, .done], rfl⟩
    | postEvict => exact ⟨[.done], rfl⟩
  | pinging _ _ names | pinged names =>
    rw [names]
    exact ⟨[.postEvict, .done], rfl⟩
  | done names =>
    rw [names]

/-- Something is pending until the last phase. -/
theorem Progress.done_of_settled (progress : s.Progress) (started : s.phaseNames ≠ [])
    (settled : s.Settled) : .done ∈ s.phaseNames := by
  have idle := settled.ticks
  cases progress with
  | idle names => exact absurd names started
  | running type before run names isType running runs =>
    have called : s.hookNames type ⊆ run.started := fun name listed => by
      by_contra fresh
      have due := (running.ticks (.runHook before.length name)).mpr ⟨name, listed, fresh, rfl⟩
      rw [idle] at due
      cases due
    have last : run ∈ s.runs := by
      rw [runs]
      exact List.mem_append_right _ List.mem_cons_self
    exact absurd (List.Subset.trans called (settled.hooks run last)) running.unfinished
  | ran type _ ticks =>
    rw [idle] at ticks
    rcases ticks with ticks | ticks <;> cases ticks
  | pinging before eviction _ _ _ evictions _ _ unanswered whole =>
    have last : eviction ∈ s.evictions := by
      rw [evictions]
      exact List.mem_append_right _ List.mem_cons_self
    have answered := settled.pings eviction last
    rw [whole, List.append_nil] at answered
    exact absurd answered unanswered
  | pinged _ ticks =>
    rw [idle] at ticks
    cases ticks
  | done names =>
    rw [names]
    decide

theorem Invariant.inOrder (inv : s.Invariant) : s.InOrder where
  phases := inv.progress.phases
  evicting := inv.recorded.evicting
  done := inv.recorded.done
  localStatus := inv.recorded.localStatus
  callback := inv.recorded.first
  refused := inv.recorded.refused
  settled some := inv.progress.done_of_settled (inv.recorded.initiated.mp some)

/-- In every run in which no hook completes twice and every answered ping calls back, each phase
begins once and in its place. -/
theorem run_inOrder (calls : List (Option HookArgument)) {events : List SelfEvictEvent}
    (once : Runs.Throughout step (fun s event => s.callsBackOnce event = true) (registered calls)
      events) {reached : List SelfEvictEvent} (upTo : reached <+: events) :
    (reached.foldl step (registered calls)).InOrder :=
  ((once.of_prefix upTo).foldl_invariant Invariant (fun _ _ inv met => inv.step met)
    (invariant_registered calls)).inOrder

/-- A node that is alone in its cluster. -/
def loneRingpop : RingpopView :=
  let env := Env.sample (Address.of "a:1" (by decide))
  ⟨env, .new env, 0, false, 0, 0⟩

/-- A node that pings the other one. -/
def pairRingpop : RingpopView :=
  let env := Env.sample (Address.of "a:1" (by decide))
  let tick : Tick := ⟨7, [], 0⟩
  let b : Update × Tick := (⟨Address.of "b:1" (by decide), .alive, 3, none, none, none⟩, tick)
  let list := ListState.run env [.setLocalStatus .alive tick, .ready, .update [b]]
  ⟨env, list.membership, 0, true, 1, 10⟩

def preEvictHook (name : String) : Option HookArgument :=
  some ⟨some (str name), .function, .missing⟩

theorem run_inOrder_two_hooks :
    let listed : ListedMembers := ⟨false, true, true⟩
    let events : List SelfEvictEvent :=
      [.initiate 0, .tick (.runHook 0 (str "b")) pairRingpop,
        .tick (.runHook 0 (str "a")) pairRingpop, .hookDone 0 (str "a"), .initiate 1,
        .hookDone 0 (str "b"), .tick (.hooksDone .preEvict) pairRingpop,
        .tick .evict pairRingpop, .onPing 0 0 (.error (str "timeout")) listed,
        .tick .postEvict pairRingpop, .tick .done pairRingpop]
    let s := events.foldl step (registered [preEvictHook "a", preEvictHook "b"])
    s.InOrder ∧ s.phaseNames = [.preEvict, .evicting, .postEvict, .done] ∧
      s.evictions.map (·.pinged.reported) = [[0]] := by
  intro listed events s
  have once : Runs.Throughout step (fun s event => s.callsBackOnce event = true)
      (registered [preEvictHook "a", preEvictHook "b"]) events := by decide +kernel
  exact ⟨run_inOrder _ once List.prefix_rfl, by decide +kernel, by decide +kernel⟩

/-- Two hooks before the eviction, of which the first completes twice: the node is evicted
before the second hook has completed, and once more when it has. -/
theorem run_out_of_order :
    let once : List SelfEvictEvent :=
      [.initiate 0, .tick (.runHook 0 (str "a")) loneRingpop,
        .tick (.runHook 0 (str "b")) loneRingpop, .hookDone 0 (str "a"), .hookDone 0 (str "a"),
        .tick (.hooksDone .preEvict) loneRingpop, .tick .evict loneRingpop]
    let twice := once ++ [.hookDone 0 (str "b"), .tick (.hooksDone .preEvict) loneRingpop,
      .tick .evict loneRingpop]
    let s := once.foldl step (registered [preEvictHook "a", preEvictHook "b"])
    let s' := twice.foldl step (registered [preEvictHook "a", preEvictHook "b"])
    (s.phaseNames = [.preEvict, .evicting] ∧ ¬ s.InOrder) ∧
      s'.phaseNames = [.preEvict, .evicting, .evicting] ∧ s'.localStatus = [.faulty, .faulty] ∧
      ¬ s'.InOrder := by
  intro once twice s s'
  refine ⟨⟨by decide, fun inOrder => ?_⟩, by decide, by decide, fun inOrder => ?_⟩
  · obtain ⟨run, listed, -, completed⟩ :=
      inOrder.evicting (by decide) (str "b") (by decide)
    have runs : ∀ run ∈ s.runs, str "b" ∉ run.afterHook.reported := by decide
    exact runs run listed completed
  · exact absurd inOrder.phases (by decide)

/-- A ping is answered with changes that make `membership.update` throw: nothing is pending, and
the eviction does not go on. -/
example :
    let listed : ListedMembers := ⟨false, true, true⟩
    let body : Json := .object [(str "changes", .number 5)]
    let s := [.initiate 0, .tick (.hooksDone .preEvict) pairRingpop, .tick .evict pairRingpop,
      .onPing 0 0 (.body (some body)) listed].foldl step (registered [])
    s.phaseNames = [.preEvict, .evicting] ∧ s.ticks.length = 0 ∧
      s.evictions.map (·.broken) = [[0]] := by
  decide +kernel

end SelfEvict
end Ringpop.Members
