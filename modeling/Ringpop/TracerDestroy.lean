import Ringpop.TracerInvariant

/-! `TracerStore.destroy`, and `RingPop.destroy` of `index.js`, which calls it halfway. -/
namespace Ringpop.Trace
open JsString Dictionary

namespace TracerStore

/-- The `config` and the `opts` of what `destroy` takes for a tracer: the map has a list of
tracers for each event, and a list has neither. -/
def fields (_tracers : List Tracer) : Option (Str × ℕ) := none

/-- Without a `config` the lookup throws. -/
def removeFields (s : TracerStore) : Option (Str × ℕ) → Option TracerStore
  | none => none
  | some (traceEvent, opts) => some (s.remove traceEvent opts)

/-- `none` when it throws. -/
def destroy (s : TracerStore) : Option TracerStore :=
  s.tracers.entries.foldlM (fun s entry => s.removeFields (fields entry.2)) s

/-- No tracer, no timer and no listener is left. -/
structure Clean (s : TracerStore) : Prop where
  registered : ∀ traceEvent, s.registered traceEvent = []
  timers : ∀ timer, s.timers.callback timer = none
  listeners : ∀ tracer, s.listener tracer = false

variable {s : TracerStore}

theorem destroy_iff : s.destroy.isSome = true ↔ s.tracers.keys = [] := by
  rw [destroy, Dict.keys, List.map_eq_nil_iff]
  cases s.tracers.entries with
  | nil => exact iff_of_true rfl rfl
  | cons entry rest => exact iff_of_false (by simp [fields, removeFields]) (by simp)

theorem destroy_of_empty (empty : s.tracers.keys = []) : s.destroy = some s := by
  rw [destroy, List.map_eq_nil_iff.mp empty]
  rfl

/-- Where no event has ever had a tracer there is nothing to clean up. -/
theorem WellFormed.clean (wf : WellFormed s) (empty : s.tracers.keys = []) : Clean s := by
  have none := wf.empty (List.map_eq_nil_iff.mp empty)
  refine ⟨fun event => ?_, fun timer => ?_, fun tracer => ?_⟩
  · refine List.eq_nil_iff_forall_not_mem.mpr fun tracer listed => ?_
    have made := (wf.registered event tracer listed).2
    omega
  · by_contra pending
    obtain ⟨bound, h⟩ := Option.ne_none_iff_exists'.mp pending
    have made := (wf.bound timer bound h).1
    omega
  · by_contra listens
    have made := wf.listener tracer (Bool.of_not_eq_false listens)
    omega

end TracerStore

/-- What `RingPop.destroy` does, one call after the other; `ratesStop` is the nine meters. -/
inductive DestroyStep where
  | emitDestroying
  | gossipStop
  | stateTransitionsDisable
  | membershipUpdateRollupDestroy
  | periodicStatsStop
  | requestProxyDestroy
  | tracersDestroy
  | ratesStop
  | joinerDestroy
  | channelClose
  | topChannelClose
  | clientDestroy
  | emitDestroyed
deriving DecidableEq

/-- The channel of a node, and whether it and its top channel have been destroyed. -/
structure Channel where
  topChannel : Option Bool
  destroyed : Bool

/-- `done` is a history. -/
structure RingPop where
  destroyed : Bool
  tracers : TracerStore
  joiner : Bool
  channel : Option Channel
  client : Bool
  done : List DestroyStep

namespace RingPop

/-- All calls but `tracers.destroy` are taken to return. -/
def perform (r : RingPop) (step : DestroyStep) : Option RingPop :=
  match step with
  | .tracersDestroy =>
    r.tracers.destroy.map fun tracers => { r with tracers := tracers, done := r.done ++ [step] }
  | .emitDestroyed => some { r with destroyed := true, done := r.done ++ [step] }
  | _ => some { r with done := r.done ++ [step] }

def stepsBefore : List DestroyStep :=
  [.emitDestroying, .gossipStop, .stateTransitionsDisable, .membershipUpdateRollupDestroy,
    .periodicStatsStop, .requestProxyDestroy]

def stepsAfter (r : RingPop) : List DestroyStep :=
  .ratesStop ::
    ((if r.joiner then [.joinerDestroy] else []) ++
      (match r.channel with
        | some ⟨none, false⟩ => [.channelClose]
        | some ⟨some false, _⟩ => [.topChannelClose]
        | _ => []) ++
      (if r.client then [.clientDestroy] else []) ++ [.emitDestroyed])

/-- The steps up to one that throws, and whether all have returned. -/
def performAll : RingPop → List DestroyStep → RingPop × Bool
  | r, [] => (r, true)
  | r, step :: rest =>
    match r.perform step with
    | none => (r, false)
    | some r => r.performAll rest

def destroy (r : RingPop) : RingPop × Bool :=
  if r.destroyed then (r, true)
  else r.performAll (stepsBefore ++ .tracersDestroy :: r.stepsAfter)

variable {r : RingPop}

theorem performAll_append (r : RingPop) (steps rest : List DestroyStep) :
    r.performAll (steps ++ rest) =
      if (r.performAll steps).2 then (r.performAll steps).1.performAll rest
      else r.performAll steps := by
  induction steps generalizing r with
  | nil => rfl
  | cons step steps ih =>
    rw [List.cons_append, performAll, performAll]
    cases r.perform step with
    | none => rfl
    | some r => exact ih r

/-- Steps other than `tracers.destroy` return and leave the tracers alone. -/
theorem performAll_others (r : RingPop) (steps : List DestroyStep)
    (others : .tracersDestroy ∉ steps) :
    r.performAll steps = ({ r with
      destroyed := r.destroyed || decide (.emitDestroyed ∈ steps), done := r.done ++ steps },
      true) := by
  induction steps generalizing r with
  | nil => simp [performAll]
  | cons step steps ih =>
    rw [List.mem_cons, not_or] at others
    rw [performAll]
    cases step with
    | tracersDestroy => exact absurd rfl others.1
    | _ => simp [perform, ih _ others.2]

theorem tracersDestroy_notMem (r : RingPop) : .tracersDestroy ∉ r.stepsAfter := by
  rw [stepsAfter]
  simp only [List.mem_cons, List.mem_append, not_or]
  refine ⟨by simp, ⟨⟨?_, ?_⟩, ?_⟩, by simp⟩
  · split <;> simp
  · split <;> simp
  · split <;> simp

/-- What `destroy` does to a node: everything, or what comes before `tracers.destroy` when that
throws. -/
theorem destroy_eq (idle : r.destroyed = false) :
    r.destroy =
      match r.tracers.destroy with
      | none => ({ r with done := r.done ++ stepsBefore }, false)
      | some tracers =>
        ({ r with
          destroyed := true
          tracers := tracers
          done := r.done ++ (stepsBefore ++ .tracersDestroy :: r.stepsAfter) }, true) := by
  have before := r.performAll_others stepsBefore (by decide)
  rw [destroy, if_neg (by simp [idle]), performAll_append, before, if_pos rfl, performAll, perform]
  cases r.tracers.destroy with
  | none => simp [idle, stepsBefore]
  | some tracers =>
    simp only [Option.map_some]
    rw [performAll_others _ _ r.tracersDestroy_notMem]
    simp [stepsAfter]

theorem destroy_returns (idle : r.destroyed = false) :
    r.destroy.2 = true ↔ r.tracers.destroy.isSome = true := by
  rw [destroy_eq idle]
  cases r.tracers.destroy with
  | none => exact iff_of_false (by simp) (by simp)
  | some tracers => exact iff_of_true rfl rfl

end RingPop

namespace TracerStore

/-- A store that a run has reached is cleaned up, and the node that it belongs to destroyed to
the end, exactly if no event has ever had a tracer. -/
theorem run_destroy_iff (configs : Str → EventConfig) (given : ℕ → Option TraceOpts)
    (events : List StoreEvent) (r : RingPop) :
    let s := run configs given events
    ((∃ destroyed, s.destroy = some destroyed ∧ Clean destroyed) ↔ s.tracers.keys = []) ∧
      ({ r with destroyed := false, tracers := s }.destroy.2 = true ↔ s.tracers.keys = []) := by
  intro s
  have wf : WellFormed s := wellFormed_run configs given events
  constructor
  · constructor
    · rintro ⟨destroyed, returns, -⟩
      exact destroy_iff.mp (by rw [returns]; rfl)
    · intro empty
      exact ⟨s, destroy_of_empty empty, wf.clean empty⟩
  · rw [RingPop.destroy_returns rfl]
    exact destroy_iff

/-- One tracer that has come and gone is enough to leave the node half destroyed. -/
theorem run_not_destroyed :
    let event := str "membership.checksum.update"
    let given : TraceOpts := ⟨some 50, none, some (.log none none)⟩
    let sink := Sink.log (some (str "info")) checksumUpdate.message
    let tracer := Tracer.new 0 event given sink (by decide)
    let s := run (fun _ => checksumUpdate) (fun _ => some given)
      [.add event 0 false none 0, .onConnect tracer 0, .onTick, .remove event 0]
    let r := RingPop.destroy ⟨false, s, true, some ⟨some false, false⟩, true, []⟩
    s.registered event = [] ∧ s.destroy.isSome = false ∧ r.2 = false ∧ r.1.destroyed = false ∧
      r.1.done = RingPop.stepsBefore ∧
      ¬ ∃ destroyed, s.destroy = some destroyed ∧ Clean destroyed := by
  intro event given sink tracer s r
  have throws : s.destroy.isSome = false := by decide
  refine ⟨by decide, throws, by decide, by decide, by decide, ?_⟩
  rintro ⟨destroyed, returns, -⟩
  rw [returns] at throws
  cases throws

end TracerStore
end Ringpop.Trace
