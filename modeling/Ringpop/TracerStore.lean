import Ringpop.Tracer
import Ringpop.TimerQueue
import Mathlib.Logic.Function.Basic

/-! `lib/trace/store.js`: the tracers of a node, by event, with the timers that end them. -/
namespace Ringpop.Trace
open JsString Dictionary

inductive Answer where
  | error (err : TraceError)
  | added (tracerOptsStr : Option TraceOpts)

def Answer.isError : Answer → Bool
  | error _ => true
  | added _ => false

/-- The callback of one `add`. The second field is a history: its options are not valid, or
the sink of its tracer is going to fail. -/
structure Caller where
  call : ℕ
  fails : Bool
deriving DecidableEq

/-- Whoever waits for `connectSink`, and what the sink is going to call back with. -/
structure OnConnect where
  call : ℕ
  opts : ℕ
  tracerOptsStr : Option TraceOpts
  err : Option TraceError

/-- A bound `remove`, and the tracer that the timer has been set for. -/
structure Expiration where
  tracer : Tracer
  traceEvent : Str
  opts : ℕ

/-- What waits for `nextTick`. -/
inductive Tick where
  | emitAdd (call : ℕ) (answer : Answer)
  | disconnectSource (tracer : Tracer)

/-- `opts` has the objects of the callers, by reference. What changes in a tracer is kept by
tracer: `listener`, `timer` for `_timer`, and `connecting`. `waiting` has the callbacks that are
registered for the next `add` event. `nextAdd`, `callers`, `answers` and `accepted` are a history:
the number of the next `add`, the callbacks that were given, their calls, and the tracers that
were found or made for options. -/
structure TracerStore where
  opts : ℕ → Option TraceOpts
  tracers : Dict Str (List Tracer)
  timers : TimerQueue Expiration
  listener : Tracer → Bool
  timer : Tracer → Option ℕ
  connecting : Tracer → Option OnConnect
  ticks : List Tick
  nextTracer : ℕ
  nextAdd : ℕ
  callers : List Caller
  waiting : List Caller
  answers : List (Caller × Answer)
  accepted : List (ℕ × Tracer)

/-- What `add` finds before it does anything but write to the options of its caller. `throws`
is a type without a tracer. -/
inductive Admission where
  | invalid (err : TraceError)
  | found (tracer : Tracer)
  | throws
  | refused (sink : Sink) (err : TraceError)
  | made (sink : Sink) (tracer : Tracer)

/-- An `add` fails by its own options or by its own sink. -/
def Admission.fails (err : Option Str) : Admission → Bool
  | found _ => false
  | made _ tracer => (tracer.connectSink err).isSome
  | _ => true

/-- Whatever the time is that is left, `NaN` and zero set no timer. -/
def newOffset (opts : Option TraceOpts) (now : ℚ) : ℚ :=
  match opts with
  | none => 0
  | some opts =>
    if truthy opts.expiresIn then max 0 (opts.expiresIn.getD 0)
    else opts.expiresAt.elim 0 fun expiresAt => max 0 (expiresAt - now)

/-- What the sink of a new tracer is going to call back with is part of the `add`. Sinks connect
in any order with what else happens; one that is there at once is connected right after it. -/
inductive StoreEvent where
  | add (traceEvent : Str) (opts : ℕ) (callback : Bool) (err : Option Str) (now : ℚ)
  | remove (traceEvent : Str) (opts : ℕ)
  | onConnect (tracer : Tracer) (now : ℚ)
  | onTimeout (timer : ℕ)
  | onTick

namespace TracerStore

def new (given : ℕ → Option TraceOpts) : TracerStore where
  opts := given
  tracers := .empty
  timers := .empty
  listener _ := false
  timer _ := none
  connecting _ := none
  ticks := []
  nextTracer := 0
  nextAdd := 0
  callers := []
  waiting := []
  answers := []
  accepted := []

def registered (s : TracerStore) (traceEvent : Str) : List Tracer :=
  (s.tracers.get traceEvent).getD []

def sink (s : TracerStore) (opts : ℕ) : Option Sink := (s.opts opts).bind TraceOpts.sink

/-- Without a sink the comparison with the first tracer throws. -/
def get (s : TracerStore) (traceEvent : Str) (opts : ℕ) : Option Tracer :=
  (s.sink opts).bind fun sink =>
    (s.registered traceEvent).find? fun tracer => tracer.matchesSink traceEvent sink

def clearTimer (s : TracerStore) (tracer : Tracer) : TracerStore :=
  { s with
    timers := (s.timer tracer).elim s.timers s.timers.clearTimeout
    timer := Function.update s.timer tracer none }

def connectSource (s : TracerStore) (tracer : Tracer) : TracerStore :=
  { s with listener := Function.update s.listener tracer true }

def disconnectSource (s : TracerStore) (tracer : Tracer) : TracerStore :=
  { s with listener := Function.update s.listener tracer false }

def disconnectSink (s : TracerStore) (tracer : Tracer) : TracerStore :=
  match tracer.opts.sink with
  | some (.tchannel ..) => { s with ticks := s.ticks ++ [.disconnectSource tracer] }
  | _ => s.disconnectSource tracer

def updateExpiration (s : TracerStore) (traceEvent : Str) (opts : ℕ) (tracer : Tracer)
    (now : ℚ) : TracerStore :=
  let s := s.clearTimer tracer
  if newOffset (s.opts opts) now = 0 then s
  else
    { s with
      timers := s.timers.setTimeout ⟨tracer, traceEvent, opts⟩
      timer := Function.update s.timer tracer (some s.timers.next) }

/-- `tracer` is the first one that matches. -/
def splice (s : TracerStore) (traceEvent : Str) (tracer : Tracer) : TracerStore :=
  { s with tracers := s.tracers.set traceEvent ((s.registered traceEvent).erase tracer) }

def remove (s : TracerStore) (traceEvent : Str) (opts : ℕ) : TracerStore :=
  match s.get traceEvent opts with
  | none => s
  | some tracer =>
    (((s.clearTimer tracer).splice traceEvent tracer).disconnectSink tracer).disconnectSource
      tracer

/-- Whoever is registered is called, once. -/
def emitAdd (s : TracerStore) (answer : Answer) : TracerStore :=
  { s with
    waiting := []
    answers := s.answers ++ s.waiting.map fun caller => (caller, answer) }

def emitAddNextTick (s : TracerStore) (call : ℕ) (answer : Answer) : TracerStore :=
  { s with ticks := s.ticks ++ [.emitAdd call answer] }

def onceAdd (s : TracerStore) (callback fails : Bool) : TracerStore :=
  let given := if callback then [⟨s.nextAdd, fails⟩] else []
  { s with
    nextAdd := s.nextAdd + 1
    callers := s.callers ++ given
    waiting := s.waiting ++ given }

def writeSink (s : TracerStore) (opts : ℕ) (sink : Sink) : TracerStore :=
  { s with
    opts := Function.update s.opts opts
      ((s.opts opts).map fun given => { given with sink := some sink }) }

/-- Only the history changes. -/
def accept (s : TracerStore) (opts : ℕ) (tracer : Tracer) : TracerStore :=
  { s with accepted := s.accepted ++ [(opts, tracer)] }

def register (s : TracerStore) (tracer : Tracer) (onConnect : OnConnect) : TracerStore :=
  { s with
    tracers := s.tracers.set tracer.traceEvent (s.registered tracer.traceEvent ++ [tracer])
    connecting := Function.update s.connecting tracer (some onConnect)
    nextTracer := s.nextTracer + 1 }.accept onConnect.opts tracer

def construct (s : TracerStore) (config : EventConfig) (traceEvent : Str) (given : TraceOpts)
    (sink : Sink) : Admission :=
  if known : sink.known = true then
    let written := sink.defaults config
    let tracer :=
      Tracer.new s.nextTracer traceEvent given written (Sink.named_defaults known config)
    match tracer.invalidate with
    | some err => .refused written err
    | none => .made written tracer
  else .throws

def admission (s : TracerStore) (configs : Str → EventConfig) (traceEvent : Str) (opts : ℕ) :
    Admission :=
  match Tracer.invalidateOptions (s.opts opts), s.opts opts, s.sink opts with
  | some err, _, _ => .invalid err
  | none, some given, some sink =>
    match s.get traceEvent opts with
    | some tracer => .found tracer
    | none => s.construct (configs traceEvent) traceEvent given sink
  -- valid options have a sink
  | none, _, _ => .throws

def add (s : TracerStore) (configs : Str → EventConfig) (traceEvent : Str) (opts : ℕ)
    (callback : Bool) (err : Option Str) (now : ℚ) : TracerStore :=
  let admission := s.admission configs traceEvent opts
  let call := s.nextAdd
  let tracerOptsStr := s.opts opts
  let s := s.onceAdd callback (admission.fails err)
  match admission with
  | .invalid err => s.emitAddNextTick call (.error err)
  | .found tracer =>
    ((s.accept opts tracer).updateExpiration traceEvent opts tracer now).emitAddNextTick call
      (.added tracerOptsStr)
  | .throws => s
  | .refused sink err => (s.writeSink opts sink).emitAddNextTick call (.error err)
  | .made sink tracer =>
    (s.writeSink opts sink).register tracer ⟨call, opts, tracerOptsStr, tracer.connectSink err⟩

/-- The callback of `connectSink` that `add` has given. -/
def onConnect (s : TracerStore) (tracer : Tracer) (now : ℚ) : TracerStore :=
  match s.connecting tracer with
  | none => s
  | some connect =>
    let s := { s with connecting := Function.update s.connecting tracer none }
    match connect.err with
    | some err => (s.remove tracer.traceEvent connect.opts).emitAdd (.error err)
    | none =>
      ((s.connectSource tracer).updateExpiration tracer.traceEvent connect.opts tracer
        now).emitAddNextTick connect.call (.added connect.tracerOptsStr)

def onTimeout (s : TracerStore) (timer : ℕ) : TracerStore :=
  match s.timers.callback timer with
  | none => s
  | some bound =>
    { s with timers := s.timers.clearTimeout timer }.remove bound.traceEvent bound.opts

def onTick (s : TracerStore) : TracerStore :=
  match s.ticks with
  | [] => s
  | .emitAdd _ answer :: ticks => { s with ticks := ticks }.emitAdd answer
  | .disconnectSource tracer :: ticks => { s with ticks := ticks }.disconnectSource tracer

def step (configs : Str → EventConfig) (s : TracerStore) : StoreEvent → TracerStore
  | .add traceEvent opts callback err now => s.add configs traceEvent opts callback err now
  | .remove traceEvent opts => s.remove traceEvent opts
  | .onConnect tracer now => s.onConnect tracer now
  | .onTimeout timer => s.onTimeout timer
  | .onTick => s.onTick

def run (configs : Str → EventConfig) (given : ℕ → Option TraceOpts)
    (events : List StoreEvent) : TracerStore :=
  events.foldl (step configs) (new given)

end TracerStore
end Ringpop.Trace
