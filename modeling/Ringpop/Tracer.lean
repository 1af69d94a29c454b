import Ringpop.JsString
import Mathlib.Algebra.Order.Ring.Unbundled.Rat

/-! Tracers of `lib/trace`: an event of the node on one side, the sink that a user has asked
for on the other. -/
namespace Ringpop.Trace
open JsString

/-- The `sink` of an options object, without the fields that are left out. No tracer has the
type of an `unsupported` one. -/
inductive Sink where
  | log (level message : Option Str)
  | tchannel (hostPort endpoint serviceName : Option Str)
  | unsupported
deriving DecidableEq

/-- Zero stands for `null` as well. -/
structure TraceOpts where
  expiresIn : Option ℚ
  expiresAt : Option ℚ
  sink : Option Sink
deriving DecidableEq

/-- `sinkOptsDefaults` of an event in `config.js`. -/
structure EventConfig where
  message : Option Str
  endpoint : Option Str

def checksumUpdate : EventConfig where
  message := some (str "/trace/membership.checksum.update")
  endpoint := some (str "/trace/membership.checksum.update")

inductive TraceError where
  | invalidOption (option reason : Str)
  | connectSink (message : Str)

def truthy (time : Option ℚ) : Bool := decide (time.getD 0 ≠ 0)

/-- Levels are looked up in an object. -/
def logLevels : List Str := ["error", "warn", "info", "debug", "trace"].map str ++ objectPrototype

namespace Sink

/-- `types.js` has a tracer for the sink. -/
def known : Sink → Bool
  | unsupported => false
  | _ => true

/-- What tracers are told apart by: the message of a log, and where a request goes. -/
def key : Sink → Option (Str ⊕ Option Str × Str)
  | log _ message => message.map .inl
  | tchannel hostPort endpoint _ => endpoint.map fun endpoint => .inr (hostPort, endpoint)
  | unsupported => none

def named (sink : Sink) : Bool := sink.key.isSome

/-- The constructors of the tracers write this into the options object of the caller. -/
def defaults (config : EventConfig) : Sink → Sink
  | log level message =>
    log (level.or (some (str "info"))) (message.or (config.message.or (some (str "trace"))))
  | tchannel hostPort endpoint serviceName =>
    tchannel hostPort (endpoint.or (config.endpoint.or (some (str "trace"))))
      (serviceName.or (some (str "ringpop")))
  | unsupported => unsupported

theorem named_defaults {sink : Sink} (known : sink.known = true) (config : EventConfig) :
    (sink.defaults config).named = true := by
  cases sink with
  | log level message =>
    cases message <;> cases h : config.message <;> simp [defaults, named, key, h]
  | tchannel hostPort endpoint serviceName =>
    cases endpoint <;> cases h : config.endpoint <;> simp [defaults, named, key, h]
  | unsupported => cases known

/-- The defaults leave a name alone that is there. -/
theorem key_defaults {sink : Sink} (named : sink.named = true) (config : EventConfig) :
    (sink.defaults config).key = sink.key := by
  cases sink with
  | log level message =>
    cases message with
    | none => cases named
    | some message => rfl
  | tchannel hostPort endpoint serviceName =>
    cases endpoint with
    | none => cases named
    | some endpoint => rfl
  | unsupported => rfl

/-- The comparison of `matches`, with the sink of the tracer first. -/
def compares : Sink → Sink → Bool
  | log _ own, log _ message => decide (message = own)
  | tchannel ownHostPort own _, tchannel hostPort endpoint _ =>
    decide (hostPort = ownHostPort) && decide (endpoint = own)
  | _, _ => false

theorem compares_iff {own sink : Sink} (named : own.named = true) :
    own.compares sink = true ↔ sink.key = own.key := by
  cases own with
  | log level message =>
    rw [Sink.named, key, Option.isSome_map] at named
    obtain ⟨message, rfl⟩ := Option.isSome_iff_exists.mp named
    cases sink <;> simp [compares, key]
  | tchannel hostPort endpoint serviceName =>
    rw [Sink.named, key, Option.isSome_map] at named
    obtain ⟨endpoint, rfl⟩ := Option.isSome_iff_exists.mp named
    cases sink with
    | tchannel hostPort' endpoint' serviceName' => cases endpoint' <;> simp [compares, key]
    | _ => simp [compares, key]
  | unsupported => cases named

end Sink

/-- A tracer as its constructor leaves it, with the defaults in its options. Its `id` stands
for the identity of the object. -/
structure Tracer where
  id : ℕ
  traceEvent : Str
  opts : TraceOpts
  named : opts.sink.any Sink.named = true
deriving DecidableEq

namespace Tracer

/-- `none` is a missing options object. -/
def invalidateOptions : Option TraceOpts → Option TraceError
  | none => some (.invalidOption (str "opts") (str "is missing"))
  | some opts =>
    if (truthy opts.expiresIn && truthy opts.expiresAt) ||
        !(truthy opts.expiresIn || truthy opts.expiresAt) then
      some (.invalidOption (str "expires")
        (str "must specify exactly one of expiresAt, expiresIn"))
    else if opts.sink.isNone then some (.invalidOption (str "sink") (str "is missing"))
    else none

def new (id : ℕ) (traceEvent : Str) (opts : TraceOpts) (sink : Sink)
    (named : sink.named = true) : Tracer where
  id := id
  traceEvent := traceEvent
  opts :=
    { expiresIn := opts.expiresIn.or (some 60000)
      expiresAt := opts.expiresAt
      sink := some sink }
  named := named

def invalidateSink : Option Sink → Option TraceError
  | some (.log level _) =>
    if level.any logLevels.contains then none
    else some (.invalidOption (str "log.level") (str "is missing"))
  | some (.tchannel _ endpoint serviceName) =>
    if serviceName.getD [] = [] then
      some (.invalidOption (str "tchannel.serviceName") (str "is missing"))
    else if endpoint.getD [] = [] then
      some (.invalidOption (str "tchannel.endpoint") (str "is missing"))
    else none
  | _ => none

def invalidate (tracer : Tracer) : Option TraceError :=
  (invalidateOptions (some tracer.opts)).or (invalidateSink tracer.opts.sink)

def matchesSink (tracer : Tracer) (traceEvent : Str) (sink : Sink) : Bool :=
  decide (tracer.traceEvent = traceEvent) && tracer.opts.sink.any fun own => own.compares sink

def key (tracer : Tracer) : Option (Str ⊕ Option Str × Str) := tracer.opts.sink.bind Sink.key

theorem matchesSink_iff {tracer : Tracer} {traceEvent : Str} {sink : Sink} :
    tracer.matchesSink traceEvent sink = true ↔
      tracer.traceEvent = traceEvent ∧ sink.key = tracer.key := by
  obtain ⟨id, event, ⟨expiresIn, expiresAt, own⟩, named⟩ := tracer
  cases own with
  | none => cases named
  | some own =>
    rw [matchesSink, Bool.and_eq_true, decide_eq_true_eq]
    exact and_congr_right fun _ => Sink.compares_iff named

theorem isSome_key (tracer : Tracer) : tracer.key.isSome = true := by
  obtain ⟨id, traceEvent, ⟨expiresIn, expiresAt, sink⟩, named⟩ := tracer
  cases sink with
  | none => cases named
  | some sink => exact named

/-- A log is connected at once. -/
def connectSink (tracer : Tracer) (err : Option Str) : Option TraceError :=
  match tracer.opts.sink with
  | some (.tchannel ..) =>
    err.map fun message => .connectSink (str "ringpop TChannelTracer.connectSink: " ++ message)
  | _ => none

end Tracer
end Ringpop.Trace
