import Ringpop.MemberIterator
import Ringpop.Gossip
import Ringpop.Countdown
import Ringpop.Runs
import Mathlib.Algebra.Order.Floor.Ring
import Mathlib.Data.Rat.Floor

/-! `lib/self-evict.js`: the phases of a self eviction, with the hooks of the application
before and after the node makes itself faulty. -/
namespace Ringpop.Members
open JsString Dictionary Countdowns

inductive PhaseName where
  | preEvict
  | evicting
  | postEvict
  | done
deriving DecidableEq

/-- The keys of a `SelfEvictHooks` object that have a hook. -/
inductive HookType where
  | preEvict
  | postEvict
deriving DecidableEq

structure Phase where
  phase : PhaseName
  ts : ℤ
  duration : Option ℤ
  numberOfPings : Option ℕ
  numberOfSuccessfulPings : Option ℕ
deriving DecidableEq

structure RingpopIsAlreadyShuttingDownError where
  phase : Phase
deriving DecidableEq

/-- Which of its hooks an object defines. -/
structure SelfEvictHooks where
  preEvict : Bool
  postEvict : Bool

def SelfEvictHooks.method (hooks : SelfEvictHooks) : HookType → Bool
  | .preEvict => hooks.preEvict
  | .postEvict => hooks.postEvict

/-- What has been handed to `process.nextTick`. -/
inductive Task where
  | runHook (run : ℕ) (name : Str)
  | hooksDone (type : HookType)
  | evict
  | postEvict
  | done
deriving DecidableEq

/-- A call of `_runHooks`; `started` lists the hooks that have been called. -/
structure HookRun where
  type : HookType
  afterHook : Countdown Str
  started : List Str

/-- The pings of an eviction, and the place of its phase. `broken` lists those whose answers had
changes that made `membership.update` throw. -/
structure Eviction where
  phase : ℕ
  pinged : Countdown ℕ
  broken : List ℕ

/-- The calls of `initiate` are numbered. `localStatus` and `callbacks` are histories: the calls
of `setLocalStatus`, and those of the callbacks with their errors. -/
structure SelfEvict where
  hooks : Dict Str SelfEvictHooks
  callback : Option ℕ
  phases : List Phase
  ticks : List Task
  runs : List HookRun
  evictions : List Eviction
  localStatus : List Status
  initiated : ℕ
  callbacks : List (ℕ × Option RingpopIsAlreadyShuttingDownError)

/-- What the object reads of its ringpop instance. -/
structure RingpopView where
  env : Env
  membership : Membership
  now : ℤ
  selfEvictionPingEnabled : Bool
  selfEvictionMaxPingRatio : ℚ
  maxPiggybackCount : ℤ

/-- `hookDone` is called by a hook, and `onPing` once for each ping. -/
inductive SelfEvictEvent where
  | initiate (now : ℤ)
  | tick (task : Task) (ringpop : RingpopView)
  | hookDone (run : ℕ) (name : Str)
  | onPing (eviction : ℕ) (ping : ℕ) (res : Response) (listed : ListedMembers)

/-- A field of the argument of `registerHooks`: falsy, a function, or something else. -/
inductive HookField where
  | missing
  | function
  | other
deriving DecidableEq

structure HookArgument where
  name : Option Str
  preEvict : HookField
  postEvict : HookField

inductive RegisterHooksError where
  | argumentRequired (argument : Str)
  | fieldRequired (argument field : Str)
  | duplicateHook (name : Str)
  | methodRequired (argument method : Str)
  | invalidOption (option reason : Str)
deriving DecidableEq

namespace SelfEvict

def new : SelfEvict := ⟨.empty, none, [], [], [], [], [], 0, []⟩

def currentPhase (s : SelfEvict) : Option Phase := s.phases.getLast?

def registerHooks (s : SelfEvict) (hooks : Option HookArgument) :
    Except RegisterHooksError SelfEvict := do
  let some hooks := hooks | throw (.argumentRequired (str "hooks"))
  let name := hooks.name.getD []
  if name = [] then throw (.fieldRequired (str "hooks") (str "name"))
  -- `this.hooks` inherits properties, as every object does
  if s.hooks.has name || objectPrototype.contains name then throw (.duplicateHook name)
  if hooks.preEvict = .missing ∧ hooks.postEvict = .missing then
    throw (.methodRequired (str "hooks") (str "preEvict and/or postEvict"))
  if hooks.preEvict = .other then
    throw (.invalidOption (str "preEvict") (str "it is not a function"))
  if hooks.postEvict = .other then
    throw (.invalidOption (str "postEvict") (str "it is not a function"))
  let methods : SelfEvictHooks :=
    ⟨decide (hooks.preEvict = .function), decide (hooks.postEvict = .function)⟩
  return { s with hooks := s.hooks.set name methods }

/-- What consecutive calls of `registerHooks` leave, those that throw included. -/
def registered (calls : List (Option HookArgument)) : SelfEvict :=
  calls.foldl (fun s call => (s.registerHooks call).toOption.getD s) new

def nextTick (s : SelfEvict) (task : Task) : SelfEvict := { s with ticks := s.ticks ++ [task] }

def transitionTo (s : SelfEvict) (phaseName : PhaseName) (now : ℤ) : SelfEvict :=
  let phases := s.phases.modify (s.phases.length - 1) fun previousPhase =>
    { previousPhase with duration := some (now - previousPhase.ts) }
  { s with phases := phases ++ [⟨phaseName, now, none, none, none⟩] }

/-- The function `hooksDone` of `_preEvict` or of `_postEvict`. -/
def hooksDone (s : SelfEvict) : HookType → SelfEvict
  | .preEvict => s.nextTick .evict
  | .postEvict => s.nextTick .done

def hookNames (s : SelfEvict) (type : HookType) : List Str :=
  s.hooks.keys.filter fun name => (s.hooks.get name).any fun hooks => hooks.method type

def runHooks (s : SelfEvict) (type : HookType) : SelfEvict :=
  let names := s.hookNames type
  if names = [] then s.hooksDone type
  else
    { s with
      runs := s.runs ++ [⟨type, .after names, []⟩]
      ticks := s.ticks ++ names.map (.runHook s.runs.length) }

def preEvict (s : SelfEvict) (now : ℤ) : SelfEvict :=
  (s.transitionTo .preEvict now).runHooks .preEvict

def initiate (s : SelfEvict) (now : ℤ) : SelfEvict :=
  match s.currentPhase with
  | some phase =>
    { s with
      initiated := s.initiated + 1
      callbacks := s.callbacks ++ [(s.initiated, some ⟨phase⟩)] }
  | none =>
    { s with initiated := s.initiated + 1, callback := some s.initiated }.preEvict now

/-- `slice(0, end)`. -/
def slice (l : List ℕ) (stop : ℤ) : List ℕ :=
  l.take (if stop < 0 then l.length + stop else stop).toNat

def getMembersToPing (ringpop : RingpopView) : List ℕ :=
  let pingableMembers := ringpop.membership.members.filter fun member =>
    Membership.isPingable ringpop.env (ringpop.membership.heap member)
  let numberOfPingableMembers : ℤ := pingableMembers.length
  let maxNumberOfPings := ⌈numberOfPingableMembers * ringpop.selfEvictionMaxPingRatio⌉
  let numberOfPings :=
    min ringpop.maxPiggybackCount (min maxNumberOfPings numberOfPingableMembers)
  slice pingableMembers numberOfPings

def evict (s : SelfEvict) (ringpop : RingpopView) : SelfEvict :=
  let phase := s.phases.length
  let membersToPing := getMembersToPing ringpop
  let s := s.transitionTo .evicting ringpop.now
  let s : SelfEvict := { s with
    localStatus := s.localStatus ++ [.faulty]
    phases := s.phases.modify phase fun phase => { phase with
      numberOfPings := some membersToPing.length, numberOfSuccessfulPings := some 0 } }
  if ringpop.selfEvictionPingEnabled ∧ 0 < membersToPing.length then
    { s with evictions :=
        s.evictions ++ [⟨phase, .after (List.range membersToPing.length), []⟩] }
  else s.nextTick .postEvict

def postEvict (s : SelfEvict) (now : ℤ) : SelfEvict :=
  (s.transitionTo .postEvict now).runHooks .postEvict

def done (s : SelfEvict) (now : ℤ) : SelfEvict :=
  let s := s.transitionTo .done now
  match s.callback with
  | some callback => { s with callbacks := s.callbacks ++ [(callback, none)] }
  | none => s

/-- The function that `runHook` hands to `process.nextTick`. -/
def callHook (s : SelfEvict) (i : ℕ) (name : Str) : SelfEvict :=
  match s.runs[i]? with
  | some run => { s with runs := s.runs.set i { run with started := run.started ++ [name] } }
  | none => s

def perform (s : SelfEvict) (ringpop : RingpopView) : Task → SelfEvict
  | .runHook run name => s.callHook run name
  | .hooksDone type => s.hooksDone type
  | .evict => s.evict ringpop
  | .postEvict => s.postEvict ringpop.now
  | .done => s.done ringpop.now

/-- Only a hook that has been called can call back. -/
def hookDone (s : SelfEvict) (i : ℕ) (name : Str) : SelfEvict :=
  match s.runs[i]? with
  | some run =>
    if run.started.contains name then
      let afterHook := run.afterHook.call name
      let s : SelfEvict :=
        { s with runs := s.runs.set i { run with afterHook := afterHook } }
      if afterHook.expired then s.nextTick (.hooksDone run.type) else s
    else s
  | none => s

/-- `err` is what the callback of a ping is called with. -/
def afterPing (s : SelfEvict) (i : ℕ) (eviction : Eviction) (ping : ℕ) (err : Option Str) :
    SelfEvict :=
  let pinged := eviction.pinged.call ping
  let s : SelfEvict := { s with
    evictions := s.evictions.set i { eviction with pinged := pinged }
    phases := if err.isSome then s.phases else s.phases.modify eviction.phase fun phase =>
      { phase with numberOfSuccessfulPings := phase.numberOfSuccessfulPings.map (· + 1) } }
  if pinged.expired then s.nextTick .postEvict else s

/-- Every ping is answered once. -/
def onPing (s : SelfEvict) (i : ℕ) (ping : ℕ) (res : Response) (listed : ListedMembers) :
    SelfEvict :=
  match s.evictions[i]? with
  | some eviction =>
    if ping ∈ eviction.pinged.parties ∧ ping ∉ eviction.pinged.reported ++ eviction.broken then
      match (PingSender.onPing listed res).1 with
      | .throws =>
        { s with evictions :=
            s.evictions.set i { eviction with broken := eviction.broken ++ [ping] } }
      | .callsBack err => s.afterPing i eviction ping err
    else s
  | none => s

/-- The tasks may run in any order. -/
def step (s : SelfEvict) : SelfEvictEvent → SelfEvict
  | .initiate now => s.initiate now
  | .tick task ringpop =>
    if s.ticks.contains task then
      { s with ticks := s.ticks.erase task }.perform ringpop task
    else s
  | .hookDone run name => s.hookDone run name
  | .onPing eviction ping res listed => s.onPing eviction ping res listed

/-- A hook that completes has not completed before in its run, and a ping that is answered calls
back. -/
def callsBackOnce (s : SelfEvict) : SelfEvictEvent → Bool
  | .hookDone run name => !(s.runs[run]?.any fun run => run.afterHook.reported.contains name)
  | .onPing _ _ res listed => !PingSender.breaks listed res
  | _ => true

def phaseNames (s : SelfEvict) : List PhaseName := s.phases.map Phase.phase

/-- A hook has called back. -/
def Completed (s : SelfEvict) (type : HookType) (name : Str) : Prop :=
  ∃ run ∈ s.runs, run.type = type ∧ name ∈ run.afterHook.reported

/-- The arguments with which a callback was called. -/
def calls (s : SelfEvict) (initiate : ℕ) : List (Option RingpopIsAlreadyShuttingDownError) :=
  (s.callbacks.filter fun call => call.1 = initiate).map Prod.snd

/-- No task is left, the hooks that were called have called back, and the pings are answered. -/
structure Settled (s : SelfEvict) : Prop where
  ticks : s.ticks = []
  hooks : ∀ run ∈ s.runs, run.started ⊆ run.afterHook.reported
  pings : ∀ eviction ∈ s.evictions,
    eviction.pinged.parties ⊆ eviction.pinged.reported ++ eviction.broken

/-- The phases come once and in order, and everybody who asked is answered once. -/
structure InOrder (s : SelfEvict) : Prop where
  phases : s.phaseNames <+: [.preEvict, .evicting, .postEvict, .done]
  evicting : .evicting ∈ s.phaseNames →
    ∀ name ∈ s.hookNames .preEvict, s.Completed .preEvict name
  done : .done ∈ s.phaseNames → ∀ name ∈ s.hookNames .postEvict, s.Completed .postEvict name
  localStatus : s.localStatus = if .evicting ∈ s.phaseNames then [.faulty] else []
  callback : s.calls 0 = if .done ∈ s.phaseNames then [none] else []
  refused : ∀ initiate, 0 < initiate → initiate < s.initiated →
    ∃ error, s.calls initiate = [some error]
  settled : 0 < s.initiated → s.Settled → .done ∈ s.phaseNames

end SelfEvict
end Ringpop.Members
