import Ringpop.JsString
import Ringpop.Runs
import Mathlib.Algebra.Order.Floor.Ring
import Mathlib.Data.Rat.Floor
import Mathlib.Tactic.Positivity
import Mathlib.Tactic.Linarith

/-! `lib/backoff.js` and the discover provider that retries with it. -/
namespace Ringpop.Discovery
open JsString

/-- An option that is missing is `none`. -/
structure BackoffOptions where
  minDelay : Option ℕ := none
  maxDelay : Option ℕ := none
  retries : Option ℕ := none
  timeout : Option ℤ := none

structure Backoff where
  minDelay : ℕ
  maxDelay : ℕ
  retries : Option ℕ
  timeout : Option ℤ
  attempt : ℕ
  firstTry : Option ℤ
  minDelay_pos : 0 < minDelay
  maxDelay_pos : 0 < maxDelay

inductive BackoffError where
  | maxRetriesReached (retries attempt : ℕ)
  | retryTimedOut (timeout duration : ℤ)
deriving DecidableEq

/-- What `retry` reads: the clock for the first try and for the duration, and a draw. -/
structure Reading where
  first : ℤ
  now : ℤ
  random : ℚ
  random_nonneg : 0 ≤ random
  random_lt : random < 1

/-- `value || default`. -/
def orDefault (value : Option ℕ) (default : ℕ) : ℕ :=
  if value.getD 0 = 0 then default else value.getD 0

theorem orDefault_pos (value : Option ℕ) {default : ℕ} (pos : 0 < default) :
    0 < orDefault value default := by
  unfold orDefault
  split
  · exact pos
  · omega

namespace Backoff

def new (opts : BackoffOptions) : Backoff where
  minDelay := orDefault opts.minDelay 500
  maxDelay := orDefault opts.maxDelay 15000
  retries := opts.retries
  timeout := opts.timeout
  attempt := 0
  firstTry := none
  minDelay_pos := orDefault_pos _ (by decide)
  maxDelay_pos := orDefault_pos _ (by decide)

def delay (b : Backoff) (random : ℚ) : ℤ :=
  let minDelay : ℤ := b.minDelay * 2 ^ b.attempt
  let withFuzz := ⌊random * (minDelay * (1 / 2 : ℚ))⌋ + minDelay
  min b.maxDelay withFuzz

/-- `firstTry`, which the first `retry` sets. -/
def start (b : Backoff) (reading : Reading) : ℤ :=
  if b.firstTry.getD 0 = 0 then reading.first else b.firstTry.getD 0

/-- The delay after which the callback is called, or the error that it is called with. -/
def retry (b : Backoff) (reading : Reading) : Backoff × Except BackoffError ℤ :=
  let firstTry := b.start reading
  let b := { b with firstTry := some firstTry }
  if b.retries.any (· ≤ b.attempt) then
    (b, .error (.maxRetriesReached (b.retries.getD 0) b.attempt))
  else
    let duration := reading.now - firstTry
    if b.timeout.any (· < duration) then
      (b, .error (.retryTimedOut (b.timeout.getD 0) duration))
    else (b, .ok (b.delay reading.random))

/-- The least of all delays. -/
def leastDelay (b : Backoff) : ℕ := min b.minDelay b.maxDelay

theorem leastDelay_pos (b : Backoff) : 0 < b.leastDelay := lt_min b.minDelay_pos b.maxDelay_pos

/-- The delay doubles with each attempt until it is as long as it may get, and is at most half
as long again. -/
theorem delay_bounds (b : Backoff) {random : ℚ} (nonneg : 0 ≤ random) (lt : random < 1) :
    min (b.maxDelay : ℤ) (b.minDelay * 2 ^ b.attempt) ≤ b.delay random ∧
      b.delay random ≤ b.maxDelay ∧ 2 * b.delay random ≤ 3 * (b.minDelay * 2 ^ b.attempt) := by
  have pos : (0 : ℤ) < b.minDelay * 2 ^ b.attempt := by
    have := b.minDelay_pos
    positivity
  rw [delay]
  generalize (b.minDelay * 2 ^ b.attempt : ℤ) = least at pos ⊢
  have half : (0 : ℚ) < least * (1 / 2) := by
    have : (0 : ℚ) < least := by exact_mod_cast pos
    linarith
  have fuzz : 0 ≤ ⌊random * (least * (1 / 2 : ℚ))⌋ :=
    Int.floor_nonneg.mpr (mul_nonneg nonneg half.le)
  have most : 2 * ⌊random * (least * (1 / 2 : ℚ))⌋ ≤ least := by
    have below : (⌊random * (least * (1 / 2 : ℚ))⌋ : ℚ) ≤ least * (1 / 2) :=
      (Int.floor_le _).trans (by nlinarith)
    have twice : (2 * ⌊random * (least * (1 / 2 : ℚ))⌋ : ℚ) ≤ least := by linarith
    exact_mod_cast twice
  refine ⟨min_le_min_left _ (by linarith), min_le_left _ _, ?_⟩
  have := min_le_right (b.maxDelay : ℤ) (⌊random * (least * (1 / 2 : ℚ))⌋ + least)
  linarith

theorem leastDelay_le (b : Backoff) {random : ℚ} (nonneg : 0 ≤ random) (lt : random < 1) :
    (b.leastDelay : ℤ) ≤ b.delay random := by
  refine le_trans ?_ (b.delay_bounds nonneg lt).1
  have grows : (b.minDelay : ℤ) ≤ b.minDelay * 2 ^ b.attempt :=
    le_mul_of_one_le_right (Int.natCast_nonneg _) (one_le_pow₀ (by norm_num))
  rw [leastDelay, Nat.cast_min, min_comm]
  exact min_le_min_left _ grows

theorem retry_fst (b : Backoff) (reading : Reading) :
    (b.retry reading).1 = { b with firstTry := some (b.start reading) } := by
  simp only [retry]
  split
  · rfl
  · split <;> rfl

/-- What the result of `retry` says about the retries and the time that are left. -/
theorem retry_snd (b : Backoff) (reading : Reading) :
    match (b.retry reading).2 with
    | .error (.maxRetriesReached retries attempt) =>
      b.retries = some retries ∧ retries ≤ b.attempt ∧ attempt = b.attempt
    | .error (.retryTimedOut timeout duration) =>
      b.timeout = some timeout ∧ timeout < duration ∧ duration = reading.now - b.start reading
    | .ok delay => (∀ retries ∈ b.retries, b.attempt < retries) ∧
      (∀ timeout ∈ b.timeout, reading.now - b.start reading ≤ timeout) ∧
      delay = b.delay reading.random := by
  by_cases spent : b.retries.any (· ≤ b.attempt) = true
  · have result : (b.retry reading).2 =
        .error (.maxRetriesReached (b.retries.getD 0) b.attempt) := by
      simp only [retry, if_pos spent]
    obtain ⟨retries, some, le⟩ := (Option.any_eq_true _ _).mp spent
    rw [result]
    exact ⟨by rw [some]; rfl, by rw [some]; exact of_decide_eq_true le, rfl⟩
  · by_cases late : b.timeout.any (· < reading.now - b.start reading) = true
    · have result : (b.retry reading).2 =
          .error (.retryTimedOut (b.timeout.getD 0) (reading.now - b.start reading)) := by
        simp only [retry, if_neg spent, if_pos late]
      obtain ⟨timeout, some, lt⟩ := (Option.any_eq_true _ _).mp late
      rw [result]
      exact ⟨by rw [some]; rfl, by rw [some]; exact of_decide_eq_true lt, rfl⟩
    · simp only [retry, if_neg spent, if_neg late]
      refine ⟨fun retries some => ?_, fun timeout some => ?_, rfl⟩
      · simpa [Option.mem_def.mp some] using spent
      · simpa [Option.mem_def.mp some] using late

end Backoff

/-- What an inner discover provider calls back with; the hosts may be `null`. -/
inductive TryAnswer (ε : Type) where
  | error (err : ε)
  | hosts (hosts : Option (List Str))

inductive DiscoverOutcome (ε : Type) where
  | failed (fail : BackoffError) (lastError : Option ε)
  | found (hosts : List Str)

/-- What a retrying discover provider waits for: its inner provider, the timer of the backoff,
or `setImmediate` with a failure of the backoff or with its own answer. -/
inductive RetryPhase (ε : Type) where
  | trying
  | waiting (delay : ℤ)
  | failing (fail : BackoffError)
  | finishing (outcome : DiscoverOutcome ε)
  | finished

/-- The last three fields are a history: what the inner provider has answered so far, when the
last timer was due, and what the callback was called with. -/
structure RetryingProvider (ε : Type) where
  backoff : Backoff
  lastError : Option ε
  phase : RetryPhase ε
  answers : List (TryAnswer ε)
  due : Option ℤ
  called : List (DiscoverOutcome ε)

inductive RetryEvent (ε : Type) where
  | onTry (answer : TryAnswer ε) (reading : Reading)
  | onTimeout
  | onImmediate

/-- The policy for `opts.retry`, by the options that are given. -/
def retryPolicy (opts : BackoffOptions) : BackoffOptions where
  minDelay := some (opts.minDelay.getD 500)
  maxDelay := some (opts.maxDelay.getD 15000)
  retries := opts.retries
  timeout := some (opts.timeout.getD 60000)

namespace RetryingProvider
variable {ε : Type}

/-- The inner provider is asked at once. -/
def new (opts : BackoffOptions) : RetryingProvider ε :=
  ⟨.new (retryPolicy opts), none, .trying, [], none, []⟩

def onTry (s : RetryingProvider ε) (answer : TryAnswer ε) (reading : Reading) :
    RetryingProvider ε :=
  let s := { s with answers := s.answers ++ [answer] }
  let again (err : Option ε) : RetryingProvider ε :=
    match s.backoff.retry reading with
    | (backoff, .error fail) => { s with lastError := err, backoff, phase := .failing fail }
    | (backoff, .ok delay) =>
      { s with
        lastError := err, backoff, phase := .waiting delay, due := some (reading.now + delay) }
  match answer with
  | .error err => again (some err)
  | .hosts none | .hosts (some []) => again none
  | .hosts (some hosts) => { s with phase := .finishing (.found hosts) }

def onTimeout (s : RetryingProvider ε) : RetryingProvider ε :=
  { s with backoff := { s.backoff with attempt := s.backoff.attempt + 1 }, phase := .trying }

/-- What is not waited for does not happen. -/
def step (s : RetryingProvider ε) (event : RetryEvent ε) : RetryingProvider ε :=
  match s.phase, event with
  | .trying, .onTry answer reading => s.onTry answer reading
  | .waiting _, .onTimeout => s.onTimeout
  | .failing fail, .onImmediate => { s with phase := .finishing (.failed fail s.lastError) }
  | .finishing outcome, .onImmediate =>
    { s with phase := .finished, called := s.called ++ [outcome] }
  | _, _ => s

def run (opts : BackoffOptions) (events : List (RetryEvent ε)) : RetryingProvider ε :=
  events.foldl step (new opts)

/-- How often the inner provider has been asked. -/
def tries (s : RetryingProvider ε) : ℕ :=
  match s.phase with
  | .trying => s.answers.length + 1
  | _ => s.answers.length

end RetryingProvider

/-- No hosts, for one reason or another. -/
def TryAnswer.failed {ε : Type} : TryAnswer ε → Bool
  | error _ | hosts none | hosts (some []) => true
  | hosts (some (_ :: _)) => false

def TryAnswer.err {ε : Type} : TryAnswer ε → Option ε
  | error err => some err
  | hosts _ => none

namespace RetryingProvider
variable {ε : Type} {opts : BackoffOptions} {s : RetryingProvider ε}

/-- An answer that leaves something to be desired is the last error, and then the backoff
decides. -/
theorem onTry_failed {answer : TryAnswer ε} (failed : answer.failed = true) (reading : Reading) :
    s.onTry answer reading =
      match (s.backoff.retry reading).2 with
      | .error fail =>
        { s with
          answers := s.answers ++ [answer], lastError := answer.err
          backoff := { s.backoff with firstTry := some (s.backoff.start reading) }
          phase := .failing fail }
      | .ok delay =>
        { s with
          answers := s.answers ++ [answer], lastError := answer.err
          backoff := { s.backoff with firstTry := some (s.backoff.start reading) }
          phase := .waiting delay, due := some (reading.now + delay) } := by
  have moved := s.backoff.retry_fst reading
  cases result : s.backoff.retry reading with
  | mk backoff outcome =>
    rw [result] at moved
    subst moved
    match answer with
    | .error _ | .hosts none | .hosts (some []) =>
      simp only [onTry, result, TryAnswer.err]
      cases outcome <;> rfl

theorem onTry_found {hosts : List Str} (some : hosts ≠ []) (reading : Reading) :
    s.onTry (.hosts (.some hosts)) reading =
      { s with
        answers := s.answers ++ [.hosts (.some hosts)], phase := .finishing (.found hosts) } := by
  cases hosts with
  | nil => exact absurd rfl some
  | cons => rfl

/-- Why the backoff has given up. -/
def GivesUp (s : RetryingProvider ε) : BackoffError → Prop
  | .maxRetriesReached retries attempt =>
    s.backoff.retries = some retries ∧ attempt = retries ∧ s.answers.length = retries + 1
  | .retryTimedOut timeout duration => s.backoff.timeout = some timeout ∧ timeout < duration

/-- What the callback may be called with. -/
def Explains (s : RetryingProvider ε) : DiscoverOutcome ε → Prop
  | .found hosts => hosts ≠ [] ∧ ∃ before, s.answers = before ++ [.hosts (some hosts)] ∧
      ∀ answer ∈ before, answer.failed = true
  | .failed fail lastError => (∀ answer ∈ s.answers, answer.failed = true) ∧
      (∃ last, s.answers.getLast? = some last ∧ lastError = last.err) ∧ s.GivesUp fail

/-- What holds while a retrying provider is at work. -/
structure Retries (opts : BackoffOptions) (s : RetryingProvider ε) : Prop where
  policy : ∃ attempt firstTry,
    s.backoff = { Backoff.new (retryPolicy opts) with attempt, firstTry }
  allowed : ∀ retries ∈ opts.retries, s.backoff.attempt ≤ retries
  phase : match s.phase with
    | .trying => s.answers.length = s.backoff.attempt ∧ s.called = [] ∧
      ∀ answer ∈ s.answers, answer.failed = true
    | .waiting delay => s.answers.length = s.backoff.attempt + 1 ∧ s.called = [] ∧
      (∀ answer ∈ s.answers, answer.failed = true) ∧
      (∀ retries ∈ opts.retries, s.backoff.attempt < retries) ∧
      min (s.backoff.maxDelay : ℤ) (s.backoff.minDelay * 2 ^ s.backoff.attempt) ≤ delay ∧
      delay ≤ s.backoff.maxDelay
    | .failing fail => s.answers.length = s.backoff.attempt + 1 ∧ s.called = [] ∧
      s.Explains (.failed fail s.lastError)
    | .finishing outcome => s.answers.length = s.backoff.attempt + 1 ∧ s.called = [] ∧
      s.Explains outcome
    | .finished => s.answers.length = s.backoff.attempt + 1 ∧
      ∃ outcome, s.called = [outcome] ∧ s.Explains outcome

theorem retries_new (opts : BackoffOptions) : Retries opts (new opts : RetryingProvider ε) where
  policy := ⟨0, none, rfl⟩
  allowed _ _ := Nat.zero_le _
  phase := ⟨rfl, rfl, List.forall_mem_nil _⟩

theorem Retries.onTry (retries : Retries opts s) (trying : s.phase = .trying)
    (answer : TryAnswer ε) (reading : Reading) : Retries opts (s.onTry answer reading) := by
  obtain ⟨⟨attempt, firstTry, policy⟩, allowed, phase⟩ := retries
  rw [trying] at phase
  obtain ⟨answered, uncalled, before⟩ := phase
  have length : (s.answers ++ [answer]).length = s.backoff.attempt + 1 := by
    rw [List.length_append, answered]
    rfl
  cases failed : answer.failed with
  | false =>
    match answer with
    | .hosts (some (host :: hosts)) =>
      rw [onTry_found (List.cons_ne_nil host hosts)]
      refine ⟨⟨attempt, firstTry, policy⟩, allowed, length, uncalled, ?_⟩
      exact ⟨List.cons_ne_nil host hosts, s.answers, rfl, before⟩
  | true =>
    have all : ∀ a ∈ s.answers ++ [answer], a.failed = true :=
      List.forall_mem_append.mpr ⟨before, List.forall_mem_singleton.mpr failed⟩
    have last : ∃ last, (s.answers ++ [answer]).getLast? = some last ∧ answer.err = last.err :=
      ⟨answer, List.getLast?_concat, rfl⟩
    have result := s.backoff.retry_snd reading
    have same : ∃ attempt firstTry, { s.backoff with firstTry := some (s.backoff.start reading) } =
        { Backoff.new (retryPolicy opts) with attempt, firstTry } :=
      ⟨attempt, some (s.backoff.start reading), by rw [policy]⟩
    rw [onTry_failed failed]
    cases outcome : (s.backoff.retry reading).2 with
    | ok delay =>
      rw [outcome] at result
      obtain ⟨left, -, rfl⟩ := result
      obtain ⟨least, most, -⟩ := s.backoff.delay_bounds reading.random_nonneg reading.random_lt
      have own : s.backoff.retries = opts.retries := by rw [policy]; rfl
      exact ⟨same, allowed, length, uncalled, all, own ▸ left, least, most⟩
    | error fail =>
      rw [outcome] at result
      refine ⟨same, allowed, length, uncalled, all, last, ?_⟩
      cases fail with
      | retryTimedOut timeout duration => exact ⟨result.1, result.2.1⟩
      | maxRetriesReached retries attempt =>
        obtain ⟨some, spent, rfl⟩ := result
        have own : opts.retries = .some retries := by
          rw [← some, policy]
          rfl
        have exactly : s.backoff.attempt = retries := le_antisymm (allowed _ own) spent
        exact ⟨some, exactly, by rw [length, exactly]⟩

theorem Retries.step (retries : Retries opts s) (event : RetryEvent ε) :
    Retries opts (s.step event) := by
  obtain ⟨⟨attempt, firstTry, policy⟩, allowed, phase⟩ := id retries
  cases current : s.phase <;> rw [current] at phase <;> cases event <;>
    simp only [RetryingProvider.step, current] <;> try exact retries
  case trying.onTry answer reading => exact retries.onTry current answer reading
  case waiting.onTimeout delay =>
    obtain ⟨answered, uncalled, before, left, -⟩ := phase
    exact ⟨⟨attempt + 1, firstTry, by rw [RetryingProvider.onTimeout, policy]⟩,
      fun retries some => left retries some, answered, uncalled, before⟩
  case failing.onImmediate fail =>
    obtain ⟨answered, uncalled, explains⟩ := phase
    exact ⟨⟨attempt, firstTry, policy⟩, allowed, answered, uncalled, explains⟩
  case finishing.onImmediate outcome =>
    obtain ⟨answered, uncalled, explains⟩ := phase
    exact ⟨⟨attempt, firstTry, policy⟩, allowed, answered, outcome, by rw [uncalled]; rfl, explains⟩

theorem retries_run (opts : BackoffOptions) (events : List (RetryEvent ε)) :
    Retries opts (run opts events) :=
  Runs.foldl_invariant step (Retries opts) (fun _ event retries => retries.step event)
    (retries_new opts) events

theorem Retries.tries_eq (retries : Retries opts s) : s.tries = s.backoff.attempt + 1 := by
  have phase := retries.phase
  rw [tries]
  cases current : s.phase <;> rw [current] at phase <;> simp only [phase.1]

theorem Retries.called_cases (retries : Retries opts s) :
    s.called = [] ∨ ∃ outcome, s.called = [outcome] ∧ s.Explains outcome := by
  have phase := retries.phase
  cases current : s.phase <;> rw [current] at phase
  case finished => exact .inr phase.2
  all_goals exact .inl phase.2.1

/-- The callback is called at most once: with the hosts that the last try found, after tries
that found none, or with the reason of the backoff and the error of the last try. There is one
try more than retries are allowed, at most, and between them the delay doubles up to its limit. -/
theorem run_calls_back (opts : BackoffOptions) (events : List (RetryEvent ε)) :
    let s := run opts events
    s.called.length ≤ 1 ∧ (∀ outcome ∈ s.called, s.Explains outcome) ∧
      (∀ retries ∈ opts.retries, s.tries ≤ retries + 1) ∧
      ∀ delay, s.phase = .waiting delay →
        min (s.backoff.maxDelay : ℤ) (s.backoff.minDelay * 2 ^ (s.tries - 1)) ≤ delay ∧
          delay ≤ s.backoff.maxDelay := by
  intro s
  have retries : Retries opts s := retries_run opts events
  have count := retries.tries_eq
  refine ⟨?_, ?_, fun allowed some => ?_, fun delay waiting => ?_⟩
  · rcases retries.called_cases with none | ⟨outcome, once, -⟩
    · exact none ▸ Nat.zero_le 1
    · exact once ▸ Nat.le_refl 1
  · rcases retries.called_cases with none | ⟨outcome, once, explains⟩
    · exact none ▸ List.forall_mem_nil _
    · exact once ▸ List.forall_mem_singleton.mpr explains
  · rw [count]
    exact Nat.succ_le_succ (retries.allowed allowed some)
  · have phase := retries.phase
    rw [waiting] at phase
    obtain ⟨-, -, -, -, bounds⟩ := phase
    rwa [count, Nat.add_sub_cancel]

/-- The event is waited for. -/
def Enabled (s : RetryingProvider ε) (event : RetryEvent ε) : Prop :=
  match s.phase, event with
  | .trying, .onTry _ _ | .waiting _, .onTimeout | .failing _, .onImmediate
  | .finishing _, .onImmediate => True
  | _, _ => False

/-- The clock has started, does not go back, and no timer has fired before it was due. -/
def Timely (s : RetryingProvider ε) : RetryEvent ε → Prop
  | .onTry _ reading =>
    0 < reading.first ∧ reading.first ≤ reading.now ∧ ∀ due ∈ s.due, due ≤ reading.now
  | .onTimeout | .onImmediate => True

/-- How many timers have been set. -/
def waits (s : RetryingProvider ε) : ℕ :=
  match s.phase with
  | .waiting _ => s.backoff.attempt + 1
  | _ => s.backoff.attempt

/-- How many events it takes to get to a phase. -/
def progress (s : RetryingProvider ε) : ℕ :=
  2 * s.backoff.attempt +
    match s.phase with
    | .trying => 0
    | .waiting _ | .failing _ => 1
    | .finishing _ => 2
    | .finished => 3

def timeLimit (opts : BackoffOptions) : ℤ := opts.timeout.getD 60000

def leastDelay (opts : BackoffOptions) : ℕ := (Backoff.new (retryPolicy opts)).leastDelay

/-- Every wait has taken its time, and none was begun too late. -/
structure Paced (opts : BackoffOptions) (s : RetryingProvider ε) : Prop where
  policy : ∃ attempt firstTry,
    s.backoff = { Backoff.new (retryPolicy opts) with attempt, firstTry }
  spent : s.waits = 0 ∨ (leastDelay opts : ℤ) * (s.waits - 1 : ℕ) ≤ timeLimit opts
  due : ∀ due ∈ s.due, ∃ first, s.backoff.firstTry = some first ∧ 0 < first ∧
    first + leastDelay opts * s.waits ≤ due
  unset : s.due = none → s.waits = 0 ∧ ∀ delay, s.phase ≠ .waiting delay
  fresh : s.due = none → s.phase = .trying → s.backoff.firstTry = none

theorem paced_new (opts : BackoffOptions) : Paced opts (new opts : RetryingProvider ε) where
  policy := ⟨0, none, rfl⟩
  spent := .inl rfl
  due _ none := by cases none
  unset _ := ⟨rfl, nofun⟩
  fresh _ _ := rfl

/-- The first try was as long ago as all the waits since have taken. -/
theorem Paced.start_le (paced : Paced opts s) (trying : s.phase = .trying)
    {answer : TryAnswer ε} {reading : Reading} (timely : s.Timely (.onTry answer reading)) :
    0 < s.backoff.start reading ∧
      s.backoff.start reading + leastDelay opts * s.backoff.attempt ≤ reading.now := by
  obtain ⟨pos, forward, late⟩ := timely
  have waited : s.waits = s.backoff.attempt := by rw [waits, trying]
  cases due : s.due with
  | none =>
    have none := (paced.unset due).1
    rw [Backoff.start, paced.fresh due trying, ← waited, none]
    simpa using ⟨pos, forward⟩
  | some time =>
    obtain ⟨first, known, positive, spaced⟩ := paced.due time due
    have same : s.backoff.start reading = first := by
      rw [Backoff.start, known, Option.getD_some, if_neg positive.ne']
    rw [same, ← waited]
    exact ⟨positive, spaced.trans (late time due)⟩

theorem Paced.onTry (paced : Paced opts s) (trying : s.phase = .trying) {answer : TryAnswer ε}
    {reading : Reading} (timely : s.Timely (.onTry answer reading)) :
    Paced opts (s.onTry answer reading) := by
  obtain ⟨positive, spaced⟩ := paced.start_le trying timely
  obtain ⟨⟨attempt, firstTry, policy⟩, spent, due, unset, fresh⟩ := paced
  have waited : s.waits = s.backoff.attempt := by rw [waits, trying]
  rw [waited] at spent due unset
  cases failed : answer.failed with
  | false =>
    match answer with
    | .hosts (some (host :: hosts)) =>
      rw [onTry_found (List.cons_ne_nil host hosts)]
      exact ⟨⟨attempt, firstTry, policy⟩, spent, due, fun none => ⟨(unset none).1, nofun⟩, nofun⟩
  | true =>
    have same : ∃ attempt firstTry, { s.backoff with firstTry := some (s.backoff.start reading) } =
        { Backoff.new (retryPolicy opts) with attempt, firstTry } :=
      ⟨attempt, some (s.backoff.start reading), by rw [policy]⟩
    have result := s.backoff.retry_snd reading
    rw [onTry_failed failed]
    cases outcome : (s.backoff.retry reading).2 with
    | error fail =>
      refine ⟨same, spent, fun time set => ?_, fun none => ⟨(unset none).1, nofun⟩, nofun⟩
      obtain ⟨first, known, pos, le⟩ := due time set
      have start : s.backoff.start reading = first := by
        rw [Backoff.start, known, Option.getD_some, if_neg pos.ne']
      exact ⟨first, congrArg some start, pos, le⟩
    | ok delay =>
      rw [outcome] at result
      obtain ⟨-, inTime, rfl⟩ := result
      have limit : s.backoff.timeout = some (timeLimit opts) := by rw [policy]; rfl
      have soon := inTime _ limit
      have least : (leastDelay opts : ℤ) ≤ s.backoff.delay reading.random := by
        have bound := s.backoff.leastDelay_le reading.random_nonneg reading.random_lt
        have own : s.backoff.leastDelay = leastDelay opts := by rw [policy]; rfl
        rwa [own] at bound
      refine ⟨same, .inr ?_, fun time set => ?_, nofun, nofun⟩
      · change (leastDelay opts : ℤ) * (s.backoff.attempt + 1 - 1 : ℕ) ≤ timeLimit opts
        rw [Nat.add_sub_cancel]
        linarith
      · obtain rfl : reading.now + s.backoff.delay reading.random = time := Option.some.inj set
        refine ⟨_, rfl, positive, ?_⟩
        change _ + (leastDelay opts : ℤ) * (s.backoff.attempt + 1 : ℕ) ≤ _
        push_cast
        linarith

theorem Paced.step (paced : Paced opts s) {event : RetryEvent ε}
    (next : s.Enabled event ∧ s.Timely event) : Paced opts (s.step event) := by
  obtain ⟨enabled, timely⟩ := next
  cases current : s.phase <;> cases event <;>
    simp only [Enabled, current] at enabled <;> simp only [RetryingProvider.step, current]
  case trying.onTry answer reading => exact paced.onTry current timely
  case waiting.onTimeout delay =>
    obtain ⟨⟨attempt, firstTry, policy⟩, spent, due, unset, fresh⟩ := paced
    have waited : s.waits = s.backoff.attempt + 1 := by rw [waits, current]
    rw [waited] at spent due
    have set (none : s.due = none) : False := (unset none).2 delay current
    exact ⟨⟨attempt + 1, firstTry, by rw [RetryingProvider.onTimeout, policy]⟩, spent, due,
      fun none => (set none).elim, fun none => (set none).elim⟩
  case failing.onImmediate | finishing.onImmediate =>
    obtain ⟨policy, spent, due, unset, fresh⟩ := paced
    have waited : s.waits = s.backoff.attempt := by rw [waits, current]
    rw [waited] at spent due unset
    exact ⟨policy, spent, due, fun none => ⟨(unset none).1, nofun⟩, nofun⟩

theorem Enabled.progress {event : RetryEvent ε} (enabled : s.Enabled event) :
    s.progress + 1 ≤ (s.step event).progress := by
  cases current : s.phase <;> cases event <;>
    simp only [Enabled, current] at enabled <;> simp only [RetryingProvider.step, current]
  case trying.onTry answer reading =>
    cases failed : answer.failed with
    | false =>
      match answer with
      | .hosts (some (host :: hosts)) =>
        rw [onTry_found (List.cons_ne_nil host hosts)]
        simp only [RetryingProvider.progress, current]
        omega
    | true =>
      rw [onTry_failed failed]
      split <;> simp only [RetryingProvider.progress, current, Nat.add_zero, Nat.le_refl]
  case waiting.onTimeout =>
    simp only [RetryingProvider.progress, RetryingProvider.onTimeout, current]
    omega
  case failing.onImmediate | finishing.onImmediate =>
    simp only [RetryingProvider.progress, current]
    omega

theorem Paced.attempt_le (paced : Paced opts s) :
    s.backoff.attempt ≤ (timeLimit opts).toNat / leastDelay opts + 1 := by
  have least : 0 < leastDelay opts := Backoff.leastDelay_pos _
  have waited : s.backoff.attempt ≤ s.waits := by
    rw [waits]
    split <;> omega
  rcases paced.spent with none | spent
  · exact (waited.trans none.le).trans (Nat.zero_le _)
  · have enough : leastDelay opts * (s.waits - 1) ≤ (timeLimit opts).toNat := by
      have cast : ((leastDelay opts * (s.waits - 1) : ℕ) : ℤ) ≤ timeLimit opts := by
        rwa [Nat.cast_mul]
      exact Int.toNat_le_toNat cast
    have bound := (Nat.le_div_iff_mul_le least).mpr ((Nat.mul_comm _ _).trans_le enough)
    omega

/-- If the clock goes forward and no timer fires too early, every try is answered in the end:
there are so many events, and when no more is waited for, the callback has been called once. -/
theorem run_ends (opts : BackoffOptions) {events : List (RetryEvent ε)}
    (timely : Runs.Throughout step (fun s event => s.Enabled event ∧ s.Timely event)
      (new opts) events) :
    let s := run opts events
    events.length ≤ 2 * ((timeLimit opts).toNat / leastDelay opts) + 5 ∧
      ((∀ event, ¬ s.Enabled event) → s.called.length = 1) := by
  intro s
  have paced : Paced opts s :=
    timely.foldl_invariant (Paced opts) (fun _ _ paced next => paced.step next) (paced_new opts)
  have counted (s : RetryingProvider ε) (events : List (RetryEvent ε))
      (timely : Runs.Throughout step (fun s event => s.Enabled event ∧ s.Timely event) s events) :
      s.progress + events.length ≤ (events.foldl step s).progress := by
    induction events generalizing s with
    | nil => exact Nat.le_refl _
    | cons event events ih =>
      have one := timely.1.1.progress
      have rest := ih _ timely.2
      rw [List.length_cons, List.foldl_cons]
      omega
  refine ⟨?_, fun stuck => ?_⟩
  · have all := counted _ _ timely
    have most : s.progress ≤ 2 * s.backoff.attempt + 3 := by
      rw [progress]
      split <;> omega
    have few := paced.attempt_le
    have whole : (events.foldl step (new opts)).progress = s.progress := rfl
    omega
  · have phase := (retries_run opts events).phase
    cases current : (run opts events).phase with
    | trying =>
      have reading : Reading := ⟨0, 0, 0, le_rfl, one_pos⟩
      exact absurd (by simp [Enabled, s, current]) (stuck (.onTry (.hosts none) reading))
    | waiting => exact absurd (by simp [Enabled, s, current]) (stuck .onTimeout)
    | failing | finishing => exact absurd (by simp [Enabled, s, current]) (stuck .onImmediate)
    | finished =>
      rw [current] at phase
      obtain ⟨-, outcome, once, -⟩ := phase
      exact congrArg List.length once

theorem run_ends_exhausted :
    let opts : BackoffOptions := { retries := some 1 }
    let first : Reading := ⟨1, 1, 0, le_rfl, one_pos⟩
    let second : Reading := ⟨20000, 20000, 0, le_rfl, one_pos⟩
    let events : List (RetryEvent Unit) := [.onTry (.error ()) first, .onTimeout,
      .onTry (.hosts none) second, .onImmediate, .onImmediate]
    events.length ≤ 2 * ((timeLimit opts).toNat / leastDelay opts) + 5 ∧
      (run opts events).called.length = 1 := by
  intro opts first second events
  have due : ∀ due ∈ ((((new opts : RetryingProvider Unit).step (.onTry (.error ()) first)).step
      .onTimeout)).due, due ≤ 20000 := by
    rintro _ ⟨⟩
    have most := (Backoff.delay_bounds { Backoff.new (retryPolicy opts) with firstTry := some 1 }
      first.random_nonneg first.random_lt).2.1
    exact (Int.add_le_add_left most 1).trans (by decide)
  have ended := @run_ends Unit opts events
    ⟨⟨trivial, by decide, by decide, nofun⟩, ⟨trivial, trivial⟩,
      ⟨trivial, by decide, by decide, due⟩, ⟨trivial, trivial⟩, ⟨trivial, trivial⟩, trivial⟩
  exact ⟨ended.1, ended.2 fun event => by cases event <;> exact id⟩

end RetryingProvider
end Ringpop.Discovery
