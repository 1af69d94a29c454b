import Ringpop.Member
import Ringpop.TimerQueue
import Ringpop.Runs

/-! The rollup of membership updates: they are buffered by address and logged together, when
none has come for a while. -/
namespace Ringpop.Members
open Dictionary

/-- Updates by address, each with the time at which it was tracked. -/
abbrev UpdateBuffer := Dict Address (List (Update × ℤ))

/-- What is logged of a buffer that is flushed. -/
structure FlushLog where
  sinceFirstUpdate : Option ℤ
  sinceLastFlush : Option ℤ
  numUpdates : ℕ
  updates : Option UpdateBuffer

structure MembershipUpdateRollup where
  buffer : UpdateBuffer
  firstUpdateTime : Option ℤ
  lastFlushTime : Option ℤ
  lastUpdateTime : Option ℤ
  flushTimer : Option ℕ
  timers : TimerQueue Unit
  /-- Every buffer that was flushed, with its line in the log. -/
  flushed : List (UpdateBuffer × FlushLog)

structure RollupOptions where
  flushInterval : ℤ
  maxNumUpdates : ℕ := 250

/-- What `Date.now()` returns in the course of one `trackUpdates`. -/
structure RollupClock where
  update : ℤ
  flush : ℤ
  first : ℤ
  ts : ℤ
  last : ℤ

namespace UpdateBuffer

/-- The updates of one address. -/
def of (buffer : UpdateBuffer) (a : Address) : List (Update × ℤ) := (buffer.get a).getD []

def push (buffer : UpdateBuffer) (update : Update × ℤ) : UpdateBuffer :=
  buffer.set update.1.address (of buffer update.1.address ++ [update])

def getNumUpdates (buffer : UpdateBuffer) : ℕ :=
  buffer.keys.foldl (fun total key => total + (of buffer key).length) 0

end UpdateBuffer

namespace MembershipUpdateRollup
open UpdateBuffer

def new : MembershipUpdateRollup := ⟨.empty, none, none, none, none, .empty, []⟩

/-- `time && (now - since)`. -/
def elapsed (time : Option ℤ) (duration : ℤ → ℤ) : Option ℤ :=
  time.map fun t => if t = 0 then 0 else duration t

def flushBuffer (options : RollupOptions) (r : MembershipUpdateRollup) (now : ℤ) :
    MembershipUpdateRollup :=
  if r.buffer.keys = [] then r
  else
    let numUpdates := getNumUpdates r.buffer
    let log : FlushLog :=
      { sinceFirstUpdate := elapsed r.lastUpdateTime fun last => last - r.firstUpdateTime.getD 0
        sinceLastFlush := elapsed r.lastFlushTime fun flush => now - flush
        numUpdates
        updates := if numUpdates < options.maxNumUpdates then some r.buffer else none }
    { r with
      buffer := .empty
      firstUpdateTime := none
      lastUpdateTime := none
      lastFlushTime := some now
      flushed := r.flushed ++ [(r.buffer, log)] }

def clearFlushTimer (r : MembershipUpdateRollup) : MembershipUpdateRollup :=
  match r.flushTimer with
  | none => r
  | some timer => { r with timers := r.timers.clearTimeout timer }

def destroy (r : MembershipUpdateRollup) : MembershipUpdateRollup := r.clearFlushTimer

def renewFlushTimer (r : MembershipUpdateRollup) : MembershipUpdateRollup :=
  let r := r.clearFlushTimer
  { r with flushTimer := some r.timers.next, timers := r.timers.setTimeout () }

def addUpdates (r : MembershipUpdateRollup) (updates : List Update) (ts : ℤ) :
    MembershipUpdateRollup :=
  { r with buffer := (updates.map fun update => (update, ts)).foldl push r.buffer }

/-- What is not an array is `none`. -/
def trackUpdates (options : RollupOptions) (r : MembershipUpdateRollup) (clock : RollupClock) :
    Option (List Update) → MembershipUpdateRollup
  | none | some [] => r
  | some updates =>
    let sinceLastUpdate := clock.update - r.lastUpdateTime.getD 0
    let r := if options.flushInterval ≤ sinceLastUpdate then r.flushBuffer options clock.flush
      else r
    let r := if r.firstUpdateTime.getD 0 = 0 then { r with firstUpdateTime := some clock.first }
      else r
    let r := r.renewFlushTimer.addUpdates updates clock.ts
    { r with lastUpdateTime := some clock.last }

end MembershipUpdateRollup

inductive RollupEvent where
  | trackUpdates (updates : Option (List Update)) (clock : RollupClock)
  | flushBuffer (now : ℤ)
  | fire (timer : ℕ) (now : ℤ)
  | destroy

/-- The updates that an event brings, as they are to be buffered. -/
def RollupEvent.tracks : RollupEvent → List (Update × ℤ)
  | trackUpdates (some updates) clock => updates.map fun update => (update, clock.ts)
  | trackUpdates none _ | flushBuffer _ | fire _ _ | destroy => []

namespace MembershipUpdateRollup
open UpdateBuffer
variable (options : RollupOptions)

def step (r : MembershipUpdateRollup) : RollupEvent → MembershipUpdateRollup
  | .trackUpdates updates clock => r.trackUpdates options clock updates
  | .flushBuffer now => r.flushBuffer options now
  | .fire timer now =>
    match r.timers.callback timer with
    | none => r
    | some _ => { r with timers := r.timers.clearTimeout timer }.flushBuffer options now
  | .destroy => r.destroy

def run (events : List RollupEvent) : MembershipUpdateRollup :=
  events.foldl (step options) new

end MembershipUpdateRollup

namespace UpdateBuffer
variable (buffer : UpdateBuffer) (update : Update × ℤ)

theorem of_push (a : Address) :
    of (push buffer update) a =
      of buffer a ++ [update].filter fun u => u.1.address = a := by
  rw [of, push, Dict.get_set]
  by_cases here : a = update.1.address
  · subst here
    simp
  · simp [here, Ne.symm here, of]

theorem of_foldl_push (updates : List (Update × ℤ)) (a : Address) :
    of (updates.foldl push buffer) a =
      of buffer a ++ updates.filter fun u => u.1.address = a := by
  induction updates generalizing buffer with
  | nil => simp
  | cons update updates ih =>
    rw [List.foldl_cons, ih, of_push, List.append_assoc, ← List.filter_append,
      List.singleton_append]

theorem getNumUpdates_eq :
    getNumUpdates buffer = (buffer.keys.map fun key => (of buffer key).length).sum := by
  rw [getNumUpdates, List.sum_eq_foldl, List.foldl_map]

/-- One more in one place is one more in all. -/
theorem sum_map_succ {α : Type} [DecidableEq α] (f : α → ℕ) (here : α) {keys : List α}
    (nodup : keys.Nodup) (listed : here ∈ keys) :
    (keys.map fun key => if key = here then f key + 1 else f key).sum = (keys.map f).sum + 1 := by
  induction keys with
  | nil => cases listed
  | cons key keys ih =>
    obtain ⟨fresh, nodup⟩ := List.nodup_cons.mp nodup
    simp only [List.map_cons, List.sum_cons]
    by_cases same : key = here
    · subst same
      have rest : keys.map (fun k => if k = key then f k + 1 else f k) = keys.map f :=
        List.map_congr_left fun k hk => if_neg fun equal : k = key => fresh (equal ▸ hk)
      rw [if_pos rfl, rest]
      omega
    · have later : here ∈ keys := (List.mem_cons.mp listed).resolve_left (Ne.symm same)
      rw [if_neg same, ih nodup later]
      omega

theorem getNumUpdates_push : getNumUpdates (push buffer update) = getNumUpdates buffer + 1 := by
  have grown (key : Address) : (of (push buffer update) key).length =
      if key = update.1.address then (of buffer key).length + 1 else (of buffer key).length := by
    rw [of_push]
    by_cases here : key = update.1.address
    · simp [here]
    · simp [here, Ne.symm here]
  rw [getNumUpdates_eq, getNumUpdates_eq, List.map_congr_left fun key _ => grown key]
  by_cases known : update.1.address ∈ buffer.keys
  · have keys : (push buffer update).keys = buffer.keys := Dict.keys_set_of_mem known
    rw [keys, sum_map_succ _ _ buffer.nodup_keys known]
  · have keys : (push buffer update).keys = buffer.keys ++ [update.1.address] :=
      Dict.keys_set_of_not_mem known
    have empty : of buffer update.1.address = [] := by
      rw [of, Option.not_isSome_iff_eq_none.mp fun h => known (Dict.mem_keys.mpr h)]
      rfl
    have others : buffer.keys.map (fun key => if key = update.1.address
        then (of buffer key).length + 1 else (of buffer key).length) =
        buffer.keys.map fun key => (of buffer key).length :=
      List.map_congr_left fun key hk =>
        if_neg fun equal : key = update.1.address => known (equal ▸ hk)
    simp [keys, others, empty]

theorem getNumUpdates_foldl_push (updates : List (Update × ℤ)) :
    getNumUpdates (updates.foldl push buffer) = getNumUpdates buffer + updates.length := by
  induction updates generalizing buffer with
  | nil => rfl
  | cons update updates ih =>
    rw [List.foldl_cons, ih, getNumUpdates_push, List.length_cons]
    omega

end UpdateBuffer

namespace MembershipUpdateRollup
open UpdateBuffer
variable {options : RollupOptions} {r : MembershipUpdateRollup}

/-- All that was tracked is in the buffer or has been flushed, once and in order, and the log
tells how much. -/
structure Accounts (options : RollupOptions) (tracked : List (Update × ℤ))
    (r : MembershipUpdateRollup) : Prop where
  all : ∀ a, r.flushed.flatMap (fun f => of f.1 a) ++ of r.buffer a =
    tracked.filter fun u => u.1.address = a
  count : (r.flushed.map fun f => f.2.numUpdates).sum + getNumUpdates r.buffer = tracked.length
  logged : ∀ f ∈ r.flushed, f.1.keys ≠ [] ∧ f.2.numUpdates = getNumUpdates f.1 ∧
    f.2.updates = if f.2.numUpdates < options.maxNumUpdates then some f.1 else none
  timers : ∀ timer, (r.timers.callback timer).isSome → r.flushTimer = some timer

/-- What is buffered is going to be flushed. -/
def Armed (r : MembershipUpdateRollup) : Prop :=
  r.buffer.keys ≠ [] → ∃ timer, r.flushTimer = some timer ∧ (r.timers.callback timer).isSome

variable {tracked : List (Update × ℤ)}

theorem Accounts.flushBuffer (accounts : Accounts options tracked r) (now : ℤ) :
    Accounts options tracked (r.flushBuffer options now) := by
  unfold MembershipUpdateRollup.flushBuffer
  split
  case isTrue => exact accounts
  case isFalse filled =>
    refine ⟨fun a => ?_, ?_, ?_, accounts.timers⟩
    · rw [← accounts.all a, List.flatMap_append]
      simp [of]
    · rw [← accounts.count, List.map_append, List.sum_append]
      rfl
    · exact List.forall_mem_append.mpr
        ⟨accounts.logged, List.forall_mem_singleton.mpr ⟨filled, rfl, rfl⟩⟩

theorem Accounts.clearTimeout (accounts : Accounts options tracked r) (timer : ℕ) :
    Accounts options tracked { r with timers := r.timers.clearTimeout timer } :=
  { accounts with
    timers := fun other pending => accounts.timers other <| by
      obtain ⟨_, found⟩ := Option.isSome_iff_exists.mp pending
      exact Option.isSome_iff_exists.mpr ⟨_, (TimerQueue.callback_of_clearTimeout found).2⟩ }

theorem Accounts.clearFlushTimer (accounts : Accounts options tracked r) :
    Accounts options tracked r.clearFlushTimer := by
  unfold MembershipUpdateRollup.clearFlushTimer
  split
  case h_1 => exact accounts
  case h_2 timer _ => exact accounts.clearTimeout timer

/-- No timer is left behind. -/
theorem Accounts.idle (accounts : Accounts options tracked r) (timer : ℕ) :
    r.clearFlushTimer.timers.callback timer = none := by
  unfold MembershipUpdateRollup.clearFlushTimer
  split
  case h_1 none =>
    refine Option.not_isSome_iff_eq_none.mp fun pending => ?_
    cases none.symm.trans (accounts.timers timer pending)
  case h_2 own current =>
    rw [TimerQueue.callback_clearTimeout]
    split
    case isTrue => rfl
    case isFalse other =>
      refine Option.not_isSome_iff_eq_none.mp fun pending => ?_
      exact other (Option.some.inj ((accounts.timers timer pending).symm.trans current))

theorem Accounts.renewFlushTimer (accounts : Accounts options tracked r) :
    Accounts options tracked r.renewFlushTimer :=
  { accounts.clearFlushTimer with
    timers := fun timer pending => by
      obtain ⟨_, found⟩ := Option.isSome_iff_exists.mp pending
      rcases TimerQueue.callback_of_setTimeout found with ⟨rfl, -⟩ | before
      · rfl
      · cases before.symm.trans (accounts.idle timer) }

theorem Accounts.addUpdates (accounts : Accounts options tracked r) (updates : List Update)
    (ts : ℤ) :
    Accounts options (tracked ++ updates.map fun update => (update, ts))
      (r.addUpdates updates ts) where
  all a := by
    rw [MembershipUpdateRollup.addUpdates, of_foldl_push, ← List.append_assoc, accounts.all,
      List.filter_append]
  count := by
    rw [MembershipUpdateRollup.addUpdates, getNumUpdates_foldl_push, ← Nat.add_assoc,
      accounts.count, List.length_append]
  logged := accounts.logged
  timers := accounts.timers

theorem Accounts.trackUpdates (accounts : Accounts options tracked r)
    (updates : Option (List Update)) (clock : RollupClock) :
    Accounts options (tracked ++ (RollupEvent.trackUpdates updates clock).tracks)
      (r.trackUpdates options clock updates) := by
  unfold MembershipUpdateRollup.trackUpdates
  split
  case h_1 | h_2 => simpa [RollupEvent.tracks] using accounts
  case h_3 updates some =>
    have quiet : Accounts options tracked
        (if options.flushInterval ≤ clock.update - r.lastUpdateTime.getD 0
          then r.flushBuffer options clock.flush else r) := by
      split
      · exact accounts.flushBuffer clock.flush
      · exact accounts
    have started {r : MembershipUpdateRollup} (accounts : Accounts options tracked r) :
        Accounts options tracked (if r.firstUpdateTime.getD 0 = 0
          then { r with firstUpdateTime := .some clock.first } else r) := by
      split
      · exact { accounts with }
      · exact accounts
    exact { (started quiet).renewFlushTimer.addUpdates updates clock.ts with }

theorem Accounts.step (accounts : Accounts options tracked r) (event : RollupEvent) :
    Accounts options (tracked ++ event.tracks) (r.step options event) := by
  cases event with
  | trackUpdates updates clock => exact accounts.trackUpdates updates clock
  | flushBuffer now =>
    rw [RollupEvent.tracks, List.append_nil]
    exact accounts.flushBuffer now
  | destroy =>
    rw [RollupEvent.tracks, List.append_nil]
    exact accounts.clearFlushTimer
  | fire timer now =>
    rw [RollupEvent.tracks, List.append_nil, MembershipUpdateRollup.step]
    split
    · exact accounts
    · exact (accounts.clearTimeout timer).flushBuffer now

theorem armed_flushBuffer (options : RollupOptions) (r : MembershipUpdateRollup) (now : ℤ) :
    (r.flushBuffer options now).Armed := by
  unfold MembershipUpdateRollup.flushBuffer
  split
  case isTrue empty => exact fun filled => absurd empty filled
  case isFalse => exact fun filled => absurd rfl filled

theorem armed_renewFlushTimer (r : MembershipUpdateRollup) (updates : List Update) (ts : ℤ) :
    (r.renewFlushTimer.addUpdates updates ts).Armed := fun _ =>
  ⟨_, rfl, by simp [MembershipUpdateRollup.addUpdates, MembershipUpdateRollup.renewFlushTimer]⟩

theorem Armed.step (armed : r.Armed) {event : RollupEvent} (lives : event ≠ .destroy) :
    (r.step options event).Armed := by
  cases event with
  | trackUpdates updates clock =>
    rw [MembershipUpdateRollup.step]
    unfold MembershipUpdateRollup.trackUpdates
    split
    case h_1 | h_2 => exact armed
    case h_3 updates some => exact armed_renewFlushTimer _ updates clock.ts
  | flushBuffer now => exact armed_flushBuffer options r now
  | destroy => exact absurd rfl lives
  | fire timer now =>
    rw [MembershipUpdateRollup.step]
    split
    · exact armed
    · exact armed_flushBuffer options _ now

/-- Every update that is tracked is flushed once or still in the buffer, among the others of its
address in their order, and the log counts them all. At most one timer is pending, and one is
as long as there is something to flush and nobody has destroyed the rollup. -/
theorem run_accounts (options : RollupOptions) (events : List RollupEvent) :
    let r := run options events
    Accounts options (events.flatMap RollupEvent.tracks) r ∧
      ((∀ event ∈ events, event ≠ .destroy) → r.Armed) := by
  induction events using List.reverseRecOn with
  | nil =>
    refine ⟨⟨fun a => rfl, rfl, List.forall_mem_nil _, fun timer pending => ?_⟩, fun _ filled => ?_⟩
    · cases pending
    · exact absurd rfl filled
  | append_singleton events event ih =>
    obtain ⟨accounts, armed⟩ := ih
    rw [run, List.foldl_concat, List.flatMap_append, List.flatMap_singleton]
    refine ⟨accounts.step event, fun lives => ?_⟩
    obtain ⟨before, last⟩ := List.forall_mem_append.mp lives
    exact (armed before).step (last event List.mem_cons_self)

end MembershipUpdateRollup
end Ringpop.Members
