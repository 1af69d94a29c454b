import Ringpop.Gossip

/-! How many gossip loops there are: a round that ends after gossip has been stopped and
started again adds a loop of its own. -/
namespace Ringpop.Members
open JsString Dictionary

namespace Gossip
variable {g : Gossip}

/-- One timer at most is pending, none while gossip is stopped, and no round has kept the
loop going after a stop. -/
structure OneLoop (g : Gossip) : Prop where
  single : ∀ t t', (g.queue.callback t).isSome → (g.queue.callback t').isSome → t = t'
  stopped : g.isStopped = true → ∀ t, g.queue.callback t = none
  late : g.late = []

/-- If the event ends a round of the loop that began before the last stop, gossip is
stopped. -/
def NoRestart (g : Gossip) (event : GossipEvent) : Prop :=
  ∀ call ∈ g.ending event, call.fromLoop = true → call.stops < g.stops → g.isStopped = true

instance (g : Gossip) : DecidablePred g.NoRestart := fun event =>
  inferInstanceAs (Decidable (∀ call ∈ g.ending event, _))

/-- What keeps the loop single: no timer is pending while a round of the loop that began
after the last stop is in flight. -/
structure Looping (g : Gossip) : Prop where
  timer : ∀ t, (g.queue.callback t).isSome → g.protocolPeriodTimer = some t
  stopped : g.isStopped = true → ∀ t, g.queue.callback t = none
  busy : ∀ id call, flying g.rounds id = some call → call.fromLoop = true →
    call.stops = g.stops → g.isStopped = false ∧ ∀ t, g.queue.callback t = none
  begun : ∀ id call, flying g.rounds id = some call → call.stops ≤ g.stops
  late : g.late = []

theorem looping_new : Looping new where
  timer _ h := by cases h
  stopped _ _ := rfl
  busy _ _ h := by cases h
  begun _ _ h := by cases h
  late := rfl

theorem Looping.oneLoop (looping : g.Looping) : g.OneLoop where
  single t t' h h' := Option.some.inj ((looping.timer t h).symm.trans (looping.timer t' h'))
  stopped := looping.stopped
  late := looping.late

/-- The timer in the field is the only one. -/
theorem Looping.cleared (looping : g.Looping) {timer : ℕ}
    (field : g.protocolPeriodTimer = some timer) (t : ℕ) :
    (g.queue.clearTimeout timer).callback t = none := by
  refine Option.not_isSome_iff_eq_none.mp fun pending => ?_
  obtain ⟨found, h⟩ := Option.isSome_iff_exists.mp pending
  obtain ⟨other, before⟩ := TimerQueue.callback_of_clearTimeout h
  have mine := looping.timer t (by rw [before]; rfl)
  exact other (Option.some.inj (mine.symm.trans field))

/-- After `run` its timer is the only one, if none was pending. -/
theorem timer_run (idle : ∀ t, g.queue.callback t = none) (t : ℕ)
    (h : (g.run.queue.callback t).isSome) : g.run.protocolPeriodTimer = some t := by
  simp only [Gossip.run, TimerQueue.callback_setTimeout, idle] at h
  split at h
  case isTrue same => rw [same]; rfl
  case isFalse => cases h

theorem onMemberPinged_stopped (stopped : g.isStopped = true) (call : TickCall) :
    g.onMemberPinged call = g := if_pos stopped

theorem onMemberPinged_started (started : g.isStopped = false) (call : TickCall) :
    g.onMemberPinged call =
      { g.run with late := if call.stops < g.stops then g.late ++ [call.id] else g.late } :=
  if_neg (Bool.eq_false_iff.mp started)

/-- The loop goes on when no timer is pending and it has no other round. -/
theorem looping_onMemberPinged {call : TickCall} (idle : ∀ t, g.queue.callback t = none)
    (alone : ∀ id call, flying g.rounds id = some call → call.fromLoop = true →
      call.stops ≠ g.stops)
    (begun : ∀ id call, flying g.rounds id = some call → call.stops ≤ g.stops)
    (late : g.late = []) (current : call.stops < g.stops → g.isStopped = true) :
    (g.onMemberPinged call).Looping := by
  have busy (id : ℕ) (call : TickCall) (flies : flying g.rounds id = some call)
      (fromLoop : call.fromLoop = true) (same : call.stops = g.stops) : False :=
    alone id call flies fromLoop same
  cases stopped : g.isStopped with
  | true =>
    rw [onMemberPinged_stopped stopped]
    exact ⟨fun t h => absurd (idle t) (Option.isSome_iff_ne_none.mp h), fun _ => idle,
      fun id call flies fromLoop same => (busy id call flies fromLoop same).elim, begun, late⟩
  | false =>
    have fresh : ¬ call.stops < g.stops := fun before => by
      cases stopped.symm.trans (current before)
    rw [onMemberPinged_started stopped]
    exact ⟨timer_run idle, fun stopped' => Bool.noConfusion (stopped.symm.trans stopped'),
      fun id call flies fromLoop same => (busy id call flies fromLoop same).elim, begun,
      (if_neg fresh).trans late⟩

theorem looping_callBack {call : TickCall} (fromLoop : call.fromLoop = true)
    (idle : ∀ t, g.queue.callback t = none)
    (alone : ∀ id call, flying g.rounds id = some call → call.fromLoop = true →
      call.stops ≠ g.stops)
    (begun : ∀ id call, flying g.rounds id = some call → call.stops ≤ g.stops)
    (late : g.late = []) (current : call.stops < g.stops → g.isStopped = true) :
    (g.callBack call).Looping := by
  rw [callBack, if_pos fromLoop]
  exact looping_onMemberPinged (g := { g with calledBack := g.calledBack ++ [call.id] })
    idle alone begun late current

theorem Looping.tick (looping : g.Looping) (target : Target) : (g.tick false target).Looping := by
  rcases g.tick_cases false target with same | ⟨member, -, same⟩
  · rw [same]
    exact { looping with }
  · rw [same]
    refine { looping with busy := fun id call => ?_, begun := fun id call => ?_ }
    · rw [flying_begin]
      split
      · rintro ⟨⟩ ⟨⟩
      · exact looping.busy id call
    · rw [flying_begin]
      split
      · rintro ⟨⟩
        exact le_rfl
      · exact looping.begun id call

theorem Looping.fire (looping : g.Looping) (timer : ℕ) (target : Target) :
    (g.fire timer target).Looping := by
  rw [Gossip.fire]
  cases pending : g.queue.callback timer with
  | none => exact looping
  | some _ =>
    simp only
    have started : g.isStopped = false := Bool.eq_false_iff.mpr fun stopped => by
      cases pending.symm.trans (looping.stopped stopped timer)
    have alone (id : ℕ) (call : TickCall) (flies : flying g.rounds id = some call)
        (fromLoop : call.fromLoop = true) : call.stops ≠ g.stops := fun same => by
      cases pending.symm.trans ((looping.busy id call flies fromLoop same).2 timer)
    have idle := looping.cleared (looping.timer timer (by rw [pending]; rfl))
    rcases tick_cases { g with queue := g.queue.clearTimeout timer } true target with
      same | ⟨member, -, same⟩
    · rw [same]
      exact looping_callBack rfl idle alone looping.begun looping.late
        fun before => absurd before (lt_irrefl _)
    · rw [same]
      refine
        { looping with
          timer := fun t h => ?_
          stopped := fun _ => idle
          busy := fun id call _ _ _ => ⟨started, idle⟩
          begun := fun id call => ?_ }
      · rw [idle t] at h
        cases h
      · rw [flying_begin]
        split
        · rintro ⟨⟩
          exact le_rfl
        · exact looping.begun id call

theorem Looping.start (looping : g.Looping) : g.start.Looping := by
  rw [Gossip.start]
  cases stopped : g.isStopped with
  | false => exact looping
  | true =>
    exact
      { looping with
        timer := timer_run (looping.stopped stopped)
        stopped := fun stopped' => by cases stopped'
        busy := fun id call flies fromLoop same => by
          cases stopped.symm.trans (looping.busy id call flies fromLoop same).1 }

/-- The loop is over when nothing is pending in the queue. -/
theorem Looping.halt (looping : g.Looping) {queue : TimerQueue Unit}
    (idle : ∀ t, queue.callback t = none) :
    Looping { g with
      queue := queue, protocolPeriodTimer := none, isStopped := true, stops := g.stops + 1 } where
  timer t h := absurd (idle t) (Option.isSome_iff_ne_none.mp h)
  stopped _ := idle
  busy id call flies _ same :=
    absurd (same ▸ looping.begun id call flies) (Nat.not_succ_le_self _)
  begun id call flies := (looping.begun id call flies).trans (Nat.le_succ _)
  late := looping.late

theorem Looping.stop (looping : g.Looping) : g.stop.Looping := by
  rw [Gossip.stop]
  cases stopped : g.isStopped with
  | true => exact looping
  | false =>
    simp only [Bool.false_eq_true, if_false]
    refine looping.halt fun t => ?_
    cases timer : g.protocolPeriodTimer with
    | none =>
      refine Option.not_isSome_iff_eq_none.mp fun h => ?_
      cases timer.symm.trans (looping.timer t h)
    | some timer' => exact looping.cleared timer t

theorem Looping.answered (looping : g.Looping) (exclusive : g.Exclusive) {event : GossipEvent}
    {next : Gossip} (answered : Answered g event next) (noRestart : g.NoRestart event) :
    next.Looping := by
  cases answered with
  | waits rounds next_eq _ listed same =>
    subst next_eq
    refine { looping with busy := fun id call => ?_, begun := fun id call => ?_ }
    · rw [same]
      exact looping.busy id call
    · rw [same]
      exact looping.begun id call
  | ends rounds call next_eq ending listed was same =>
    subst next_eq
    have ended := exclusive.ended was same
    have none (id : ℕ) (call : TickCall) : flying rounds id ≠ some call := by
      rw [ended id]
      exact Option.some_ne_none call |>.symm
    cases fromLoop : call.fromLoop with
    | false =>
      rw [finish, callBack, if_neg (Bool.eq_false_iff.mp fromLoop)]
      exact
        { looping with
          busy := fun id call flies => absurd flies (none id call)
          begun := fun id call flies => absurd flies (none id call) }
    | true =>
      have current := noRestart call ending fromLoop
      have idle : ∀ t, g.queue.callback t = Option.none := by
        rcases (looping.begun _ call was).eq_or_lt with now | before
        · exact (looping.busy _ call was fromLoop now).2
        · exact looping.stopped (current before)
      exact looping_callBack fromLoop idle (fun id call flies => absurd flies (none id call))
        (fun id call flies => absurd flies (none id call)) looping.late current

theorem Looping.step (looping : g.Looping) (exclusive : g.Exclusive) (event : GossipEvent)
    (noRestart : g.NoRestart event) : (g.step event).Looping := by
  cases event with
  | start => exact looping.start
  | stop => exact looping.stop
  | fire timer target => exact looping.fire timer target
  | tick target => exact looping.tick target
  | pingResponse =>
    exact looping.answered exclusive (answered_pingResponse exclusive.listed _ _ _ _ _) noRestart
  | pingReqResponse =>
    exact looping.answered exclusive (answered_pingReqResponse exclusive.listed _ _) noRestart

theorem late_callBack {call : TickCall} (fromLoop : call.fromLoop = true)
    (started : g.isStopped = false) (before : call.stops < g.stops) :
    (g.callBack call).late = g.late ++ [call.id] := by
  rw [callBack, if_pos fromLoop]
  have resumed := onMemberPinged_started (g := { g with calledBack := g.calledBack ++ [call.id] })
    started call
  exact (congrArg Gossip.late resumed).trans (if_pos before)

/-- A round that ends after a restart leaves its mark. -/
theorem late_of_restart (exclusive : g.Exclusive) {event : GossipEvent}
    (restart : ¬ g.NoRestart event) : (g.step event).late ≠ [] := by
  have ended {next : Gossip} (answered : Answered g event next) : next.late ≠ [] := by
    simp only [NoRestart, not_forall] at restart
    obtain ⟨call, ends, fromLoop, before, started⟩ := restart
    cases answered with
    | waits rounds _ ending _ _ => cases ending.symm.trans ends
    | ends rounds call' next_eq ending _ _ _ =>
      obtain rfl := Option.some.inj (ending.symm.trans ends)
      have late := late_callBack (g := { g with rounds := rounds, isPinging := false }) fromLoop
        (Bool.eq_false_iff.mpr started) before
      rw [next_eq]
      exact fun none => List.append_ne_nil_of_right_ne_nil _ (List.cons_ne_nil _ _)
        (late.symm.trans none)
  cases event with
  | pingResponse => exact ended (answered_pingResponse exclusive.listed _ _ _ _ _)
  | pingReqResponse => exact ended (answered_pingReqResponse exclusive.listed _ _)
  | start | stop | fire | tick => exact absurd (fun call ends => by cases ends) restart

/-- There is one loop in every state of a run exactly when no round that began before a
stop ends after a restart. -/
theorem after_oneLoop_iff (events : List GossipEvent) :
    (∀ reached, reached <+: events → (after reached).OneLoop) ↔
      Runs.Throughout step NoRestart new events :=
  Runs.always_iff_throughout (fun g => g.Exclusive ∧ g.Looping) OneLoop
    (fun _ inv => inv.2.oneLoop)
    (fun _ event inv noRestart => ⟨inv.1.step event, inv.2.step inv.1 event noRestart⟩)
    (fun _ _ inv restart one => late_of_restart inv.1 restart one.late)
    ⟨exclusive_new, looping_new⟩ events

/-- Stopped and started again while the ping is under way. -/
theorem after_two_loops :
    let target : Target := ⟨true, some (.of "b:1" (by decide))⟩
    let pong : Response := .body (some (.object [(str "changes", .array [])]))
    let answered : GossipEvent := .pingResponse 0 pong ⟨false, true, true⟩ [] 0
    ¬ (after [.start, .fire 0 target, .stop, .start, answered]).OneLoop := by
  intro target pong answered one
  have two := one.single 1 2 (by decide) (by decide)
  cases two

end Gossip
end Ringpop.Members
