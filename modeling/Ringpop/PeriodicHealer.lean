import Ringpop.TimerQueue
import Ringpop.Runs
import Mathlib.Algebra.Order.Field.Rat

/-! `lib/partition_healing/discover_provider_healer.js`: a heal is tried with a probability
each time that a timer fires. The handle of the timer also says whether the healer runs. -/
namespace Ringpop.Members
open Dictionary

/-- The last two fields are a history: how many heals that `_run` began have not called back,
and whether `start` was called after the last `stop`. -/
structure DiscoverProviderHealer where
  previousHostListSize : ℕ
  healTimer : Option ℕ
  isStopped : Bool
  queue : TimerQueue Unit
  heals : ℕ
  wanted : Bool

/-- What `_run` reads: `Math.random()`, and the number of pingable members. -/
structure HealDraw where
  random : ℚ
  pingableMembers : ℕ

inductive HealerEvent where
  | start (draw : HealDraw)
  | stop
  | onHealTimer (timer : ℕ) (draw : HealDraw)
  | onHostsDiscovered (hosts : ℕ)
  | onHeal

namespace DiscoverProviderHealer

def new : DiscoverProviderHealer := ⟨0, none, true, .empty, 0, false⟩

def probability (baseProbability : ℚ) (h : DiscoverProviderHealer) (pingableMembers : ℕ) : ℚ :=
  baseProbability / max 1 (max pingableMembers h.previousHostListSize)

def scheduleNext (h : DiscoverProviderHealer) : DiscoverProviderHealer :=
  { h with healTimer := some h.queue.next, queue := h.queue.setTimeout () }

def run (baseProbability : ℚ) (h : DiscoverProviderHealer) (draw : HealDraw) :
    DiscoverProviderHealer :=
  if h.isStopped then h
  else if h.healTimer.isSome ∧ draw.random < h.probability baseProbability draw.pingableMembers then
    { h with heals := h.heals + 1 }
  else h.scheduleNext

def start (baseProbability : ℚ) (h : DiscoverProviderHealer) (draw : HealDraw) :
    DiscoverProviderHealer :=
  if h.healTimer.isSome then h else { h with isStopped := false }.run baseProbability draw

def stop (h : DiscoverProviderHealer) : DiscoverProviderHealer :=
  match h.healTimer with
  | none => { h with isStopped := true }
  | some timer =>
    { h with isStopped := true, queue := h.queue.clearTimeout timer, healTimer := none }

/-- Nothing happens when the timer has fired before or has been cleared, and `onHeal` is called
once for each heal. -/
def step (baseProbability : ℚ) (h : DiscoverProviderHealer) :
    HealerEvent → DiscoverProviderHealer
  | .start draw => { h.start baseProbability draw with wanted := true }
  | .stop => { h.stop with wanted := false }
  | .onHealTimer timer draw =>
    match h.queue.callback timer with
    | none => h
    | some _ => { h with queue := h.queue.clearTimeout timer }.run baseProbability draw
  | .onHostsDiscovered hosts => { h with previousHostListSize := hosts }
  | .onHeal => if h.heals = 0 then h else { h with heals := h.heals - 1 }.scheduleNext

def after (baseProbability : ℚ) (events : List HealerEvent) : DiscoverProviderHealer :=
  events.foldl (step baseProbability) new

/-- The pending timers and the heals in flight. -/
def chains (h : DiscoverProviderHealer) : ℕ := h.queue.count + h.heals

structure RunsOnce (h : DiscoverProviderHealer) : Prop where
  single : h.chains ≤ 1
  started : h.wanted = true → h.isStopped = false ∧ h.chains = 1

/-- A stopped healer is started only when no heal is in flight and no handle is left of a heal
that ended after the stop. -/
def Restartable (h : DiscoverProviderHealer) : HealerEvent → Prop
  | .start _ => h.isStopped = true → h.healTimer = none ∧ h.heals = 0
  | _ => True

instance (h : DiscoverProviderHealer) : DecidablePred h.Restartable := fun event => by
  cases event <;> unfold Restartable <;> infer_instance

variable {baseProbability : ℚ} {h : DiscoverProviderHealer}

structure Healing (h : DiscoverProviderHealer) : Prop where
  timer : ∀ t, (h.queue.callback t).isSome → h.healTimer = some t
  single : h.chains ≤ 1
  started : h.isStopped = false → h.healTimer.isSome ∧ h.chains = 1
  wanted : h.wanted = !h.isStopped

theorem healing_new : Healing new where
  timer t pending := by cases pending
  single := Nat.zero_le 1
  started running := by cases running
  wanted := rfl

theorem Healing.runsOnce (healing : h.Healing) : h.RunsOnce where
  single := healing.single
  started wanted := by
    have running : h.isStopped = false := by
      have same := healing.wanted
      rw [wanted, eq_comm, Bool.not_eq_eq_eq_not] at same
      exact same
    exact ⟨running, (healing.started running).2⟩

/-- The next timer is the only one. -/
theorem healing_scheduleNext (idle : ∀ t, h.queue.callback t = none) (alone : h.heals = 0)
    (wanted : h.wanted = !h.isStopped) : h.scheduleNext.Healing := by
  have one : h.scheduleNext.chains = 1 := by
    show (h.queue.setTimeout ()).count + h.heals = 1
    rw [TimerQueue.count_setTimeout, TimerQueue.count_eq_zero.mpr idle, alone]
  refine ⟨fun t pending => ?_, one.le, fun _ => ⟨rfl, one⟩, wanted⟩
  obtain ⟨_, found⟩ := Option.isSome_iff_exists.mp pending
  rcases TimerQueue.callback_of_setTimeout found with ⟨rfl, -⟩ | before
  · rfl
  · cases (idle t).symm.trans before

/-- A timer that is pending is the only thing in flight. -/
theorem Healing.cleared (healing : h.Healing) {timer : ℕ}
    (pending : (h.queue.callback timer).isSome) :
    h.heals = 0 ∧ ∀ t, (h.queue.clearTimeout timer).callback t = none := by
  have fewer := TimerQueue.count_clearTimeout pending
  have single := healing.single
  unfold chains at single
  exact ⟨by omega, TimerQueue.count_eq_zero.mp (by omega)⟩

theorem Healing.run (healing : h.Healing) {timer : ℕ}
    (pending : (h.queue.callback timer).isSome) (draw : HealDraw) :
    (DiscoverProviderHealer.run baseProbability
      { h with queue := h.queue.clearTimeout timer } draw).Healing := by
  obtain ⟨alone, idle⟩ := healing.cleared pending
  have none := TimerQueue.count_eq_zero.mpr idle
  have quiet (t : ℕ) : ¬ ((h.queue.clearTimeout timer).callback t).isSome := by
    rw [idle]
    exact Bool.false_ne_true
  unfold DiscoverProviderHealer.run
  split
  case isTrue stopped =>
    have zero : (h.queue.clearTimeout timer).count + h.heals = 0 := by rw [none, alone]
    exact
      { timer := fun t found => absurd found (quiet t)
        single := zero.le.trans (Nat.zero_le 1)
        started := fun running => by cases stopped.symm.trans running
        wanted := healing.wanted }
  case isFalse running =>
    split
    case isTrue begins =>
      have one : (h.queue.clearTimeout timer).count + (h.heals + 1) = 1 := by rw [none, alone]
      exact
        { timer := fun t found => absurd found (quiet t)
          single := one.le
          started := fun _ => ⟨begins.1, one⟩
          wanted := healing.wanted }
    case isFalse => exact healing_scheduleNext idle alone healing.wanted

theorem Healing.start (healing : h.Healing) {draw : HealDraw}
    (restartable : h.Restartable (.start draw)) :
    (h.step baseProbability (.start draw)).Healing := by
  rw [step, DiscoverProviderHealer.start]
  cases stopped : h.isStopped with
  | false =>
    rw [if_pos (healing.started stopped).1]
    exact ⟨healing.timer, healing.single, healing.started, by simp [stopped]⟩
  | true =>
    obtain ⟨free, alone⟩ := restartable stopped
    have idle (t : ℕ) : h.queue.callback t = none := by
      refine Option.not_isSome_iff_eq_none.mp fun pending => ?_
      cases free.symm.trans (healing.timer t pending)
    simp only [free, Option.isSome_none, Bool.false_eq_true, if_false, DiscoverProviderHealer.run,
      false_and]
    exact healing_scheduleNext (h := { h with isStopped := false, wanted := true }) idle alone rfl

theorem Healing.stop (healing : h.Healing) : (h.step baseProbability .stop).Healing := by
  rw [step, DiscoverProviderHealer.stop]
  cases handle : h.healTimer with
  | none =>
    exact
      { timer := fun t pending => handle.symm.trans (healing.timer t pending)
        single := healing.single
        started := fun running => Bool.noConfusion running
        wanted := rfl }
  | some timer =>
    have idle (t : ℕ) : (h.queue.clearTimeout timer).callback t = none := by
      refine Option.not_isSome_iff_eq_none.mp fun pending => ?_
      obtain ⟨_, found⟩ := Option.isSome_iff_exists.mp pending
      obtain ⟨other, before⟩ := TimerQueue.callback_of_clearTimeout found
      have mine := healing.timer t (by rw [before]; rfl)
      exact other (Option.some.inj (mine.symm.trans handle))
    have fewer : (h.queue.clearTimeout timer).count + h.heals ≤ 1 := by
      have single := healing.single
      unfold chains at single
      rw [TimerQueue.count_eq_zero.mpr idle]
      omega
    exact
      { timer := fun t pending => by simp only [idle] at pending; cases pending
        single := fewer
        started := fun running => Bool.noConfusion running
        wanted := rfl }

theorem Healing.onHeal (healing : h.Healing) : (h.step baseProbability .onHeal).Healing := by
  rw [step]
  split
  case isTrue => exact healing
  case isFalse busy =>
    have single := healing.single
    unfold chains at single
    have idle : h.queue.count = 0 := by omega
    have alone : h.heals - 1 = 0 := by omega
    exact healing_scheduleNext (TimerQueue.count_eq_zero.mp idle) alone healing.wanted

theorem Healing.step (healing : h.Healing) (event : HealerEvent)
    (restartable : h.Restartable event) : (h.step baseProbability event).Healing := by
  cases event with
  | start draw => exact healing.start restartable
  | stop => exact healing.stop
  | onHealTimer timer draw =>
    rw [DiscoverProviderHealer.step]
    cases pending : h.queue.callback timer with
    | none => exact healing
    | some _ => exact healing.run (by rw [pending]; rfl) draw
  | onHostsDiscovered => exact { healing with }
  | onHeal => exact healing.onHeal

/-- A start that comes too early is lost, or begins a second chain. -/
theorem not_runsOnce_of_start {event : HealerEvent} (early : ¬ h.Restartable event) :
    ¬ (h.step baseProbability event).RunsOnce := by
  intro runs
  cases event with
  | stop | onHealTimer | onHostsDiscovered | onHeal => exact early trivial
  | start draw =>
    simp only [Restartable, Classical.not_imp] at early
    obtain ⟨stopped, left⟩ := early
    rw [step, DiscoverProviderHealer.start] at runs
    cases handle : h.healTimer with
    | some timer =>
      rw [if_pos (by rw [handle]; rfl)] at runs
      cases stopped.symm.trans (runs.started rfl).1
    | none =>
      have busy : h.heals ≠ 0 := fun none => left ⟨handle, none⟩
      have single := runs.single
      simp only [handle, Option.isSome_none, Bool.false_eq_true, if_false,
        DiscoverProviderHealer.run, false_and] at single
      have more : (h.queue.setTimeout ()).count + h.heals ≤ 1 := single
      rw [TimerQueue.count_setTimeout] at more
      omega

/-- In every state of a run there is one chain at most, and one after a start, exactly when
each start of a stopped healer finds no heal in flight and none that ended after the stop. -/
theorem after_runsOnce_iff (baseProbability : ℚ) (events : List HealerEvent) :
    (∀ reached, reached <+: events → (after baseProbability reached).RunsOnce) ↔
      Runs.Throughout (step baseProbability) Restartable new events :=
  Runs.always_iff_throughout Healing RunsOnce (fun _ => Healing.runsOnce)
    (fun _ event healing restartable => healing.step event restartable)
    (fun _ _ _ early => not_runsOnce_of_start early) healing_new events

/-- Stopped during a heal: a start after its end is lost, and one before it adds a chain. -/
theorem after_stop_during_heal :
    let draw : HealDraw := ⟨0, 1⟩
    ¬ (after 3 [.start draw, .onHealTimer 0 draw, .stop, .onHeal, .start draw]).RunsOnce ∧
      ¬ (after 3 [.start draw, .onHealTimer 0 draw, .stop, .start draw]).RunsOnce := by
  intro draw
  refine ⟨fun runs => ?_, fun runs => ?_⟩
  · exact absurd (runs.started rfl).1 (by decide +kernel)
  · exact absurd runs.single (by decide +kernel)

end DiscoverProviderHealer
end Ringpop.Members
