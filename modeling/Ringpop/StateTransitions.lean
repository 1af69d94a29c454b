import Ringpop.Membership
import Ringpop.TimerQueue

/-! `lib/gossip/state_transitions.js`: the timers that move a dying member on. What
matters about them is the alarm of each address, the state it was set for and the
callback it will still make. -/
namespace Ringpop.Members
open JsString Dictionary

/-- The callbacks of the timers. -/
inductive Transition where
  | suspectToFaulty (address : Address) (incarnationNumber : ℤ)
  | faultyToTombstone (address : Address) (incarnationNumber : ℤ)
  | tombstoneToEvict (address : Address)
deriving DecidableEq

namespace Transition

def address : Transition → Address
  | suspectToFaulty address _ => address
  | faultyToTombstone address _ => address
  | tombstoneToEvict address => address

def state : Transition → Status
  | suspectToFaulty _ _ => .suspect
  | faultyToTombstone _ _ => .faulty
  | tombstoneToEvict _ => .tombstone

/-- The transition for a member of a dying status. -/
def next (a : Address) (s : Standing) : Option Transition :=
  match s.status with
  | .alive | .leave => none
  | .suspect => some (suspectToFaulty a s.incarnationNumber)
  | .faulty => some (faultyToTombstone a s.incarnationNumber)
  | .tombstone => some (tombstoneToEvict a)

theorem next_spec {a : Address} {s : Standing} {t : Transition} (h : next a s = some t) :
    t.address = a ∧ t.state = s.status := by
  obtain ⟨inc, status⟩ := s
  cases status <;> simp only [next, reduceCtorEq, Option.some.injEq] at h <;> subst h <;>
    exact ⟨rfl, rfl⟩

end Transition

structure Timer where
  timer : ℕ
  state : Status

/-- `options.periods`, in milliseconds. -/
structure Periods where
  suspect : Option ℕ
  faulty : Option ℕ
  tombstone : Option ℕ

structure Timeout where
  transition : Transition
  delay : ℕ

structure StateTransitions where
  suspectTimeout : ℕ
  faultyTimeout : ℕ
  tombstoneTimeout : ℕ
  enabled : Bool
  timers : Dict Address Timer
  queue : TimerQueue Timeout

namespace StateTransitions

def new (periods : Periods) : StateTransitions where
  suspectTimeout := periods.suspect.getD (5 * 1000)
  faultyTimeout := periods.faulty.getD (24 * 60 * 60 * 1000)
  tombstoneTimeout := periods.tombstone.getD (60 * 1000)
  enabled := true
  timers := .empty
  queue := .empty

def enable (st : StateTransitions) : StateTransitions :=
  if st.enabled then st else { st with enabled := true }

def cancel (st : StateTransitions) (address : Address) : StateTransitions :=
  match st.timers.get address with
  | none => st
  | some timer =>
    { st with
      queue := st.queue.clearTimeout timer.timer
      timers := st.timers.delete address }

def start (st : StateTransitions) (address : Address) (state : Status) (timeout : ℕ)
    (transition : Transition) : StateTransitions :=
  { st with
    timers := st.timers.set address ⟨st.queue.next, state⟩
    queue := st.queue.setTimeout ⟨transition, timeout⟩ }

variable (whoami : Address)

def schedule (st : StateTransitions) (address : Address) (state : Status) (timeout : ℕ)
    (transition : Transition) : StateTransitions :=
  if !st.enabled then st
  else if address = whoami then st
  else
    match st.timers.get address with
    | some timer =>
      if timer.state = state then st
      else (st.cancel address).start address state timeout transition
    | none => st.start address state timeout transition

def scheduleSuspectToFaulty (st : StateTransitions) (member : Update) : StateTransitions :=
  st.schedule whoami member.address .suspect st.suspectTimeout
    (.suspectToFaulty member.address member.incarnationNumber)

def scheduleFaultyToTombstone (st : StateTransitions) (member : Update) : StateTransitions :=
  st.schedule whoami member.address .faulty st.faultyTimeout
    (.faultyToTombstone member.address member.incarnationNumber)

def scheduleTombstoneToEvict (st : StateTransitions) (member : Update) : StateTransitions :=
  st.schedule whoami member.address .tombstone st.tombstoneTimeout
    (.tombstoneToEvict member.address)

def handleUpdate (st : StateTransitions) (update : Update) : StateTransitions :=
  match update.status with
  | .alive | .leave => st.cancel update.address
  | .suspect => st.scheduleSuspectToFaulty whoami update
  | .faulty => st.scheduleFaultyToTombstone whoami update
  | .tombstone => st.scheduleTombstoneToEvict whoami update

def disable (st : StateTransitions) : StateTransitions :=
  (objectKeys st.timers).foldl cancel { st with enabled := false }

/-- What is left of the timers once one of them has begun to fire; its entry in
`timers` stays. -/
def expire (st : StateTransitions) (timer : ℕ) : StateTransitions :=
  { st with queue := st.queue.clearTimeout timer }

/-- The state an address has a timer for, and the callback if it is still to come. -/
def alarm (st : StateTransitions) (a : Address) : Option (Status × Option Transition) :=
  (st.timers.get a).map fun t => (t.state, (st.queue.callback t.timer).map Timeout.transition)

/-- What one update makes of the alarm of its address. -/
def rearm (current : Option (Status × Option Transition)) (update : Update) :
    Option (Status × Option Transition) :=
  match Transition.next update.address update.standing with
  | none => none
  | some transition =>
    if current.map Prod.fst = some update.status then current
    else some (update.status, some transition)

/-- Timers are not shared, belong to other nodes, and are all cleared while disabled. -/
structure Sound (st : StateTransitions) : Prop where
  known : ∀ a t, st.timers.get a = some t → t.timer < st.queue.next
  distinct : ∀ a b t t', st.timers.get a = some t → st.timers.get b = some t' →
    t.timer = t'.timer → a = b
  owned : ∀ timer timeout, st.queue.callback timer = some timeout →
    st.timers.get timeout.transition.address = some ⟨timer, timeout.transition.state⟩
  remote : st.timers.get whoami = none
  idle : st.enabled = false → ∀ a, st.timers.get a = none

variable {whoami} {st : StateTransitions}

theorem sound_new (periods : Periods) : Sound whoami (new periods) where
  known _ _ h := by cases h
  distinct _ _ _ _ h := by cases h
  owned _ _ h := by cases h
  remote := rfl
  idle := nofun

theorem Sound.cancel (s : Sound whoami st) (a : Address) : Sound whoami (st.cancel a) := by
  unfold StateTransitions.cancel
  split
  case h_1 => exact s
  case h_2 t ht =>
    refine ⟨fun b t' h => ?_, fun b c t₁ t₂ h₁ h₂ => ?_, fun timer timeout h => ?_, ?_, ?_⟩
    · rw [Dict.get_delete] at h
      split at h
      · cases h
      · exact s.known b t' h
    · rw [Dict.get_delete] at h₁ h₂
      split at h₁ <;> split at h₂ <;> first | exact s.distinct b c t₁ t₂ h₁ h₂ | contradiction
    · obtain ⟨differs, before⟩ := TimerQueue.callback_of_clearTimeout h
      have owner := s.owned timer timeout before
      rw [Dict.get_delete, if_neg, owner]
      rintro rfl
      rw [ht, Option.some.injEq] at owner
      exact differs (by rw [owner])
    · rw [Dict.get_delete, s.remote, ite_self]
    · intro disabled b
      rw [Dict.get_delete, s.idle disabled b, ite_self]

theorem Sound.alarm_cancel (s : Sound whoami st) (a b : Address) :
    (st.cancel a).alarm b = if b = a then none else st.alarm b := by
  unfold StateTransitions.cancel
  split
  case h_1 missing =>
    split
    case isTrue same => rw [same, alarm, missing]; rfl
    case isFalse => rfl
  case h_2 t ht =>
    simp only [alarm, Dict.get_delete]
    split
    case isTrue => rfl
    case isFalse differs =>
      cases found : st.timers.get b with
      | none => rfl
      | some t' =>
        have apart : t'.timer ≠ t.timer := fun same => differs (s.distinct b a t' t found ht same)
        simp [apart]

@[simp] theorem enabled_cancel (st : StateTransitions) (a : Address) :
    (st.cancel a).enabled = st.enabled := by
  unfold StateTransitions.cancel
  split <;> rfl

theorem Sound.start (s : Sound whoami st) {a : Address} (remote : a ≠ whoami)
    (enabled : st.enabled = true) (missing : st.timers.get a = none) {transition : Transition}
    (about : transition.address = a) (timeout : ℕ) :
    Sound whoami (st.start a transition.state timeout transition) := by
  refine ⟨fun b t h => ?_, fun b c t₁ t₂ h₁ h₂ same => ?_, fun timer timeout h => ?_, ?_, ?_⟩
  · simp only [StateTransitions.start, Dict.get_set, TimerQueue.next_setTimeout] at h ⊢
    split at h
    · obtain rfl := Option.some.inj h
      exact Nat.lt_succ_self _
    · exact (s.known b t h).trans (Nat.lt_succ_self _)
  · simp only [StateTransitions.start, Dict.get_set] at h₁ h₂
    split at h₁ <;> split at h₂
    · simp [*]
    · obtain rfl := Option.some.inj h₁
      have := s.known c t₂ h₂
      simp only at same
      omega
    · obtain rfl := Option.some.inj h₂
      have := s.known b t₁ h₁
      simp only at same
      omega
    · exact s.distinct b c t₁ t₂ h₁ h₂ same
  · simp only [StateTransitions.start, Dict.get_set]
    obtain ⟨new, rfl⟩ | before := TimerQueue.callback_of_setTimeout h
    · simp [about, new]
    · have owner := s.owned timer timeout before
      rw [if_neg, owner]
      intro same
      rw [same, missing] at owner
      cases owner
  · simp only [StateTransitions.start, Dict.get_set, if_neg remote.symm]
    exact s.remote
  · intro disabled
    cases disabled.symm.trans enabled

theorem Sound.alarm_start (s : Sound whoami st) (a b : Address) (state : Status) (timeout : ℕ)
    (transition : Transition) :
    (st.start a state timeout transition).alarm b =
      if b = a then some (state, some transition) else st.alarm b := by
  simp only [alarm, StateTransitions.start, Dict.get_set]
  split
  case isTrue => simp
  case isFalse =>
    cases found : st.timers.get b with
    | none => rfl
    | some t =>
      have old := (s.known b t found).ne
      simp [old]

theorem alarm_eq_none {a : Address} : st.alarm a = none ↔ st.timers.get a = none := by
  simp [alarm]

/-- Disabled transitions and updates about the local node have no effect. -/
theorem Sound.handleUpdate_ignored (s : Sound whoami st) {update : Update}
    (ignored : st.enabled = false ∨ update.address = whoami) :
    st.handleUpdate whoami update = st := by
  have missing : st.timers.get update.address = none := by
    rcases ignored with disabled | self
    · exact s.idle disabled _
    · rw [self, s.remote]
  have refused (state : Status) (timeout : ℕ) (transition : Transition) :
      st.schedule whoami update.address state timeout transition = st := by
    rcases ignored with disabled | self <;> simp [schedule, *]
  unfold handleUpdate
  split
  · simp [StateTransitions.cancel, missing]
  · simp [StateTransitions.cancel, missing]
  · exact refused _ _ _
  · exact refused _ _ _
  · exact refused _ _ _

theorem Sound.schedule (s : Sound whoami st) {update : Update} (enabled : st.enabled = true)
    (remote : update.address ≠ whoami) {transition : Transition}
    (next : Transition.next update.address update.standing = some transition) (timeout : ℕ) :
    Sound whoami (st.schedule whoami update.address update.status timeout transition) ∧
      ∀ a, (st.schedule whoami update.address update.status timeout transition).alarm a =
        if a = update.address then rearm (st.alarm a) update else st.alarm a := by
  obtain ⟨about, state⟩ := Transition.next_spec next
  change transition.state = update.status at state
  rw [← state]
  simp only [StateTransitions.schedule, enabled, Bool.not_true, Bool.false_eq_true, if_false,
    if_neg remote, rearm, next]
  cases found : st.timers.get update.address with
  | none =>
    refine ⟨s.start remote enabled found about timeout, fun a => ?_⟩
    rw [s.alarm_start]
    split
    case isTrue same => simp [same, alarm, found, state]
    case isFalse => rfl
  | some t =>
    simp only
    split
    case isTrue redundant =>
      refine ⟨s, fun a => ?_⟩
      split
      case isTrue same => simp [same, alarm, found, redundant, state]
      case isFalse => rfl
    case isFalse other =>
      have gone : (st.cancel update.address).timers.get update.address = none := by
        rw [← alarm_eq_none, s.alarm_cancel, if_pos rfl]
      refine ⟨(s.cancel _).start remote (by simpa using enabled) gone about timeout, fun a => ?_⟩
      rw [(s.cancel _).alarm_start, s.alarm_cancel]
      split
      case isTrue same =>
        rw [state] at other
        simp [same, alarm, found, other, state]
      case isFalse => rfl

theorem Sound.handleUpdate_heard (s : Sound whoami st) {update : Update}
    (enabled : st.enabled = true) (remote : update.address ≠ whoami) :
    Sound whoami (st.handleUpdate whoami update) ∧
      ∀ a, (st.handleUpdate whoami update).alarm a =
        if a = update.address then rearm (st.alarm a) update else st.alarm a := by
  cases status : update.status with
  | alive | leave =>
    simp only [handleUpdate, status, rearm, Transition.next, Update.standing]
    exact ⟨s.cancel _, s.alarm_cancel _⟩
  | suspect | faulty | tombstone =>
    simp only [handleUpdate, status, scheduleSuspectToFaulty, scheduleFaultyToTombstone,
      scheduleTombstoneToEvict]
    rw [← status]
    exact s.schedule enabled remote (by simp [Transition.next, Update.standing, status]) _

@[simp] theorem enabled_handleUpdate (st : StateTransitions) (whoami : Address) (update : Update) :
    (st.handleUpdate whoami update).enabled = st.enabled := by
  have kept (state : Status) (timeout : ℕ) (transition : Transition) :
      (st.schedule whoami update.address state timeout transition).enabled = st.enabled := by
    unfold schedule
    repeat' split
    all_goals simp [start]
  unfold handleUpdate
  split <;>
    simp [scheduleSuspectToFaulty, scheduleFaultyToTombstone, scheduleTombstoneToEvict, kept]

theorem Sound.handleUpdate (s : Sound whoami st) (update : Update) :
    Sound whoami (st.handleUpdate whoami update) := by
  by_cases ignored : st.enabled = false ∨ update.address = whoami
  · rwa [s.handleUpdate_ignored ignored]
  · obtain ⟨enabled, remote⟩ := not_or.mp ignored
    exact (s.handleUpdate_heard (by simpa using enabled) remote).1

/-- The updates of an address drive its alarm, in their order. -/
theorem Sound.handleUpdates (s : Sound whoami st) (updates : List Update) :
    Sound whoami (updates.foldl (StateTransitions.handleUpdate whoami) st) ∧
      (updates.foldl (StateTransitions.handleUpdate whoami) st).enabled = st.enabled ∧
      (st.enabled = true → ∀ a ≠ whoami,
        (updates.foldl (StateTransitions.handleUpdate whoami) st).alarm a =
          (updates.filter fun u => u.address = a).foldl rearm (st.alarm a)) := by
  induction updates generalizing st with
  | nil => exact ⟨s, rfl, fun _ _ _ => rfl⟩
  | cons u updates ih =>
    obtain ⟨sound, same, alarms⟩ := ih (s.handleUpdate u)
    rw [enabled_handleUpdate] at same alarms
    refine ⟨sound, same, fun enabled a ha => ?_⟩
    rw [List.foldl_cons, alarms enabled a ha]
    by_cases self : u.address = whoami
    · rw [s.handleUpdate_ignored (Or.inr self),
        List.filter_cons_of_neg (by simpa [self] using ha.symm)]
    · rw [(s.handleUpdate_heard enabled self).2]
      by_cases about : u.address = a
      · rw [List.filter_cons_of_pos (by simpa using about), if_pos about.symm]
        rfl
      · rw [List.filter_cons_of_neg (by simpa using about), if_neg (Ne.symm about)]

theorem cancel_enabled (st : StateTransitions) (enabled : Bool) (a : Address) :
    ({ st with enabled := enabled } : StateTransitions).cancel a =
      { st.cancel a with enabled := enabled } := by
  unfold StateTransitions.cancel
  simp only
  split <;> rfl

theorem foldl_cancel_enabled (st : StateTransitions) (enabled : Bool) (as : List Address) :
    as.foldl cancel { st with enabled := enabled } =
      { as.foldl cancel st with enabled := enabled } := by
  induction as generalizing st with
  | nil => rfl
  | cons a as ih => rw [List.foldl_cons, List.foldl_cons, cancel_enabled, ih]

theorem Sound.cancels (s : Sound whoami st) (as : List Address) :
    Sound whoami (as.foldl StateTransitions.cancel st) ∧
      ∀ b, (as.foldl StateTransitions.cancel st).alarm b =
        if b ∈ as then none else st.alarm b := by
  induction as generalizing st with
  | nil => exact ⟨s, fun b => by simp⟩
  | cons a as ih =>
    obtain ⟨sound, alarms⟩ := ih (s.cancel a)
    refine ⟨sound, fun b => ?_⟩
    rw [List.foldl_cons, alarms, s.alarm_cancel]
    by_cases same : b = a <;> simp [same]

theorem Sound.disable (s : Sound whoami st) : Sound whoami st.disable := by
  obtain ⟨sound, alarms⟩ := s.cancels (objectKeys st.timers)
  rw [StateTransitions.disable, foldl_cancel_enabled]
  refine { sound with idle := fun _ a => ?_ }
  rw [← alarm_eq_none]
  change ((objectKeys st.timers).foldl StateTransitions.cancel st).alarm a = none
  rw [alarms]
  split
  case isTrue => rfl
  case isFalse unlisted =>
    rw [mem_objectKeys, Dict.has, Bool.not_eq_true, Option.isSome_eq_false_iff,
      Option.isNone_iff_eq_none] at unlisted
    exact alarm_eq_none.mpr unlisted

@[simp] theorem enabled_disable (st : StateTransitions) : st.disable.enabled = false := by
  rw [disable, foldl_cancel_enabled]

theorem Sound.alarm_idle (s : Sound whoami st) (disabled : st.enabled = false) (a : Address) :
    st.alarm a = none := alarm_eq_none.mpr (s.idle disabled a)

theorem alarm_enable (st : StateTransitions) (a : Address) : st.enable.alarm a = st.alarm a := by
  unfold enable
  split <;> rfl

theorem Sound.enable (s : Sound whoami st) : Sound whoami st.enable := by
  unfold StateTransitions.enable
  split
  · exact s
  · exact { s with idle := nofun }

theorem Sound.expire (s : Sound whoami st) (timer : ℕ) : Sound whoami (st.expire timer) where
  known := s.known
  distinct := s.distinct
  owned other timeout h := s.owned other timeout (TimerQueue.callback_of_clearTimeout h).2
  remote := s.remote
  idle := s.idle

/-- A timer that fires leaves its entry behind. -/
theorem Sound.alarm_expire (s : Sound whoami st) {timer : ℕ} {timeout : Timeout}
    (live : st.queue.callback timer = some timeout) (a : Address) :
    st.alarm timeout.transition.address =
        some (timeout.transition.state, some timeout.transition) ∧
      (st.expire timer).alarm a =
        if a = timeout.transition.address then some (timeout.transition.state, none)
        else st.alarm a := by
  have owner := s.owned timer timeout live
  constructor
  · simp [alarm, owner, live]
  · simp only [alarm, StateTransitions.expire, TimerQueue.callback_clearTimeout]
    split
    case isTrue same => simp [same, owner]
    case isFalse differs =>
      cases found : st.timers.get a with
      | none => rfl
      | some t =>
        have apart : t.timer ≠ timer := by
          intro same
          exact differs (s.distinct a _ t _ found owner same)
        simp [apart]

theorem Sound.enabled_of_live (s : Sound whoami st) {timer : ℕ} {timeout : Timeout}
    (live : st.queue.callback timer = some timeout) : st.enabled = true := by
  by_contra disabled
  have missing := s.idle (by simpa using disabled) timeout.transition.address
  cases missing.symm.trans (s.owned timer timeout live)

end StateTransitions
end Ringpop.Members
