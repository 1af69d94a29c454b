import Ringpop.Dictionary

/-! One-shot timers as the event loop keeps them: a handle is used once, and the
callback behind it is gone when the timer has fired or has been cleared. -/
namespace Ringpop.Dictionary

structure TimerQueue (γ : Type) where
  pending : Dict ℕ γ
  next : ℕ
  fresh : ∀ timer, next ≤ timer → pending.get timer = none

namespace TimerQueue
variable {γ : Type}

def empty : TimerQueue γ := ⟨.empty, 0, fun _ _ => rfl⟩

def callback (q : TimerQueue γ) (timer : ℕ) : Option γ := q.pending.get timer

/-- The handle of the new timer is `q.next`. -/
def setTimeout (q : TimerQueue γ) (callback : γ) : TimerQueue γ where
  pending := q.pending.set q.next callback
  next := q.next + 1
  fresh timer later := by
    rw [Dict.get_set, if_neg (by omega)]
    exact q.fresh timer (by omega)

def clearTimeout (q : TimerQueue γ) (timer : ℕ) : TimerQueue γ where
  pending := q.pending.delete timer
  next := q.next
  fresh other later := by
    rw [Dict.get_delete]
    split
    · rfl
    · exact q.fresh other later

@[simp] theorem callback_setTimeout (q : TimerQueue γ) (callback : γ) (timer : ℕ) :
    (q.setTimeout callback).callback timer =
      if timer = q.next then some callback else q.callback timer :=
  Dict.get_set _ _ _ _

@[simp] theorem callback_clearTimeout (q : TimerQueue γ) (timer other : ℕ) :
    (q.clearTimeout timer).callback other = if other = timer then none else q.callback other :=
  Dict.get_delete _ _ _

theorem clearTimeout_clearTimeout (q : TimerQueue γ) (timer : ℕ) :
    (q.clearTimeout timer).clearTimeout timer = q.clearTimeout timer := by
  simp only [clearTimeout, Dict.delete_delete]

/-- A timer that is pending after `setTimeout` is the new one or was pending before. -/
theorem callback_of_setTimeout {q : TimerQueue γ} {callback found : γ} {timer : ℕ}
    (h : (q.setTimeout callback).callback timer = some found) :
    timer = q.next ∧ callback = found ∨ q.callback timer = some found := by
  rw [callback_setTimeout] at h
  split at h
  case isTrue same => exact .inl ⟨same, Option.some.inj h⟩
  case isFalse => exact .inr h

/-- A timer that is pending after `clearTimeout` is another one, and was pending before. -/
theorem callback_of_clearTimeout {q : TimerQueue γ} {found : γ} {timer other : ℕ}
    (h : (q.clearTimeout timer).callback other = some found) :
    other ≠ timer ∧ q.callback other = some found := by
  rw [callback_clearTimeout] at h
  split at h
  case isTrue => cases h
  case isFalse differs => exact ⟨differs, h⟩

/-- How many timers are pending. -/
def count (q : TimerQueue γ) : ℕ := q.pending.keys.length

theorem mem_pending {q : TimerQueue γ} {timer : ℕ} :
    timer ∈ q.pending.keys ↔ (q.callback timer).isSome := Dict.mem_keys

theorem count_setTimeout (q : TimerQueue γ) (callback : γ) :
    (q.setTimeout callback).count = q.count + 1 := by
  have fresh : q.next ∉ q.pending.keys := fun h => by
    rw [mem_pending, TimerQueue.callback, q.fresh q.next (Nat.le_refl _)] at h
    cases h
  rw [count, setTimeout, Dict.keys_set_of_not_mem fresh, List.length_append]
  rfl

theorem count_clearTimeout {q : TimerQueue γ} {timer : ℕ} (h : (q.callback timer).isSome) :
    (q.clearTimeout timer).count + 1 = q.count := by
  have listed := mem_pending.mpr h
  rw [count, clearTimeout, Dict.keys_delete, List.length_erase_of_mem listed]
  exact Nat.sub_add_cancel (List.length_pos_of_mem listed)

theorem count_eq_zero {q : TimerQueue γ} : q.count = 0 ↔ ∀ timer, q.callback timer = none := by
  rw [count, List.length_eq_zero_iff, List.eq_nil_iff_forall_not_mem]
  simp only [mem_pending, Option.not_isSome_iff_eq_none]

@[simp] theorem next_setTimeout (q : TimerQueue γ) (callback : γ) :
    (q.setTimeout callback).next = q.next + 1 := rfl

end TimerQueue
end Ringpop.Dictionary
