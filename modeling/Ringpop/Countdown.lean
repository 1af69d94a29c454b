import Mathlib.Data.List.Perm.Subperm
import Mathlib.Data.List.Nodup
import Mathlib.Algebra.Order.Ring.Int
import Mathlib.Tactic.Common

/-! A countdown that several parties share: each call takes one off, whoever makes it.
It stands for the parties that are left as long as nobody calls twice. -/
namespace Ringpop.Countdowns

/-- `reported` is a history of the calls. -/
structure Countdown (α : Type) where
  parties : List α
  times : ℤ
  reported : List α

namespace Countdown
variable {α : Type}

def after (parties : List α) : Countdown α := ⟨parties, parties.length, []⟩

def call (c : Countdown α) (a : α) : Countdown α :=
  ⟨c.parties, c.times - 1, c.reported ++ [a]⟩

/-- The function is called back when this holds after a call. -/
def expired (c : Countdown α) : Bool := c.times < 1

/-- Only parties have called, none of them twice. -/
structure Sound (c : Countdown α) : Prop where
  parties : c.parties.Nodup
  reported : c.reported.Nodup
  known : c.reported ⊆ c.parties
  times : c.times = c.parties.length - c.reported.length

variable {c : Countdown α}

theorem sound_after {parties : List α} (nodup : parties.Nodup) : (after parties).Sound where
  parties := nodup
  reported := List.nodup_nil
  known := List.nil_subset _
  times := (sub_zero _).symm

theorem Sound.call (sound : c.Sound) {a : α} (known : a ∈ c.parties) (fresh : a ∉ c.reported) :
    (c.call a).Sound where
  parties := sound.parties
  reported := List.nodup_append.mpr ⟨sound.reported, List.nodup_singleton a, by
    intro b hb b' hb' equal
    obtain rfl := List.mem_singleton.mp hb'
    exact fresh (equal ▸ hb)⟩
  known := List.append_subset.mpr ⟨sound.known, fun _ h => List.mem_singleton.mp h ▸ known⟩
  times := by
    have times := sound.times
    simp only [Countdown.call, List.length_append, List.length_singleton]
    push_cast
    omega

theorem Sound.expired_iff (sound : c.Sound) : c.expired = true ↔ c.parties ⊆ c.reported := by
  have part := List.subperm_of_subset sound.reported sound.known
  have times := sound.times
  rw [expired, decide_eq_true_eq]
  constructor
  · intro expired
    exact (part.perm_of_length_le (by omega)).symm.subset
  · intro all
    have long := (List.subperm_of_subset sound.parties all).length_le
    omega

end Countdown
end Ringpop.Countdowns
