import Mathlib.Order.MinMax
import Mathlib.Data.List.Basic
import Mathlib.Tactic.Common

/-! A register that takes an offered value when it is greater than its own. An
empty register refuses some values and takes all others. -/
namespace Ringpop.GreatestWins

variable {α β : Type} [LinearOrder α] (refused : α → Bool) (rank : β → α)

def admits (current : Option α) (offer : α) : Bool :=
  match current with
  | none => !refused offer
  | some value => decide (value < offer)

def absorb (current : Option α) (offer : α) : Option α :=
  if admits refused current offer then some offer else current

/-- The offers that were taken, in their order. -/
def accepted : Option α → List β → List β
  | _, [] => []
  | current, offer :: rest =>
    if admits refused current (rank offer) then
      offer :: accepted (some (rank offer)) rest
    else accepted current rest

def absorbAll (current : Option α) (offers : List β) : Option α :=
  offers.foldl (fun value offer => absorb refused value (rank offer)) current

variable {refused rank}

@[simp] theorem absorbAll_cons (current : Option α) (offer : β) (rest : List β) :
    absorbAll refused rank current (offer :: rest) =
      absorbAll refused rank (absorb refused current (rank offer)) rest := rfl

theorem absorbAll_append (current : Option α) (first second : List β) :
    absorbAll refused rank current (first ++ second) =
      absorbAll refused rank (absorbAll refused rank current first) second :=
  List.foldl_append

theorem absorb_of_admits {current : Option α} {offer : α}
    (h : admits refused current offer = true) :
    absorb refused current offer = some offer := if_pos h

theorem absorb_of_not_admits {current : Option α} {offer : α}
    (h : admits refused current offer = false) : absorb refused current offer = current := by
  simp [absorb, h]

theorem accepted_sublist (current : Option α) (offers : List β) :
    (accepted refused rank current offers).Sublist offers := by
  induction offers generalizing current with
  | nil => exact List.Sublist.slnil
  | cons offer rest ih =>
    rw [accepted]
    split
    · exact (ih _).cons_cons offer
    · exact (ih _).cons offer

/-- The register holds what it took last. -/
theorem absorbAll_eq_getLast (current : Option α) (offers : List β) :
    absorbAll refused rank current offers =
      ((accepted refused rank current offers).getLast?.map rank).or current := by
  induction offers generalizing current with
  | nil => rfl
  | cons offer rest ih =>
    rw [absorbAll_cons, ih, accepted, absorb]
    split
    case isFalse => rfl
    case isTrue =>
      rw [List.getLast?_cons]
      cases (accepted refused rank (some (rank offer)) rest).getLast? <;> rfl

/-- Whatever was taken was admitted over the one taken before it. -/
theorem admits_of_accepted {current : Option α} {offers before after : List β} {offer : β}
    (h : accepted refused rank current offers = before ++ offer :: after) :
    admits refused ((before.getLast?.map rank).or current) (rank offer) = true := by
  induction offers generalizing current before with
  | nil => simp [accepted] at h
  | cons first rest ih =>
    rw [accepted] at h
    split at h
    case isFalse => exact ih h
    case isTrue admitted =>
      cases before with
      | nil =>
        obtain ⟨rfl, -⟩ := List.cons.inj h
        exact admitted
      | cons b before =>
        obtain ⟨rfl, tail⟩ := List.cons.inj h
        have step := ih tail
        rw [List.getLast?_cons]
        cases last : before.getLast? <;> simpa [last] using step

/-- A register goes from its value up through a list of values. -/
def Rising (current : Option α) (values : List α) : Prop :=
  (current.toList ++ values).Pairwise (· < ·)

theorem rising_nil (current : Option α) : Rising current ([] : List α) := by
  cases current <;> simp [Rising]

theorem Rising.values {current : Option α} {values : List α} (h : Rising current values) :
    values.Pairwise (· < ·) := (List.pairwise_append.mp h).2.1

theorem Rising.above {value : α} {values : List α} (h : Rising (some value) values) :
    ∀ later ∈ values, value < later := (List.pairwise_cons.mp h).1

theorem Rising.le_last {value : α} {values : List α} (h : Rising (some value) values) :
    value ≤ values.getLast?.getD value := by
  cases last : values.getLast? with
  | none => exact le_rfl
  | some later => exact (h.above later (List.mem_of_getLast? last)).le

theorem rising_append {current : Option α} {first second : List α}
    (low : Rising current first) (high : Rising (first.getLast?.or current) second) :
    Rising current (first ++ second) := by
  rw [Rising, ← List.append_assoc]
  refine List.pairwise_append.mpr ⟨low, high.values, fun a ha b hb => ?_⟩
  cases last : first.getLast? with
  | none =>
    rw [List.getLast?_eq_none_iff.mp last, List.append_nil, Option.mem_toList] at ha
    rw [last, Option.none_or, Option.mem_def.mp ha] at high
    exact high.above b hb
  | some top =>
    rw [last, Option.some_or] at high
    obtain ⟨before, rfl⟩ := List.getLast?_eq_some_iff.mp last
    rw [Rising, ← List.append_assoc] at low
    rw [← List.append_assoc] at ha
    rcases List.mem_append.mp ha with below | equal
    · exact ((List.pairwise_append.mp low).2.2 a below top List.mem_cons_self).trans
        (high.above b hb)
    · obtain rfl := List.mem_singleton.mp equal
      exact high.above b hb

theorem rising_accepted (current : Option α) (offers : List β) :
    Rising current ((accepted refused rank current offers).map rank) := by
  induction offers generalizing current with
  | nil => exact rising_nil current
  | cons offer rest ih =>
    rw [accepted]
    split
    case isFalse => exact ih current
    case isTrue admitted =>
      have one : Rising current [rank offer] := by
        cases current with
        | none => exact List.pairwise_singleton _ _
        | some value => simpa [Rising, admits] using admitted
      exact rising_append one (ih _)

/-- Nothing is refused for being new. -/
def Welcome (refused : α → Bool) (rank : β → α) (current : Option α) (offers : List β) : Prop :=
  current = none → ∀ offer ∈ offers, refused (rank offer) = false

/-- The greatest of a value and the ranks of a list. -/
def greatest (rank : β → α) (current : Option α) (offers : List β) : Option α :=
  (current.toList ++ offers.map rank).max?

theorem absorb_some (value offer : α) :
    absorb refused (some value) offer = some (max value offer) := by
  rcases lt_or_ge value offer with less | ge
  · rw [absorb_of_admits (by simpa [admits] using less), max_eq_right less.le]
  · rw [absorb_of_not_admits (by simpa [admits] using ge), max_eq_left ge]

theorem absorbAll_some (value : α) (offers : List β) :
    absorbAll refused rank (some value) offers = some ((offers.map rank).foldl max value) := by
  induction offers generalizing value with
  | nil => rfl
  | cons offer rest ih => rw [absorbAll_cons, absorb_some, ih]; rfl

/-- A value only goes up. -/
theorem le_absorbAll (value : α) (offers : List β) :
    ∃ after, absorbAll refused rank (some value) offers = some after ∧ value ≤ after := by
  induction offers generalizing value with
  | nil => exact ⟨value, rfl, le_rfl⟩
  | cons offer rest ih =>
    obtain ⟨after, final, le⟩ := ih (max value (rank offer))
    rw [absorbAll_cons, absorb_some]
    exact ⟨after, final, (le_max_left _ _).trans le⟩

/-- A register ends up with no less than any offer, unless it is empty and refuses it. -/
theorem offer_le_absorbAll {current : Option α} {offers : List β} {offer : β}
    (listed : offer ∈ offers) (welcome : current = none → refused (rank offer) = false) :
    ∃ after, absorbAll refused rank current offers = some after ∧ rank offer ≤ after := by
  induction offers generalizing current with
  | nil => cases listed
  | cons first rest ih =>
    rcases List.mem_cons.mp listed with rfl | later
    · rw [absorbAll_cons]
      cases current with
      | none =>
        have taken : admits refused none (rank offer) = true := by simp [admits, welcome]
        rw [absorb_of_admits taken]
        exact le_absorbAll _ _
      | some value =>
        rw [absorb_some]
        obtain ⟨after, final, le⟩ := le_absorbAll (max value (rank offer)) rest
        exact ⟨after, final, (le_max_right _ _).trans le⟩
    · rw [absorbAll_cons]
      refine ih later fun none => ?_
      cases current with
      | none => exact welcome rfl
      | some value => cases (absorb_some value (rank first)).symm.trans none

/-- What is left does not depend on the order of the offers. -/
theorem absorbAll_eq_greatest {current : Option α} {offers : List β}
    (welcome : Welcome refused rank current offers) :
    absorbAll refused rank current offers = greatest rank current offers := by
  cases current with
  | some value => exact absorbAll_some value offers
  | none =>
    cases offers with
    | nil => rfl
    | cons offer rest =>
      have taken : admits refused none (rank offer) = true := by
        simp [admits, welcome rfl offer List.mem_cons_self]
      rw [absorbAll_cons, absorb_of_admits taken, absorbAll_some]
      rfl

theorem greatest_eq_some {current : Option α} {offers : List β} {value : α} :
    greatest rank current offers = some value ↔
      (current = some value ∨ ∃ offer ∈ offers, rank offer = value) ∧
        (∀ v, current = some v → v ≤ value) ∧ ∀ offer ∈ offers, rank offer ≤ value := by
  rw [greatest, List.max?_eq_some_iff]
  simp only [List.mem_append, Option.mem_toList, List.mem_map, or_imp, forall_and,
    forall_exists_index, and_imp, forall_apply_eq_imp_iff₂]

theorem greatest_congr {current : Option α} {offers others : List β}
    (same : ∀ offer, offer ∈ offers ↔ offer ∈ others) :
    greatest rank current offers = greatest rank current others := by
  ext value
  simp only [greatest_eq_some, same]

end Ringpop.GreatestWins
