import Ringpop.Dictionary
import Mathlib.Data.List.Perm.Basic

/-! Lists that are split by a key: each group keeps the order of the list, and together the
groups are the list again. -/
namespace Ringpop.Dictionary
variable {α κ : Type} [DecidableEq κ]

def groupBy (f : α → κ) (l : List α) : Dict κ (List α) :=
  l.foldl (fun (d : Dict κ (List α)) a => d.set (f a) ((d.get (f a)).getD [] ++ [a])) .empty

def group (f : α → κ) (l : List α) (key : κ) : List α := l.filter fun a => f a = key

theorem get_foldl_group (f : α → κ) (l : List α) (d : Dict κ (List α)) (key : κ) :
    (l.foldl (fun (d : Dict κ (List α)) a => d.set (f a) ((d.get (f a)).getD [] ++ [a])) d).get
      key =
      if group f l key = [] then d.get key else some ((d.get key).getD [] ++ group f l key) := by
  induction l generalizing d with
  | nil => rfl
  | cons a l ih =>
    rw [List.foldl_cons, ih, Dict.get_set]
    by_cases here : f a = key
    · subst here
      have first : group f (a :: l) (f a) = a :: group f l (f a) :=
        List.filter_cons_of_pos (decide_eq_true rfl)
      rw [first, if_pos rfl, if_neg (List.cons_ne_nil _ _)]
      split
      case isTrue none => rw [none]
      case isFalse => rw [Option.getD_some, List.append_assoc, List.singleton_append]
    · have same : group f (a :: l) key = group f l key :=
        List.filter_cons_of_neg (by simp [here])
      rw [same, if_neg (Ne.symm here)]

theorem get_groupBy (f : α → κ) (l : List α) (key : κ) :
    (groupBy f l).get key = if group f l key = [] then none else some (group f l key) := by
  rw [groupBy, get_foldl_group]
  rfl

theorem has_groupBy (f : α → κ) (l : List α) (key : κ) :
    (groupBy f l).has key = true ↔ ∃ a ∈ l, f a = key := by
  rw [Dict.has, get_groupBy]
  split
  case isTrue none =>
    refine iff_of_false Bool.false_ne_true ?_
    rintro ⟨a, listed, here⟩
    exact List.filter_eq_nil_iff.mp none a listed (decide_eq_true here)
  case isFalse some =>
    obtain ⟨a, listed⟩ := List.exists_mem_of_ne_nil _ some
    obtain ⟨listed, here⟩ := List.mem_filter.mp listed
    exact iff_of_true rfl ⟨a, listed, of_decide_eq_true here⟩

/-- The groups of some keys have the elements with these keys. -/
theorem perm_flatMap_group (f : α → κ) (l : List α) {keys : List κ} (nodup : keys.Nodup) :
    (keys.flatMap (group f l)).Perm (l.filter fun a => f a ∈ keys) := by
  induction keys with
  | nil => simp
  | cons key keys ih =>
    obtain ⟨fresh, nodup⟩ := List.nodup_cons.mp nodup
    have split := List.filter_append_perm (fun a => decide (f a = key))
      (l.filter fun a => f a ∈ key :: keys)
    rw [List.filter_filter, List.filter_filter] at split
    have first : (l.filter fun a => decide (f a = key) && decide (f a ∈ key :: keys)) =
        group f l key := by
      refine List.filter_congr fun a _ => ?_
      by_cases here : f a = key <;> simp [here]
    have others : (l.filter fun a => !decide (f a = key) && decide (f a ∈ key :: keys)) =
        l.filter fun a => f a ∈ keys := by
      refine List.filter_congr fun a _ => ?_
      by_cases here : f a = key
      · simp [here, fresh]
      · simp [here]
    rw [first, others] at split
    rw [List.flatMap_cons]
    exact ((ih nodup).append_left _).trans split

theorem flatMap_group_perm (f : α → κ) (l : List α) {keys : List κ} (nodup : keys.Nodup)
    (all : ∀ a ∈ l, f a ∈ keys) : (keys.flatMap (group f l)).Perm l := by
  have same : (l.filter fun a => f a ∈ keys) = l :=
    List.filter_eq_self.mpr fun a listed => decide_eq_true (all a listed)
  have groups := perm_flatMap_group f l nodup
  rw [same] at groups
  exact groups

end Ringpop.Dictionary
