import Mathlib.Data.List.Perm.Subperm
import Mathlib.Algebra.Order.Ring.Int
import Mathlib.Tactic.Common

/-! Owners on a circle. The points are a list in the order of their hashes; a
position is owned by the first point at or after it, and past the last point the
circle starts again. -/
namespace Ringpop.Clockwise

variable {α : Type}

/-- The owners met on one lap from the position `h`. -/
def clockwise (h : ℤ) (points : List (ℤ × α)) : List α :=
  (points.filter (h ≤ ·.1) ++ points.filter (·.1 < h)).map Prod.snd

def owner (h : ℤ) (points : List (ℤ × α)) : Option α := (clockwise h points).head?

/-- The points of the owners that satisfy `p`. -/
def restrict (p : α → Bool) (points : List (ℤ × α)) : List (ℤ × α) :=
  points.filter fun e => p e.2

theorem clockwise_restrict (h : ℤ) (p : α → Bool) (points : List (ℤ × α)) :
    clockwise h (restrict p points) = (clockwise h points).filter p := by
  simp only [clockwise, restrict, List.map_append, List.filter_append, List.filter_map,
    List.filter_filter, Function.comp_def, Bool.and_comm]

theorem mem_clockwise {h : ℤ} {points : List (ℤ × α)} {a : α} :
    a ∈ clockwise h points ↔ ∃ e ∈ points, e.2 = a := by
  simp only [clockwise, List.mem_map, List.mem_append, List.mem_filter, decide_eq_true_eq]
  constructor
  · rintro ⟨e, ⟨he, -⟩ | ⟨he, -⟩, rfl⟩ <;> exact ⟨e, he, rfl⟩
  · rintro ⟨e, he, rfl⟩
    exact ⟨e, (le_or_gt h e.1).imp (⟨he, ·⟩) (⟨he, ·⟩), rfl⟩

/-- An owner keeps its positions when others leave. -/
theorem owner_restrict {h : ℤ} {p : α → Bool} {points : List (ℤ × α)} {a : α}
    (owns : owner h points = some a) (keeps : p a = true) :
    owner h (restrict p points) = some a := by
  rw [owner] at owns ⊢
  obtain ⟨rest, lap⟩ := List.head?_eq_some_iff.mp owns
  rw [clockwise_restrict, lap, List.filter_cons_of_pos keeps, List.head?_cons]

section Preference
variable [DecidableEq α]

/-- The first `n` different owners. -/
def preference (n : ℕ) (h : ℤ) (points : List (ℤ × α)) : List α :=
  (clockwise h points).eraseDups.take n

/-- Induction on a list by taking out all copies of its first element. -/
theorem eraseDups_induction {motive : List α → Prop} (nil : motive [])
    (cons : ∀ a l, motive (l.filter fun b => !b == a) → motive (a :: l)) (l : List α) :
    motive l := by
  induction hn : l.length using Nat.strong_induction_on generalizing l with
  | _ n ih =>
    cases l with
    | nil => exact nil
    | cons a l =>
      have shorter : (l.filter fun b => !b == a).length < n := by
        have := List.length_filter_le (fun b => !b == a) l
        simp only [List.length_cons] at hn
        omega
      exact cons a l (ih _ shorter _ rfl)

theorem eraseDups_filter (p : α → Bool) (l : List α) :
    (l.filter p).eraseDups = l.eraseDups.filter p := by
  induction l using eraseDups_induction with
  | nil => rfl
  | cons a l ih =>
    rw [List.eraseDups_cons]
    by_cases keep : p a = true
    · rw [List.filter_cons_of_pos keep, List.filter_cons_of_pos keep, List.eraseDups_cons,
        ← ih, List.filter_filter, List.filter_filter]
      simp only [Bool.and_comm]
    · rw [List.filter_cons_of_neg keep, List.filter_cons_of_neg keep, ← ih, List.filter_filter]
      congr 1
      refine List.filter_congr fun b _ => ?_
      by_cases same : b = a
      · subst same
        simpa using keep
      · simp [same]

theorem nodup_eraseDups (l : List α) : l.eraseDups.Nodup := by
  induction l using eraseDups_induction with
  | nil => exact List.nodup_nil
  | cons a l ih =>
    rw [List.eraseDups_cons]
    refine List.nodup_cons.mpr ⟨?_, ih⟩
    simp

theorem length_eraseDups_le {l keys : List α} (among : ∀ a ∈ l, a ∈ keys) :
    l.eraseDups.length ≤ keys.length :=
  (List.Nodup.subperm (nodup_eraseDups l) fun a ha =>
    among a (List.mem_eraseDups.mp ha)).length_le

/-- Deleting one element before or after the cut at `n` gives the same list. -/
theorem take_filter_ne {l : List α} (nodup : l.Nodup) (a : α) (n : ℕ) :
    (l.filter (· ≠ a)).take n = ((l.take (n + 1)).filter (· ≠ a)).take n := by
  induction l generalizing n with
  | nil => simp
  | cons b l ih =>
    obtain ⟨fresh, nodup⟩ := List.nodup_cons.mp nodup
    by_cases same : b = a
    · subst same
      have rest : l.filter (· ≠ b) = l :=
        List.filter_eq_self.mpr fun c hc => by
          simpa using fun equal : c = b => fresh (equal ▸ hc)
      have cut : (l.take n).filter (· ≠ b) = l.take n :=
        List.filter_eq_self.mpr fun c hc => by
          simpa using fun equal : c = b => fresh (equal ▸ List.mem_of_mem_take hc)
      rw [List.take_succ_cons, List.filter_cons_of_neg (by simp), List.filter_cons_of_neg (by simp),
        rest, cut, List.take_take, Nat.min_self]
    · rw [List.take_succ_cons, List.filter_cons_of_pos (by simpa using same),
        List.filter_cons_of_pos (by simpa using same)]
      cases n with
      | zero => rfl
      | succ n => rw [List.take_succ_cons, List.take_succ_cons, ih nodup n]

/-- Without `a`, the first `n` owners are those of the first `n + 1` that are not `a`. -/
theorem preference_restrict (n : ℕ) (h : ℤ) (points : List (ℤ × α)) (a : α) :
    preference n h (restrict (· ≠ a) points) =
      ((preference (n + 1) h points).filter (· ≠ a)).take n := by
  rw [preference, clockwise_restrict, eraseDups_filter, preference,
    take_filter_ne (nodup_eraseDups _)]

/-- When the owners are those of `keys`, one lap meets as many as there are keys. -/
theorem length_preference {h : ℤ} {points : List (ℤ × α)} {keys : List α} (nodup : keys.Nodup)
    (owners : ∀ a, a ∈ clockwise h points ↔ a ∈ keys) (n : ℕ) :
    (preference n h points).length = min n keys.length := by
  have whole : (clockwise h points).eraseDups.Perm keys :=
    (List.perm_ext_iff_of_nodup (nodup_eraseDups _) nodup).mpr fun a => by
      rw [List.mem_eraseDups, owners]
  rw [preference, List.length_take, whole.length_eq]

theorem nodup_preference (n : ℕ) (h : ℤ) (points : List (ℤ × α)) :
    (preference n h points).Nodup := (nodup_eraseDups _).sublist (List.take_sublist _ _)

/-- The first owner of the list is the owner of the position. -/
theorem head_preference (n : ℕ) (h : ℤ) (points : List (ℤ × α)) :
    (preference (n + 1) h points).head? = owner h points := by
  rw [preference, owner]
  cases clockwise h points with
  | nil => rfl
  | cons a l => rw [List.eraseDups_cons, List.take_succ_cons, List.head?_cons, List.head?_cons]

theorem preference_prefix {m n : ℕ} (le : m ≤ n) (h : ℤ) (points : List (ℤ × α)) :
    preference m h points <+: preference n h points := List.take_prefix_take_left le

/-- Add an owner to the results unless it is among them. -/
def push (resultArray : List α) (res : α) : List α :=
  if res ∈ resultArray then resultArray else resultArray ++ [res]

/-- The results after a look at the length and a walk over the remaining owners. -/
def resume (n : ℤ) (resultArray : List α) : List α → List α
  | [] => resultArray
  | res :: rest =>
    if resultArray.length < n then resume n (push resultArray res) rest else resultArray

/-- The results of a walk over `here`, then past the last point over `wrapped`.
The first owner is taken before the length is looked at. -/
def walk (n : ℤ) : List α → List α → List α
  | [], wrapped => resume n [] wrapped
  | res :: here, wrapped => resume n [res] (here ++ wrapped)

theorem resume_full {n : ℤ} {resultArray : List α} (full : ¬ resultArray.length < n)
    (rest : List α) : resume n resultArray rest = resultArray := by
  cases rest with
  | nil => rfl
  | cons res rest => rw [resume, if_neg full]

theorem resume_eq (n : ℤ) (resultArray rest : List α) :
    resume n resultArray rest =
      resultArray ++
        (rest.filter (· ∉ resultArray)).eraseDups.take (n - resultArray.length).toNat := by
  induction rest generalizing resultArray with
  | nil => simp [resume]
  | cons res rest ih =>
    rw [resume]
    split
    case isFalse enough =>
      have none : (n - resultArray.length).toNat = 0 := by omega
      rw [none, List.take_zero, List.append_nil]
    case isTrue short =>
      rw [ih, push]
      split
      case isTrue seen => rw [List.filter_cons_of_neg (by simpa using seen)]
      case isFalse fresh =>
        obtain ⟨m, hm⟩ : ∃ m : ℕ, n - resultArray.length = m + 1 :=
          ⟨(n - resultArray.length - 1).toNat, by omega⟩
        have rest' : (n - (resultArray ++ [res]).length).toNat = m := by
          rw [List.length_append, List.length_singleton]
          omega
        have here : (n - resultArray.length).toNat = m + 1 := by omega
        rw [List.filter_cons_of_pos (by simpa using fresh), List.eraseDups_cons, rest', here,
          List.take_succ_cons, List.append_assoc, List.singleton_append, List.filter_filter]
        congr 4
        refine List.filter_congr fun a _ => ?_
        by_cases equal : a = res <;> simp [equal]

theorem walk_eq {n : ℤ} (positive : 1 ≤ n) (here wrapped : List α) :
    walk n here wrapped = (here ++ wrapped).eraseDups.take n.toNat := by
  have start (l : List α) : resume n [] l = l.eraseDups.take n.toNat := by
    rw [resume_eq]
    simp
  cases here with
  | nil => exact start wrapped
  | cons res here =>
    rw [← start]
    simp only [walk, List.cons_append, resume, push, List.length_nil, List.not_mem_nil, if_false,
      List.nil_append]
    rw [if_pos (by omega)]

end Preference

end Ringpop.Clockwise
