import Mathlib.Data.List.Basic
import Mathlib.Algebra.Order.Ring.Int
import Mathlib.Data.List.Pairwise
import Mathlib.Data.List.Nodup
import Mathlib.Tactic.Common

/-! Lists of key-value entries in the order of a number-valued comparator.
Only the sign of the number counts. A comparator may call different keys
equal, so the entries are compared through it and never by equality of keys. -/
namespace Ringpop.OrderedEntries

/-- A total preorder given by signs; keys that compare as zero are interchangeable. -/
class LawfulComparator {κ : Type} (cmp : κ → κ → ℤ) : Prop where
  neg_iff : ∀ a b, cmp a b < 0 ↔ 0 < cmp b a
  trans : ∀ a b c, cmp a b ≤ 0 → cmp b c ≤ 0 → cmp a c ≤ 0

section Comparator
variable {κ : Type} {cmp : κ → κ → ℤ} [LawfulComparator cmp]

theorem cmp_neg_iff (a b : κ) : cmp a b < 0 ↔ 0 < cmp b a :=
  LawfulComparator.neg_iff a b

theorem cmp_zero_comm {a b : κ} : cmp a b = 0 ↔ cmp b a = 0 := by
  have h₁ : cmp a b < 0 ↔ 0 < cmp b a := cmp_neg_iff a b
  have h₂ : cmp b a < 0 ↔ 0 < cmp a b := cmp_neg_iff b a
  omega

theorem cmp_self (a : κ) : cmp a a = 0 := by
  have h : cmp a a < 0 ↔ 0 < cmp a a := cmp_neg_iff a a
  omega

theorem cmp_lt_of_le_of_lt {a b c : κ} (h₁ : cmp a b ≤ 0) (h₂ : cmp b c < 0) :
    cmp a c < 0 := by
  by_contra h
  have ha : cmp c a < 0 ↔ 0 < cmp a c := cmp_neg_iff c a
  have hb : cmp a c < 0 ↔ 0 < cmp c a := cmp_neg_iff a c
  have hc : cmp c b < 0 ↔ 0 < cmp b c := cmp_neg_iff c b
  have hd : cmp b c < 0 ↔ 0 < cmp c b := cmp_neg_iff b c
  have back : cmp c b ≤ 0 := LawfulComparator.trans c a b (by omega) h₁
  omega

theorem cmp_lt_of_lt_of_le {a b c : κ} (h₁ : cmp a b < 0) (h₂ : cmp b c ≤ 0) :
    cmp a c < 0 := by
  by_contra h
  have ha : cmp c a < 0 ↔ 0 < cmp a c := cmp_neg_iff c a
  have hb : cmp a c < 0 ↔ 0 < cmp c a := cmp_neg_iff a c
  have hc : cmp b a < 0 ↔ 0 < cmp a b := cmp_neg_iff b a
  have hd : cmp a b < 0 ↔ 0 < cmp b a := cmp_neg_iff a b
  have back : cmp b a ≤ 0 := LawfulComparator.trans b c a h₂ (by omega)
  omega

theorem cmp_lt_trans {a b c : κ} (h₁ : cmp a b < 0) (h₂ : cmp b c < 0) : cmp a c < 0 :=
  cmp_lt_of_le_of_lt h₁.le h₂

end Comparator

variable {κ ν : Type}

def Ascending (cmp : κ → κ → ℤ) (l : List (κ × ν)) : Prop :=
  l.Pairwise fun a b => cmp a.1 b.1 < 0

/-- The entries with `key` put in its place, unless an entry compares equal already. -/
def insertEntry (cmp : κ → κ → ℤ) (key : κ) (value : ν) (l : List (κ × ν)) : List (κ × ν) :=
  if l.any fun e => cmp e.1 key = 0 then l
  else l.filter (fun e => cmp e.1 key < 0) ++ (key, value) :: l.filter fun e => 0 < cmp e.1 key

def eraseEntry (cmp : κ → κ → ℤ) (key : κ) (l : List (κ × ν)) : List (κ × ν) :=
  l.filter fun e => cmp key e.1 ≠ 0

variable {cmp : κ → κ → ℤ}

theorem insertEntry_of_any {key : κ} {value : ν} {l : List (κ × ν)}
    (present : ∃ e ∈ l, cmp e.1 key = 0) : insertEntry cmp key value l = l := by
  simp only [insertEntry, List.any_eq_true, decide_eq_true_eq, present, if_true]

theorem insertEntry_between {key : κ} {value : ν} {lower upper : List (κ × ν)}
    (hl : ∀ e ∈ lower, cmp e.1 key < 0) (hu : ∀ e ∈ upper, 0 < cmp e.1 key) :
    insertEntry cmp key value (lower ++ upper) = lower ++ (key, value) :: upper := by
  have absent : ¬ (lower ++ upper).any (fun e => cmp e.1 key = 0) := by
    simp only [List.any_append, Bool.or_eq_true, List.any_eq_true, decide_eq_true_eq, not_or,
      not_exists, not_and]
    exact ⟨fun e he => (hl e he).ne, fun e he => (hu e he).ne'⟩
  rw [insertEntry, if_neg absent, List.filter_append, List.filter_append,
    List.filter_eq_self.mpr fun e he => by simpa using hl e he,
    List.filter_eq_nil_iff.mpr fun e he => by have := hu e he; simp; omega,
    List.filter_eq_nil_iff.mpr fun e he => by have := hl e he; simp; omega,
    List.filter_eq_self.mpr fun e he => by simpa using hu e he,
    List.append_nil, List.nil_append]

theorem eraseEntry_of_none {key : κ} {l : List (κ × ν)}
    (absent : ∀ e ∈ l, cmp key e.1 ≠ 0) : eraseEntry cmp key l = l :=
  List.filter_eq_self.mpr fun e he => by simpa using absent e he

theorem eraseEntry_middle {key : κ} {entry : κ × ν}
    {lower upper : List (κ × ν)} (hl : ∀ e ∈ lower, cmp key e.1 ≠ 0)
    (he : cmp key entry.1 = 0) (hu : ∀ e ∈ upper, cmp key e.1 ≠ 0) :
    eraseEntry cmp key (lower ++ entry :: upper) = lower ++ upper := by
  rw [eraseEntry, List.filter_append, List.filter_cons_of_neg (by simpa using he)]
  exact congrArg₂ (· ++ ·) (eraseEntry_of_none hl) (eraseEntry_of_none hu)

theorem mem_eraseEntry {key : κ} {l : List (κ × ν)} {e : κ × ν} :
    e ∈ eraseEntry cmp key l ↔ e ∈ l ∧ cmp key e.1 ≠ 0 := by
  simp [eraseEntry]

theorem ascending_eraseEntry {key : κ} {l : List (κ × ν)}
    (h : Ascending cmp l) : Ascending cmp (eraseEntry cmp key l) :=
  List.Pairwise.filter _ h

theorem mem_insertEntry {key : κ} {value : ν} {l : List (κ × ν)} {e : κ × ν} :
    e ∈ insertEntry cmp key value l ↔
      e ∈ l ∨ e = (key, value) ∧ ∀ d ∈ l, cmp d.1 key ≠ 0 := by
  unfold insertEntry
  split
  case isTrue present =>
    simp only [List.any_eq_true, decide_eq_true_eq] at present
    obtain ⟨d, hd, hk⟩ := present
    constructor
    · exact Or.inl
    · rintro (he | ⟨-, absent⟩)
      · exact he
      · exact absurd hk (absent d hd)
  case isFalse absent =>
    simp only [List.any_eq_true, decide_eq_true_eq, not_exists, not_and] at absent
    simp only [List.mem_append, List.mem_cons, List.mem_filter, decide_eq_true_eq]
    constructor
    · rintro (⟨he, -⟩ | he | ⟨he, -⟩)
      · exact Or.inl he
      · exact Or.inr ⟨he, absent⟩
      · exact Or.inl he
    · rintro (he | ⟨he, -⟩)
      · rcases lt_trichotomy (cmp e.1 key) 0 with h | h | h
        · exact Or.inl ⟨he, h⟩
        · exact absurd h (absent e he)
        · exact Or.inr (Or.inr ⟨he, h⟩)
      · exact Or.inr (Or.inl he)

section Lawful
variable [LawfulComparator cmp]

theorem ascending_insertEntry {key : κ} {value : ν} {l : List (κ × ν)}
    (h : Ascending cmp l) : Ascending cmp (insertEntry cmp key value l) := by
  unfold insertEntry
  split
  · exact h
  · refine List.pairwise_append.mpr ⟨h.filter _, List.pairwise_cons.mpr ⟨?_, h.filter _⟩, ?_⟩
    · intro e he
      have hk : 0 < cmp e.1 key := by simpa using (List.mem_filter.mp he).2
      exact (cmp_neg_iff key e.1).mpr hk
    · intro a ha b hb
      have hak : cmp a.1 key < 0 := by simpa using (List.mem_filter.mp ha).2
      rcases List.mem_cons.mp hb with rfl | hb
      · exact hak
      · have hbk : 0 < cmp b.1 key := by simpa using (List.mem_filter.mp hb).2
        exact cmp_lt_trans hak ((cmp_neg_iff key b.1).mpr hbk)

theorem ascending_middle {entry : κ × ν} {lower upper : List (κ × ν)} {key : κ}
    (h : Ascending cmp (lower ++ entry :: upper)) (he : cmp key entry.1 = 0) :
    (∀ e ∈ lower, cmp key e.1 ≠ 0) ∧ ∀ e ∈ upper, cmp key e.1 ≠ 0 := by
  obtain ⟨-, hentry, hcross⟩ := List.pairwise_append.mp h
  constructor
  · intro e hl
    have below : cmp e.1 entry.1 < 0 := hcross e hl entry List.mem_cons_self
    have at_key := cmp_lt_of_lt_of_le below (cmp_zero_comm.mp he).le
    exact fun hz => at_key.ne (cmp_zero_comm.mp hz)
  · intro e hu
    have above : cmp entry.1 e.1 < 0 := (List.pairwise_cons.mp hentry).1 e hu
    exact (cmp_lt_of_le_of_lt he.le above).ne

theorem Ascending.nodup_keys {l : List (κ × ν)} (h : Ascending cmp l) :
    (l.map Prod.fst).Nodup := by
  refine List.pairwise_map.mpr (h.imp fun {a b} less => ?_)
  intro same
  rw [same] at less
  exact less.ne (cmp_self b.1)

theorem Ascending.nodup {l : List (κ × ν)} (h : Ascending cmp l) : l.Nodup :=
  h.nodup_keys.of_map _

/-- In an ascending list the entries behind one of them are those greater than it. -/
theorem mem_behind_iff {lower upper : List (κ × ν)} {e d : κ × ν}
    (asc : Ascending cmp (lower ++ e :: upper)) (mem : d ∈ lower ++ e :: upper) :
    d ∈ upper ↔ cmp e.1 d.1 < 0 := by
  obtain ⟨-, ascu, cross⟩ := List.pairwise_append.mp asc
  refine ⟨(List.pairwise_cons.mp ascu).1 d, fun less => ?_⟩
  rcases List.mem_append.mp mem with low | here
  · exact absurd (cmp_lt_trans less (cross d low e List.mem_cons_self)) (cmp_self _).not_lt
  · rcases List.mem_cons.mp here with rfl | high
    · exact absurd less (cmp_self _).not_lt
    · exact high

theorem length_eraseEntry {key : κ} {l : List (κ × ν)} (h : Ascending cmp l)
    (present : ∃ e ∈ l, cmp key e.1 = 0) :
    (eraseEntry cmp key l).length = l.length - 1 := by
  obtain ⟨e, he, hk⟩ := present
  obtain ⟨lower, upper, rfl⟩ := List.append_of_mem he
  obtain ⟨hl, hu⟩ := ascending_middle h hk
  rw [eraseEntry_middle hl hk hu]
  simp only [List.length_append, List.length_cons]
  omega

end Lawful

theorem length_insertEntry {key : κ} {value : ν} {l : List (κ × ν)}
    (absent : ∀ e ∈ l, cmp e.1 key ≠ 0) :
    (insertEntry cmp key value l).length = l.length + 1 := by
  have none : ¬ l.any (fun e => cmp e.1 key = 0) := by
    simpa only [List.any_eq_true, decide_eq_true_eq, not_exists, not_and] using absent
  have split : l.filter (fun e => 0 < cmp e.1 key) =
      l.filter fun e => !decide (cmp e.1 key < 0) := by
    refine List.filter_congr fun e he => ?_
    have := absent e he
    simp only [← decide_not, decide_eq_decide]
    omega
  have total := List.length_eq_length_filter_add (l := l) fun e => decide (cmp e.1 key < 0)
  rw [insertEntry, if_neg none, List.length_append, List.length_cons, split]
  omega

end Ringpop.OrderedEntries
