import Mathlib.Data.List.Nodup
import Mathlib.Data.List.Basic
import Mathlib.Tactic.Common

/-! Maps with an order of insertion, as a JavaScript object with string keys has:
writing to a present key keeps its place, and a new key goes last. -/
namespace Ringpop.Dictionary

structure Dict (κ ν : Type) where
  entries : List (κ × ν)
  nodup : (entries.map Prod.fst).Nodup

namespace Dict
variable {κ ν : Type} [DecidableEq κ]

def empty : Dict κ ν := ⟨[], List.nodup_nil⟩

def keys (d : Dict κ ν) : List κ := d.entries.map Prod.fst

def get (d : Dict κ ν) (key : κ) : Option ν := d.entries.lookup key

def has (d : Dict κ ν) (key : κ) : Bool := (d.get key).isSome

theorem map_fst_overwrite (entries : List (κ × ν)) (key : κ) (value : ν) :
    (entries.map fun e => if e.1 = key then (key, value) else e).map Prod.fst =
      entries.map Prod.fst := by
  rw [List.map_map]
  refine List.map_congr_left fun e _ => ?_
  by_cases h : e.1 = key <;> simp [h]

def set (d : Dict κ ν) (key : κ) (value : ν) : Dict κ ν :=
  if present : key ∈ d.entries.map Prod.fst then
    { entries := d.entries.map fun e => if e.1 = key then (key, value) else e
      nodup := by rw [map_fst_overwrite]; exact d.nodup }
  else
    { entries := d.entries ++ [(key, value)]
      nodup := by
        rw [List.map_append]
        exact List.nodup_append.mpr ⟨d.nodup, List.nodup_singleton key, by
          intro a ha b hb equal
          obtain rfl : b = key := List.mem_singleton.mp hb
          exact present (equal ▸ ha)⟩ }

def delete (d : Dict κ ν) (key : κ) : Dict κ ν :=
  { entries := d.entries.filter fun e => e.1 ≠ key
    nodup := (List.filter_sublist.map Prod.fst).nodup d.nodup }

theorem get_eq_some {d : Dict κ ν} {key : κ} {value : ν} :
    d.get key = some value ↔ (key, value) ∈ d.entries := by
  obtain ⟨entries, nodup⟩ := d
  simp only [get]
  induction entries with
  | nil => simp
  | cons e entries ih =>
    obtain ⟨k, v⟩ := e
    obtain ⟨fresh, nodup⟩ := List.nodup_cons.mp nodup
    by_cases same : key = k
    · subst same
      have absent : (key, value) ∉ entries := fun h => fresh (List.mem_map.mpr ⟨_, h, rfl⟩)
      simp [absent, eq_comm]
    · have differs : (key == k) = false := by simpa using same
      simp [List.lookup_cons, differs, same, ih nodup]

theorem mem_keys {d : Dict κ ν} {key : κ} : key ∈ d.keys ↔ d.has key = true := by
  simp only [keys, has, Option.isSome_iff_exists, get_eq_some, List.mem_map, Prod.exists,
    exists_and_right, exists_eq_right]

omit [DecidableEq κ] in
theorem nodup_keys (d : Dict κ ν) : d.keys.Nodup := d.nodup

@[simp] theorem get_empty (key : κ) : (empty : Dict κ ν).get key = none := rfl

theorem mem_entries_set {d : Dict κ ν} {key other : κ} {value v : ν} :
    (other, v) ∈ (d.set key value).entries ↔
      if other = key then v = value else (other, v) ∈ d.entries := by
  unfold set
  split
  case isTrue present =>
    simp only [List.mem_map]
    split
    case isTrue same =>
      subst same
      constructor
      · rintro ⟨e, -, he⟩
        by_cases h : e.1 = other <;> simp only [h, if_true, if_false] at he
        · exact (congrArg Prod.snd he).symm
        · exact absurd (congrArg Prod.fst he) h
      · rintro rfl
        obtain ⟨e, he, rfl⟩ := List.mem_map.mp present
        exact ⟨e, he, if_pos rfl⟩
    case isFalse differs =>
      constructor
      · rintro ⟨e, he, equal⟩
        by_cases h : e.1 = key <;> simp only [h, if_true, if_false] at equal
        · exact absurd (congrArg Prod.fst equal).symm differs
        · exact equal ▸ he
      · exact fun h => ⟨_, h, if_neg differs⟩
  case isFalse absent =>
    simp only [List.mem_append, List.mem_singleton, Prod.mk.injEq]
    split
    case isTrue same =>
      subst same
      have fresh : (other, v) ∉ d.entries := fun h => absent (List.mem_map.mpr ⟨_, h, rfl⟩)
      simp [fresh]
    case isFalse differs => simp [differs]

@[simp] theorem get_set (d : Dict κ ν) (key other : κ) (value : ν) :
    (d.set key value).get other = if other = key then some value else d.get other := by
  ext v
  rw [get_eq_some, mem_entries_set]
  split
  · simp [eq_comm]
  · exact get_eq_some.symm

@[simp] theorem get_delete (d : Dict κ ν) (key other : κ) :
    (d.delete key).get other = if other = key then none else d.get other := by
  ext v
  rw [get_eq_some, delete, List.mem_filter, ← get_eq_some]
  by_cases same : other = key <;> simp [same]

@[simp] theorem has_empty (key : κ) : (empty : Dict κ ν).has key = false := rfl

@[simp] theorem has_set (d : Dict κ ν) (key other : κ) (value : ν) :
    (d.set key value).has other = (decide (other = key) || d.has other) := by
  by_cases same : other = key <;> simp [has, same]

@[simp] theorem has_delete (d : Dict κ ν) (key other : κ) :
    (d.delete key).has other = (!decide (other = key) && d.has other) := by
  by_cases same : other = key <;> simp [has, same]

theorem keys_set_of_mem {d : Dict κ ν} {key : κ} {value : ν} (present : key ∈ d.keys) :
    (d.set key value).keys = d.keys := by
  have entries : (d.set key value).entries =
      d.entries.map fun e => if e.1 = key then (key, value) else e :=
    congrArg Dict.entries (dif_pos present)
  rw [keys, entries, map_fst_overwrite]
  rfl

theorem keys_set_of_not_mem {d : Dict κ ν} {key : κ} {value : ν} (fresh : key ∉ d.keys) :
    (d.set key value).keys = d.keys ++ [key] := by
  have entries : (d.set key value).entries = d.entries ++ [(key, value)] :=
    congrArg Dict.entries (dif_neg fresh)
  rw [keys, entries, List.map_append]
  rfl

theorem keys_delete (d : Dict κ ν) (key : κ) : (d.delete key).keys = d.keys.erase key := by
  rw [d.nodup_keys.erase_eq_filter, keys, keys, delete, List.filter_map]
  congr 1
  refine List.filter_congr fun e _ => ?_
  by_cases same : e.1 = key <;> simp [same]

theorem delete_delete (d : Dict κ ν) (key : κ) : (d.delete key).delete key = d.delete key := by
  simp only [delete, List.filter_filter, Bool.and_self]

theorem has_foldl_set {α : Type} (f : α → κ) (value : ν) (l : List α) (d : Dict κ ν) (key : κ) :
    (l.foldl (fun (d : Dict κ ν) a => d.set (f a) value) d).has key =
      (d.has key || decide (∃ a ∈ l, f a = key)) := by
  induction l generalizing d with
  | nil => simp
  | cons a l ih =>
    rw [List.foldl_cons, ih, has_set]
    simp [eq_comm, Bool.or_assoc, Bool.or_left_comm]

/-- The keys decide the list up to order. -/
theorem keys_perm {d e : Dict κ ν} (same : ∀ key, d.has key = e.has key) :
    d.keys.Perm e.keys :=
  (List.perm_ext_iff_of_nodup d.nodup_keys e.nodup_keys).mpr fun key => by
    rw [mem_keys, mem_keys, same]

end Dict
end Ringpop.Dictionary
