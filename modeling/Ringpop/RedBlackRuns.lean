import Ringpop.RedBlackTree

/-! Whole histories of a red-black tree. The shape is described node by node here, as the
validator of the tests does it, and the contents as a list that is kept in order. -/
namespace Ringpop.RedBlackTree
open OrderedEntries

variable {κ ν : Type} {cmp : κ → κ → ℤ}

/-- Every key lies between those of the two subtrees of its node. -/
def Searchable (cmp : κ → κ → ℤ) : RingNode κ ν → Prop
  | .null => True
  | .node key _ left right _ =>
    (∀ e ∈ left.toList, cmp e.1 key < 0) ∧ (∀ e ∈ right.toList, cmp key e.1 < 0) ∧
      Searchable cmp left ∧ Searchable cmp right

def NoRedRed : RingNode κ ν → Prop
  | .null => True
  | .node _ _ left right red =>
    (red = true → left.isRed = false ∧ right.isRed = false) ∧ NoRedRed left ∧ NoRedRed right

/-- The numbers of black nodes on the paths down to a missing child. -/
def blackCounts : RingNode κ ν → List ℕ
  | .null => [0]
  | .node _ _ left right red =>
    (blackCounts left ++ blackCounts right).map (· + if red then 0 else 1)

structure RedBlack (cmp : κ → κ → ℤ) (root : RingNode κ ν) : Prop where
  searchable : Searchable cmp root
  black : root.isRed = false
  noRedRed : NoRedRed root
  blackHeight : ∀ a ∈ blackCounts root, ∀ b ∈ blackCounts root, a = b

theorem searchable_of_ascending {root : RingNode κ ν} (asc : Ascending cmp root.toList) :
    Searchable cmp root := by
  induction root with
  | null => trivial
  | node key value left right red ihl ihr =>
    obtain ⟨low, upper, cross⟩ := List.pairwise_append.mp asc
    obtain ⟨above, high⟩ := List.pairwise_cons.mp upper
    exact ⟨fun e he => cross e he (key, value) List.mem_cons_self, above, ihl low, ihr high⟩

theorem Balanced.noRedRed {root : RingNode κ ν} {c : Bool} {n : ℕ} (h : Balanced root c n) :
    NoRedRed root := by
  induction h with
  | null => trivial
  | red left right ihl ihr => exact ⟨fun _ => ⟨left.color, right.color⟩, ihl, ihr⟩
  | black left right ihl ihr => exact ⟨nofun, ihl, ihr⟩

theorem Balanced.blackCounts {root : RingNode κ ν} {c : Bool} {n : ℕ} (h : Balanced root c n) :
    ∀ a ∈ blackCounts root, a = n := by
  induction h with
  | null => exact fun a ha => List.mem_singleton.mp ha
  | red left right ihl ihr =>
    intro a ha
    obtain ⟨b, hb, rfl⟩ := List.mem_map.mp ha
    exact (List.mem_append.mp hb).elim (ihl b) (ihr b)
  | black left right ihl ihr =>
    intro a ha
    obtain ⟨b, hb, rfl⟩ := List.mem_map.mp ha
    exact congrArg (· + 1) ((List.mem_append.mp hb).elim (ihl b) (ihr b))

theorem RBTree.redBlack (t : RBTree κ ν cmp) : RedBlack cmp t.root := by
  obtain ⟨n, balanced⟩ := t.balanced
  exact
    { searchable := searchable_of_ascending t.ascending
      black := balanced.color
      noRedRed := balanced.noRedRed
      blackHeight := fun a ha b hb =>
        (balanced.blackCounts a ha).trans (balanced.blackCounts b hb).symm }

inductive Call (κ ν : Type) where
  | insert (key : κ) (value : ν)
  | remove (key : κ)

namespace Call

/-- The source's own step on the nodes; `none` where it would follow a missing node. -/
def perform (cmp : κ → κ → ℤ) (root : RingNode κ ν) : Call κ ν → Option (RingNode κ ν × Bool)
  | insert key value => RedBlackTree.insert cmp root key value
  | remove key => RedBlackTree.remove cmp root key

/-- What a call is for, on the sorted list of entries. -/
def entries (cmp : κ → κ → ℤ) (l : List (κ × ν)) : Call κ ν → List (κ × ν)
  | insert key value => insertEntry cmp key value l
  | remove key => eraseEntry cmp key l

def apply [LawfulComparator cmp] (t : RBTree κ ν cmp) : Call κ ν → RBTree κ ν cmp × Bool
  | insert key value => t.insert key value
  | remove key => t.remove key

variable [LawfulComparator cmp] (t : RBTree κ ν cmp) (call : Call κ ν)

theorem perform_eq :
    call.perform cmp t.root = some ((call.apply t).1.root, (call.apply t).2) := by
  cases call with
  | insert key value => exact (Option.some_get (RBTree.insert_isSome t key value)).symm
  | remove key => exact (Option.some_get (RBTree.remove_isSome t key)).symm

theorem toList_apply : (call.apply t).1.toList = call.entries cmp t.toList := by
  cases call with
  | insert key value => exact RBTree.toList_insert t key value
  | remove key => exact RBTree.toList_remove t key

/-- A call tells whether it has changed the entries. -/
theorem apply_changed : (call.apply t).2 = true ↔ (call.apply t).1.toList ≠ t.toList := by
  rw [toList_apply]
  cases call with
  | insert key value =>
    obtain ⟨-, isNew, -⟩ := RBTree.insert_get t key value
    refine isNew.trans ⟨fun absent same => ?_, fun changed e he equal => ?_⟩
    · have longer : (insertEntry cmp key value t.toList).length = t.toList.length + 1 :=
        length_insertEntry absent
      rw [entries] at same
      rw [same] at longer
      omega
    · exact changed (insertEntry_of_any ⟨e, he, equal⟩)
  | remove key =>
    obtain ⟨-, present, -⟩ := RBTree.remove_get t key
    refine present.trans ⟨fun found same => ?_, fun changed => ?_⟩
    · obtain ⟨e, he, equal⟩ := found
      rw [entries] at same
      exact (mem_eraseEntry.mp (same.symm ▸ he : e ∈ eraseEntry cmp key t.toList)).2 equal
    · by_contra missing
      push Not at missing
      exact changed (eraseEntry_of_none missing)

end Call

namespace RBTree
variable [LawfulComparator cmp]

/-- The tree after a history of calls. -/
def run (calls : List (Call κ ν)) : RBTree κ ν cmp :=
  calls.foldl (fun t call => (call.apply t).1) .empty

/-- Every history leaves a red-black tree, and each further call does to the sorted list
of its entries what an ordered map does. -/
theorem run_orderedMap (calls : List (Call κ ν)) (call : Call κ ν) :
    let t : RBTree κ ν cmp := run calls
    let t' : RBTree κ ν cmp := run (calls ++ [call])
    RedBlack cmp t.root ∧ Ascending cmp t.toList ∧ t.size = t.toList.length ∧
      ∃ changed, call.perform cmp t.root = some (t'.root, changed) ∧
        t'.toList = call.entries cmp t.toList ∧ (changed = true ↔ t'.toList ≠ t.toList) := by
  intro t t'
  have next : t' = (call.apply t).1 := List.foldl_concat ..
  refine ⟨t.redBlack, t.ascending, t.size_eq, (call.apply t).2, ?_, ?_, ?_⟩
  · rw [next]
    exact call.perform_eq t
  · rw [next]
    exact call.toList_apply t
  · rw [next]
    exact call.apply_changed t

end RBTree

/-- Numbers by their difference. -/
instance : LawfulComparator fun a b : ℤ => a - b where
  neg_iff a b := by omega
  trans a b c := by omega

theorem RBTree.run_orderedMap_numbers :
    let t : RBTree ℤ ℤ fun a b => a - b :=
      run [.insert 3 30, .insert 1 10, .insert 2 20, .remove 3, .insert 1 11]
    RedBlack (fun a b : ℤ => a - b) t.root ∧ t.toList = [(1, 10), (2, 20)] :=
  ⟨(RBTree.run_orderedMap [.insert 3 30, .insert 1 10, .insert 2 20, .remove 3, .insert 1 11]
    (.remove 2)).1, by decide⟩

end Ringpop.RedBlackTree
