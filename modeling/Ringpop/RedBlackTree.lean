import Ringpop.RedBlackRemove

/-! The tree of `rbtree.js` with its invariant, and the iterator over it.
`insert` and `remove` keep the invariant, so neither can run into a missing node
or a stale helper variable on a tree that was built by them. -/
namespace Ringpop.RedBlackTree
open OrderedEntries

structure RBTree (κ ν : Type) (cmp : κ → κ → ℤ) where
  root : RingNode κ ν
  size : ℕ
  balanced : ∃ n, Balanced root false n
  ascending : Ascending cmp root.toList
  size_eq : size = root.toList.length

namespace RBTree
variable {κ ν : Type} {cmp : κ → κ → ℤ}

def empty : RBTree κ ν cmp :=
  ⟨.null, 0, ⟨0, .null⟩, List.Pairwise.nil, rfl⟩

def toList (t : RBTree κ ν cmp) : List (κ × ν) := t.root.toList

@[simp] theorem toList_empty : (empty : RBTree κ ν cmp).toList = [] := rfl

section Lawful
variable [LawfulComparator cmp]

theorem insert_isSome (t : RBTree κ ν cmp) (key : κ) (value : ν) :
    (RedBlackTree.insert cmp t.root key value).isSome := by
  obtain ⟨n, balanced⟩ := t.balanced
  obtain ⟨root, ret, m, run, -⟩ := insert_spec key value balanced t.ascending
  simp [run]

theorem remove_isSome (t : RBTree κ ν cmp) (key : κ) :
    (RedBlackTree.remove cmp t.root key).isSome := by
  obtain ⟨n, balanced⟩ := t.balanced
  obtain ⟨root, found, m, run, -⟩ := remove_spec key balanced t.ascending
  simp [run]

theorem insert_get (t : RBTree κ ν cmp) (key : κ) (value : ν) :
    let result := (RedBlackTree.insert cmp t.root key value).get (insert_isSome t key value)
    result.1.toList = insertEntry cmp key value t.root.toList ∧
      (result.2 = true ↔ ∀ e ∈ t.root.toList, cmp e.1 key ≠ 0) ∧
      ∃ n, Balanced result.1 false n := by
  obtain ⟨n, balanced⟩ := t.balanced
  obtain ⟨root, ret, m, run, list, isNew, balanced'⟩ :=
    insert_spec key value balanced t.ascending
  simp only [run, Option.get_some]
  exact ⟨list, isNew, m, balanced'⟩

theorem remove_get (t : RBTree κ ν cmp) (key : κ) :
    let result := (RedBlackTree.remove cmp t.root key).get (remove_isSome t key)
    result.1.toList = eraseEntry cmp key t.root.toList ∧
      (result.2 = true ↔ ∃ e ∈ t.root.toList, cmp key e.1 = 0) ∧
      ∃ n, Balanced result.1 false n := by
  obtain ⟨n, balanced⟩ := t.balanced
  obtain ⟨root, found, m, run, list, present, balanced'⟩ :=
    remove_spec key balanced t.ascending
  simp only [run, Option.get_some]
  exact ⟨list, present, m, balanced'⟩

def insert (t : RBTree κ ν cmp) (key : κ) (value : ν) : RBTree κ ν cmp × Bool :=
  let result := (RedBlackTree.insert cmp t.root key value).get (insert_isSome t key value)
  ({ root := result.1
     size := if result.2 then t.size + 1 else t.size
     balanced := (insert_get t key value).2.2
     ascending := by
       rw [(insert_get t key value).1]
       exact ascending_insertEntry t.ascending
     size_eq := by
       obtain ⟨list, isNew, -⟩ := insert_get t key value
       rw [list, t.size_eq]
       split
       case isTrue added => exact (length_insertEntry (isNew.mp added)).symm
       case isFalse kept =>
         have present := mt isNew.mpr kept
         push Not at present
         rw [insertEntry_of_any present] }, result.2)

def remove (t : RBTree κ ν cmp) (key : κ) : RBTree κ ν cmp × Bool :=
  let result := (RedBlackTree.remove cmp t.root key).get (remove_isSome t key)
  ({ root := result.1
     size := if result.2 then t.size - 1 else t.size
     balanced := (remove_get t key).2.2
     ascending := by
       rw [(remove_get t key).1]
       exact ascending_eraseEntry t.ascending
     size_eq := by
       obtain ⟨list, present, -⟩ := remove_get t key
       rw [list, t.size_eq]
       split
       case isTrue found => exact (length_eraseEntry t.ascending (present.mp found)).symm
       case isFalse missing =>
         have absent := mt present.mpr missing
         push Not at absent
         rw [eraseEntry_of_none absent] }, result.2)

@[simp] theorem toList_insert (t : RBTree κ ν cmp) (key : κ) (value : ν) :
    (t.insert key value).1.toList = insertEntry cmp key value t.toList :=
  (insert_get t key value).1

@[simp] theorem toList_remove (t : RBTree κ ν cmp) (key : κ) :
    (t.remove key).1.toList = eraseEntry cmp key t.toList :=
  (remove_get t key).1

end Lawful
end RBTree

end Ringpop.RedBlackTree
