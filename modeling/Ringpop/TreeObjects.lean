import Ringpop.TreeIterator

/-! The iterator of `rbtree.js` on nodes that are objects: children and ancestors are
references, and `next` finds its way by comparing them. On a search tree it goes the same
way as the iterator that remembers the sides. Loops are given the passes they may make. -/
namespace Ringpop.RedBlackTree
open OrderedEntries

/-- A `RingNode` in memory; `ρ` are the references to nodes and `none` is `null`. -/
structure RingObject (ρ κ ν : Type) where
  key : κ
  value : ν
  left : Option ρ
  right : Option ρ
  red : Bool

structure TreeObject (ρ κ ν : Type) where
  root : Option ρ
  node : ρ → RingObject ρ κ ν

structure IteratorObject (ρ : Type) where
  /-- top of the stack first -/
  ancestors : List ρ
  cursor : Option ρ

variable {ρ κ ν : Type}

def RingObject.getChild (node : RingObject ρ κ ν) (dir : Bool) : Option ρ :=
  if dir then node.right else node.left

def RingObject.entry (node : RingObject ρ κ ν) : κ × ν := (node.key, node.value)

namespace TreeObject

def iterator : IteratorObject ρ := ⟨[], none⟩

section Definitions
variable [DecidableEq ρ] (tree : TreeObject ρ κ ν)

def key (it : IteratorObject ρ) : Option κ := it.cursor.map fun r => (tree.node r).key

def value (it : IteratorObject ρ) : Option ν := it.cursor.map fun r => (tree.node r).value

def minNode : ℕ → List ρ → ρ → Option (IteratorObject ρ)
  | 0, _, _ => none
  | fuel + 1, ancestors, start =>
    match (tree.node start).left with
    | none => some ⟨ancestors, some start⟩
    | some left => minNode fuel (start :: ancestors) left

/-- The `do`-`while` loop of `next`. -/
def climb : List ρ → ρ → IteratorObject ρ
  | [], _ => ⟨[], none⟩
  | cursor :: ancestors, save =>
    if (tree.node cursor).right = some save then climb ancestors cursor
    else ⟨ancestors, some cursor⟩

/-- The new state of the iterator, with the key that the call returns. -/
def next (fuel : ℕ) (it : IteratorObject ρ) : Option (Option κ × IteratorObject ρ) := do
  let it ← match it.cursor with
    | none =>
      match tree.root with
      | none => some it
      | some root => tree.minNode fuel it.ancestors root
    | some cursor =>
      match (tree.node cursor).right with
      | none => some (tree.climb it.ancestors cursor)
      | some right => tree.minNode fuel (cursor :: it.ancestors) right
  some (tree.key it, it)

variable (cmp : κ → κ → ℤ) (key : κ)

/-- The `for` loop of `lowerBound`, down the stack. -/
def lastGreater : List ρ → IteratorObject ρ
  | [] => ⟨[], none⟩
  | cur :: ancestors =>
    if cmp key (tree.node cur).key < 0 then ⟨ancestors, some cur⟩ else lastGreater ancestors

def search : ℕ → List ρ → Option ρ → Option (IteratorObject ρ)
  | 0, _, _ => none
  | _ + 1, ancestors, none => some (tree.lastGreater cmp key ancestors)
  | fuel + 1, ancestors, some cur =>
    let c := cmp key (tree.node cur).key
    if c = 0 then some ⟨ancestors, some cur⟩
    else search fuel (cur :: ancestors) ((tree.node cur).getChild (decide (0 < c)))

def lowerBound (fuel : ℕ) : Option (IteratorObject ρ) := tree.search cmp key fuel [] tree.root

def upperBoundLoop (fuel : ℕ) : ℕ → IteratorObject ρ → Option (IteratorObject ρ)
  | 0, _ => none
  | passes + 1, it =>
    match tree.key it with
    | none => some it
    | some k =>
      if cmp k key < 0 then do
        let (_, it) ← tree.next fuel it
        upperBoundLoop fuel passes it
      else some it

def upperBound (fuel : ℕ) : Option (IteratorObject ρ) := do
  let it ← tree.lowerBound cmp key fuel
  tree.upperBoundLoop cmp key fuel fuel it

end Definitions

variable {tree : TreeObject ρ κ ν}

/-- A reference leads to the nodes of a tree. -/
inductive Holds (tree : TreeObject ρ κ ν) : Option ρ → RingNode κ ν → Prop where
  | null : Holds tree none .null
  | node {r : ρ} {left right : RingNode κ ν} : Holds tree (tree.node r).left left →
      Holds tree (tree.node r).right right →
      Holds tree (some r)
        (.node (tree.node r).key (tree.node r).value left right (tree.node r).red)

/-- The references of the frames between the root and a place. -/
inductive HoldsPath (tree : TreeObject ρ κ ν) : Option ρ → List ρ → List (Frame κ ν) → Prop where
  | root : HoldsPath tree tree.root [] []
  | frame {r : ρ} (dir : Bool) {other : RingNode κ ν} {ancestors : List ρ}
      {path : List (Frame κ ν)} : Holds tree ((tree.node r).getChild (!dir)) other →
      HoldsPath tree (some r) ancestors path →
      HoldsPath tree ((tree.node r).getChild dir) (r :: ancestors)
        (⟨(tree.node r).key, (tree.node r).value, dir, other, (tree.node r).red⟩ :: path)

/-- An iterator stands at the same place of the tree as one that remembers the sides. -/
inductive Shows (tree : TreeObject ρ κ ν) : IteratorObject ρ → RBIterator κ ν → Prop where
  | exhausted : Shows tree ⟨[], none⟩ ⟨[], .null⟩
  | atNode {r : ρ} {ancestors : List ρ} {path : List (Frame κ ν)} {node : RingNode κ ν} :
      Holds tree (some r) node → HoldsPath tree (some r) ancestors path →
      Shows tree ⟨ancestors, some r⟩ ⟨path, node⟩

theorem Holds.eq_none {ref : Option ρ} (h : Holds tree ref .null) : ref = none := by
  cases h
  rfl

theorem Holds.exists_ref {ref : Option ρ} {k : κ} {v : ν} {left right : RingNode κ ν} {red : Bool}
    (h : Holds tree ref (.node k v left right red)) : ∃ r, ref = some r := by
  cases h with
  | node => exact ⟨_, rfl⟩

theorem Holds.fill {r : ρ} {dir : Bool} {other child : RingNode κ ν}
    (beside : Holds tree ((tree.node r).getChild (!dir)) other)
    (below : Holds tree ((tree.node r).getChild dir) child) :
    Holds tree (some r) (Frame.fill
      ⟨(tree.node r).key, (tree.node r).value, dir, other, (tree.node r).red⟩ child) := by
  cases dir with
  | true => exact .node beside below
  | false => exact .node below beside

/-- The path one node further down. -/
theorem HoldsPath.descend {r s : ρ} (dir : Bool) {other : RingNode κ ν} {ancestors : List ρ}
    {path : List (Frame κ ν)} (child : (tree.node r).getChild dir = some s)
    (beside : Holds tree ((tree.node r).getChild (!dir)) other)
    (above : HoldsPath tree (some r) ancestors path) :
    HoldsPath tree (some s) (r :: ancestors)
      (⟨(tree.node r).key, (tree.node r).value, dir, other, (tree.node r).red⟩ :: path) :=
  child ▸ .frame dir beside above

theorem Holds.entry_mem {r : ρ} {t : RingNode κ ν} (h : Holds tree (some r) t) :
    (tree.node r).entry ∈ t.toList := by
  cases h with
  | node => exact List.mem_append_right _ List.mem_cons_self

theorem Shows.key {it : IteratorObject ρ} {place : RBIterator κ ν} (h : Shows tree it place) :
    tree.key it = place.key := by
  cases h with
  | exhausted => rfl
  | atNode here =>
    cases here
    rfl

theorem Shows.value {it : IteratorObject ρ} {place : RBIterator κ ν} (h : Shows tree it place) :
    tree.value it = place.value := by
  cases h with
  | exhausted => rfl
  | atNode here =>
    cases here
    rfl

theorem minNode_shows {node : RingNode κ ν} {fuel : ℕ} {start : ρ} {ancestors : List ρ}
    {path : List (Frame κ ν)} (enough : node.size ≤ fuel) (here : Holds tree (some start) node)
    (above : HoldsPath tree (some start) ancestors path) :
    ∃ it, tree.minNode fuel ancestors start = some it ∧
      Shows tree it (RBIterator.minNode path node) := by
  induction node generalizing fuel start ancestors path with
  | null => cases here
  | node k v left right red ihl =>
    cases fuel with
    | zero => simp [RingNode.size] at enough
    | succ fuel =>
      cases here with
      | @node _ left right hl hr =>
        cases left with
        | null =>
          refine ⟨⟨ancestors, some start⟩, ?_, .atNode (.node hl hr) above⟩
          simp only [minNode, hl.eq_none]
        | node k v l r c =>
          obtain ⟨child, ref⟩ := hl.exists_ref
          have fewer : (RingNode.node k v l r c).size ≤ fuel := by
            simp only [RingNode.size] at enough ⊢
            omega
          obtain ⟨it, run, shows⟩ := ihl fewer (ref ▸ hl) (above.descend false ref hr)
          refine ⟨it, ?_, shows⟩
          simp only [minNode, ref, run]

theorem lastGreater_shows {cmp : κ → κ → ℤ} {key : κ} {child : Option ρ} {save : RingNode κ ν}
    {ancestors : List ρ} {path : List (Frame κ ν)} (above : HoldsPath tree child ancestors path)
    (here : Holds tree child save) :
    Shows tree (tree.lastGreater cmp key ancestors)
      (RedBlackTree.lastGreater cmp key path save) := by
  induction above generalizing save with
  | root => exact .exhausted
  | frame dir beside above ih =>
    simp only [lastGreater, RedBlackTree.lastGreater]
    split
    · exact .atNode (beside.fill here) above
    · exact ih (beside.fill here)

theorem search_shows {cmp : κ → κ → ℤ} {key : κ} {node : RingNode κ ν} {fuel : ℕ}
    {cur : Option ρ} {ancestors : List ρ} {path : List (Frame κ ν)} (enough : node.size < fuel)
    (here : Holds tree cur node) (above : HoldsPath tree cur ancestors path) :
    ∃ it, tree.search cmp key fuel ancestors cur = some it ∧
      Shows tree it (RedBlackTree.search cmp key path node) := by
  induction node generalizing fuel cur ancestors path with
  | null =>
    obtain ⟨fuel, rfl⟩ := Nat.exists_eq_succ_of_ne_zero (Nat.ne_zero_of_lt enough)
    obtain rfl := here.eq_none
    exact ⟨_, rfl, lastGreater_shows above here⟩
  | node k v left right red ihl ihr =>
    obtain ⟨fuel, rfl⟩ := Nat.exists_eq_succ_of_ne_zero (Nat.ne_zero_of_lt enough)
    simp only [RingNode.size] at enough
    cases here with
    | @node r _ _ hl hr =>
      simp only [search, RedBlackTree.search]
      split
      case isTrue => exact ⟨_, rfl, .atNode (.node hl hr) above⟩
      case isFalse =>
        split
        case isTrue greater =>
          rw [decide_eq_true greater]
          exact ihr (by omega) hr (.frame true hl above)
        case isFalse less =>
          rw [decide_eq_false less]
          exact ihl (by omega) hl (.frame false hr above)

/-- The bound that `lowerBound` finds through references. -/
theorem lowerBound_shows (cmp : κ → κ → ℤ) (key : κ) {root : RingNode κ ν} {fuel : ℕ}
    (holds : Holds tree tree.root root) (enough : root.size < fuel) :
    ∃ it, tree.lowerBound cmp key fuel = some it ∧
      Shows tree it (RedBlackTree.lowerBound cmp root key) :=
  search_shows enough holds .root

section Lawful
variable {cmp : κ → κ → ℤ} [LawfulComparator cmp]

/-- In a search tree no node is both children of another. -/
theorem Holds.children_ne {r s : ρ} {k : κ} {v : ν} {left right : RingNode κ ν} {red : Bool}
    (asc : Ascending cmp (RingNode.node k v left right red).toList)
    (hl : Holds tree (some r) left) (hr : Holds tree (some s) right) : r ≠ s := by
  rintro rfl
  have lower : cmp (tree.node r).key (tree.node r).key < 0 :=
    (List.pairwise_append.mp asc).2.2 _ hl.entry_mem _ (List.mem_cons_of_mem _ hr.entry_mem)
  exact lower.ne (cmp_self _)

variable [DecidableEq ρ]

theorem climb_shows {child : Option ρ} {r : ρ} {save : RingNode κ ν} {ancestors : List ρ}
    {path : List (Frame κ ν)} (asc : Ascending cmp (unwind path save).toList)
    (above : HoldsPath tree child ancestors path) (here : Holds tree child save)
    (ref : child = some r) :
    Shows tree (tree.climb ancestors r) (RBIterator.climb path save) := by
  induction above generalizing save r with
  | root => exact .exhausted
  -- the source compares references where the other iterator looks at the side
  | @frame cursor dir other ancestors path beside above ih =>
    cases dir with
    | true =>
      have back : (tree.node cursor).right = some r := ref
      simp only [climb, RBIterator.climb, back, if_true]
      exact ih asc (beside.fill here) rfl
    | false =>
      have own := ascending_of_unwind path asc
      have back : (tree.node cursor).right ≠ some r := by
        intro same
        change Holds tree (tree.node cursor).right other at beside
        rw [same] at beside
        rw [ref] at here
        exact Holds.children_ne own here beside rfl
      simp only [climb, RBIterator.climb, back, if_false]
      exact .atNode (beside.fill here) above

theorem next_shows {root : RingNode κ ν} {fuel : ℕ} {it : IteratorObject ρ}
    {place : RBIterator κ ν} {rest : List (κ × ν)} (asc : Ascending cmp root.toList)
    (holds : Holds tree tree.root root) (enough : root.size ≤ fuel) (h : Shows tree it place)
    (yields : Yields root place rest) :
    ∃ it', tree.next fuel it = some ((place.next root).key, it') ∧
      Shows tree it' (place.next root) := by
  suffices run : ∃ it', tree.next fuel it = some (tree.key it', it') ∧
      Shows tree it' (place.next root) by
    obtain ⟨it', run, h'⟩ := run
    exact ⟨it', by rw [run, h'.key], h'⟩
  cases h with
  | exhausted =>
    cases root with
    | null =>
      refine ⟨⟨[], none⟩, ?_, .exhausted⟩
      simp [next, holds.eq_none]
    | node k v left right red =>
      obtain ⟨r, ref⟩ := holds.exists_ref
      obtain ⟨it', run, h'⟩ := minNode_shows enough (ref ▸ holds) (ref ▸ HoldsPath.root)
      refine ⟨it', ?_, h'⟩
      simp [next, ref, run]
  | @atNode r ancestors path _ here above =>
    cases here with
    | @node _ left right hl hr =>
      cases yields with
      | atNode whole =>
        cases right with
        | null =>
          refine ⟨tree.climb ancestors r, ?_, climb_shows (whole ▸ asc) above (.node hl hr) rfl⟩
          simp [next, hr.eq_none]
        | node k v l r' c =>
          obtain ⟨child, ref⟩ := hr.exists_ref
          have whole' : unwind (⟨(tree.node r).key, (tree.node r).value, true, left,
              (tree.node r).red⟩ :: path) (.node k v l r' c) = root := whole
          obtain ⟨it', run, h'⟩ := minNode_shows ((size_le_of_unwind whole').trans enough)
            (ref ▸ hr) (above.descend true ref hl)
          refine ⟨it', ?_, h'⟩
          simp [next, ref, run]

/-- The loop of `upperBound` finds nothing to skip. -/
theorem upperBound_eq_lowerBound {root : RingNode κ ν} {key : κ} {fuel : ℕ}
    (asc : Ascending cmp root.toList) (holds : Holds tree tree.root root)
    (enough : root.size < fuel) :
    tree.upperBound cmp key fuel = tree.lowerBound cmp key fuel := by
  obtain ⟨it, found, h⟩ := lowerBound_shows cmp key holds enough
  obtain ⟨passes, rfl⟩ := Nat.exists_eq_succ_of_ne_zero (Nat.ne_zero_of_lt enough)
  have here : tree.key it = (notBelow cmp key root.toList).head?.map Prod.fst := by
    rw [h.key, (lowerBound_yields asc).key]
  rw [upperBound, found, Option.bind_eq_bind, Option.bind_some, upperBoundLoop, here]
  cases rest : notBelow cmp key root.toList with
  | nil => rfl
  | cons entry rest' =>
    have stop := head_notBelow rest
    simp only [List.head?_cons, Option.map_some, if_neg stop.not_gt]

end Lawful

end TreeObject

end Ringpop.RedBlackTree
