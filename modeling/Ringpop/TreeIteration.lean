import Ringpop.RedBlackRuns
import Ringpop.RepeatedCalls
import Ringpop.TreeObjects

/-! What repeated calls of `next` return, from a bound or from a new iterator, on every
tree that a history of insertions and removals leaves in memory. -/
namespace Ringpop.RedBlackTree
open OrderedEntries RepeatedCalls

variable {ρ κ ν : Type}

namespace RBIterator

/-- The entry of the node under the cursor. -/
def entry (it : RBIterator κ ν) : Option (κ × ν) :=
  match it.cursor with
  | .null => none
  | .node key value _ _ _ => some (key, value)

def visit (root : RingNode κ ν) (it : RBIterator κ ν) : Option (Option (κ × ν) × RBIterator κ ν) :=
  some ((it.next root).entry, it.next root)

end RBIterator

namespace Yields
variable {root : RingNode κ ν} {place : RBIterator κ ν} {rest : List (κ × ν)}

theorem entry (h : Yields root place rest) : place.entry = rest.head? := by
  cases h <;> rfl

/-- The entries before and after the cursor make up the tree. -/
theorem split {e : κ × ν} (h : Yields root place (e :: rest)) :
    ∃ lower, root.toList = lower ++ e :: rest := by
  generalize hl : e :: rest = list at h
  cases h with
  | exhausted => cases hl
  | @atNode ancestors key value left right red whole =>
    refine ⟨before ancestors ++ left.toList, ?_⟩
    rw [← whole, toList_unwind]
    simp [RingNode.toList]

theorem returned_visit (h : Yields root (place.next root) rest) :
    returned (RBIterator.visit root) (rest.length + 1) place =
      some (rest.map some ++ [none]) := by
  refine returned_of_ahead (fun it rest => Yields root (it.next root) rest) ?_ ?_ h
  · intro it last
    exact ⟨_, by rw [RBIterator.visit, last.entry]; rfl⟩
  · intro it e later ahead
    refine ⟨it.next root, ?_, ahead.next⟩
    rw [RBIterator.visit, ahead.entry, List.head?_cons]

end Yields

namespace TreeObject
variable {tree : TreeObject ρ κ ν}

inductive Reaches (tree : TreeObject ρ κ ν) : Option ρ → ρ → Prop where
  | here {r : ρ} : Reaches tree (some r) r
  | child {r s : ρ} (dir : Bool) : Reaches tree ((tree.node r).getChild dir) s →
      Reaches tree (some r) s

def Contains (tree : TreeObject ρ κ ν) (r : ρ) : Prop := tree.Reaches tree.root r

/-- The references to the nodes below a place, in the order of the entries. -/
theorem Holds.exists_refs {ref : Option ρ} {t : RingNode κ ν} (h : Holds tree ref t) :
    ∃ refs : List ρ, refs.map (fun r => (tree.node r).entry) = t.toList ∧
      ∀ s, s ∈ refs ↔ tree.Reaches ref s := by
  induction h with
  | null =>
    refine ⟨[], rfl, fun s => ⟨fun mem => absurd mem List.not_mem_nil, fun reached => ?_⟩⟩
    cases reached
  | @node r left right hl hr ihl ihr =>
    obtain ⟨ls, entriesl, meml⟩ := ihl
    obtain ⟨rs, entriesr, memr⟩ := ihr
    refine ⟨ls ++ r :: rs, ?_, fun s => ?_⟩
    · rw [List.map_append, List.map_cons, entriesl, entriesr]
      rfl
    · rw [List.mem_append, List.mem_cons, meml, memr]
      constructor
      · rintro (left | rfl | right)
        · exact .child false left
        · exact .here
        · exact .child true right
      · intro reached
        cases reached with
        | here => exact Or.inr (Or.inl rfl)
        | child dir reached =>
          cases dir with
          | true => exact Or.inr (Or.inr reached)
          | false => exact Or.inl reached

theorem HoldsPath.reaches {child : Option ρ} {ancestors : List ρ} {path : List (Frame κ ν)}
    (above : HoldsPath tree child ancestors path) {s : ρ} (reached : tree.Reaches child s) :
    tree.Contains s := by
  induction above with
  | root => exact reached
  | frame dir _ _ ih => exact ih (.child dir reached)

theorem Holds.entry_mem_iff {root : RingNode κ ν} (holds : Holds tree tree.root root)
    (e : κ × ν) : e ∈ root.toList ↔ ∃ s, tree.Contains s ∧ (tree.node s).entry = e := by
  obtain ⟨refs, entries, mem⟩ := holds.exists_refs
  rw [← entries, List.mem_map]
  exact exists_congr fun s => and_congr_left fun _ => mem s

/-- One call of `next`: the key that it returns, and the node where it leaves the cursor. -/
def visit [DecidableEq ρ] (tree : TreeObject ρ κ ν) (fuel : ℕ) (it : IteratorObject ρ) :
    Option ((Option κ × Option ρ) × IteratorObject ρ) :=
  (tree.next fuel it).map fun (answer, it) => ((answer, it.cursor), it)

def atNode (tree : TreeObject ρ κ ν) (r : ρ) : Option κ × Option ρ :=
  (some (tree.node r).key, some r)

/-- A call that comes to a node of the tree, or to its end, as another iterator does. -/
inductive Sees (tree : TreeObject ρ κ ν) : Option κ × Option ρ → Option (κ × ν) → Prop where
  | node {r : ρ} : tree.Contains r → Sees tree (tree.atNode r) (some (tree.node r).entry)
  | null : Sees tree (none, none) none

theorem Shows.sees {it : IteratorObject ρ} {place : RBIterator κ ν} (h : Shows tree it place) :
    tree.Sees (place.key, it.cursor) place.entry := by
  cases h with
  | exhausted => exact .null
  | atNode here above =>
    have present := above.reaches .here
    cases here
    exact .node present

theorem Shows.entry {it : IteratorObject ρ} {place : RBIterator κ ν} (h : Shows tree it place) :
    place.entry = it.cursor.map fun r => (tree.node r).entry := by
  cases h with
  | exhausted => rfl
  | atNode here =>
    cases here
    rfl

theorem Shows.contains {it : IteratorObject ρ} {place : RBIterator κ ν} {r : ρ}
    (h : Shows tree it place) (cursor : it.cursor = some r) : tree.Contains r := by
  cases h with
  | exhausted => cases cursor
  | atNode _ above =>
    cases cursor
    exact above.reaches .here

/-- The nodes that stand behind what the calls see. -/
theorem nodes_of_sees {seen : List (Option κ × Option ρ)} {entries : List (κ × ν)}
    (h : List.Forall₂ tree.Sees seen (entries.map some ++ [none])) :
    ∃ nodes : List ρ, nodes.map (fun r => (tree.node r).entry) = entries ∧
      (∀ r ∈ nodes, tree.Contains r) ∧ seen = nodes.map tree.atNode ++ [(none, none)] := by
  induction entries generalizing seen with
  | nil =>
    cases h with
    | cons last rest =>
      cases last
      cases rest
      exact ⟨[], rfl, fun r mem => absurd mem List.not_mem_nil, rfl⟩
  | cons e entries ih =>
    cases h with
    | cons first rest =>
      obtain ⟨nodes, same, present, rfl⟩ := ih rest
      cases first with
      | @node r here =>
        refine ⟨r :: nodes, by rw [List.map_cons, same], ?_, rfl⟩
        exact List.forall_mem_cons.mpr ⟨here, present⟩

section Lawful
variable {cmp : κ → κ → ℤ}

/-- The least node that is not below `key`, or `null` when all nodes are. -/
def LeastFrom (tree : TreeObject ρ κ ν) (cmp : κ → κ → ℤ) (key : κ) : Option ρ → Prop
  | none => ∀ s, tree.Contains s → cmp (tree.node s).key key < 0
  | some r => tree.Contains r ∧ 0 ≤ cmp (tree.node r).key key ∧
      ∀ s, tree.Contains s → 0 ≤ cmp (tree.node s).key key →
        s = r ∨ cmp (tree.node r).key (tree.node s).key < 0

/-- What is still to come. A null iterator returns the first node next, so at `null` that is
every node. -/
def Follows (tree : TreeObject ρ κ ν) (cmp : κ → κ → ℤ) : Option ρ → ρ → Prop
  | none, _ => True
  | some r, s => cmp (tree.node r).key (tree.node s).key < 0

/-- Repeated calls of `next` come to every node after the cursor once, in ascending order,
and then to `null`. -/
def Iterates [DecidableEq ρ] (tree : TreeObject ρ κ ν) (cmp : κ → κ → ℤ) (fuel : ℕ)
    (it : IteratorObject ρ) : Prop :=
  ∃ nodes : List ρ, nodes.Nodup ∧
    nodes.Pairwise (fun r s => cmp (tree.node r).key (tree.node s).key < 0) ∧
    (∀ s, s ∈ nodes ↔ tree.Contains s ∧ tree.Follows cmp it.cursor s) ∧
    returned (tree.visit fuel) (nodes.length + 1) it =
      some (nodes.map tree.atNode ++ [(none, none)])

variable [LawfulComparator cmp] {root : RingNode κ ν} {it : IteratorObject ρ}
  {place : RBIterator κ ν} {rest : List (κ × ν)}

/-- No two nodes have one entry. -/
theorem Holds.entry_inj (asc : Ascending cmp root.toList) (holds : Holds tree tree.root root)
    {r s : ρ} (hr : tree.Contains r) (hs : tree.Contains s)
    (same : (tree.node r).entry = (tree.node s).entry) : r = s := by
  obtain ⟨refs, entries, mem⟩ := holds.exists_refs
  have nodup : (refs.map fun r => (tree.node r).entry).Nodup := entries ▸ asc.nodup
  exact List.inj_on_of_nodup_map nodup ((mem r).mpr hr) ((mem s).mpr hs) same

/-- The node under the cursor is the least of those that an iterator from the bound yields. -/
theorem Shows.leastFrom {key : κ} (asc : Ascending cmp root.toList)
    (holds : Holds tree tree.root root) (h : Shows tree it place)
    (yields : Yields root place (notBelow cmp key root.toList)) :
    tree.LeastFrom cmp key it.cursor := by
  have under := h.entry
  have mem_bound (s : ρ) (here : tree.Contains s) (reaches : 0 ≤ cmp (tree.node s).key key) :
      (tree.node s).entry ∈ notBelow cmp key root.toList :=
    List.mem_filter.mpr ⟨(holds.entry_mem_iff _).mpr ⟨s, here, rfl⟩, decide_eq_true reaches⟩
  rw [yields.entry] at under
  have asc' : Ascending cmp (notBelow cmp key root.toList) := asc.filter _
  cases rest : notBelow cmp key root.toList with
  | nil =>
    rw [rest] at under mem_bound
    have last : it.cursor = none := Option.map_eq_none_iff.mp under.symm
    rw [last]
    intro s here
    by_contra reaches
    exact absurd (mem_bound s here (not_lt.mp reaches)) List.not_mem_nil
  | cons e later =>
    rw [rest] at under mem_bound asc'
    obtain ⟨r, cursor, rfl⟩ := Option.map_eq_some_iff.mp under.symm
    have present : tree.Contains r := h.contains cursor
    rw [cursor]
    refine ⟨present, head_notBelow rest, fun s here reaches => ?_⟩
    rcases List.mem_cons.mp (mem_bound s here reaches) with same | behind
    · exact Or.inl (holds.entry_inj asc here present same)
    · exact Or.inr ((List.pairwise_cons.mp asc').1 _ behind)

variable [DecidableEq ρ] {fuel : ℕ}

theorem Shows.returned_visit (asc : Ascending cmp root.toList)
    (holds : Holds tree tree.root root) (enough : root.size ≤ fuel) (h : Shows tree it place)
    (yields : Yields root place rest) {n : ℕ} {answers : List (Option (κ × ν))}
    (run : returned (RBIterator.visit root) n place = some answers) :
    ∃ seen, returned (tree.visit fuel) n it = some seen ∧ List.Forall₂ tree.Sees seen answers := by
  refine returned_matched (fun it place => Shows tree it place ∧ ∃ rest, Yields root place rest)
    tree.Sees ?_ ⟨h, rest, yields⟩ run
  rintro it place answer place' ⟨h, rest, yields⟩ visited
  obtain ⟨rfl, rfl⟩ := Prod.mk.inj (Option.some.inj visited)
  obtain ⟨it', run, h'⟩ := next_shows asc holds enough h yields
  refine ⟨_, it', by rw [visit, run]; rfl, h'.sees, h', ?_⟩
  cases rest with
  | nil => exact ⟨_, yields.restart⟩
  | cons e rest => exact ⟨rest, yields.next⟩

/-- Where the entries ahead are those that follow the cursor, so are the nodes. -/
theorem Shows.iterates_of_ahead (asc : Ascending cmp root.toList)
    (holds : Holds tree tree.root root) (enough : root.size ≤ fuel) (h : Shows tree it place)
    (yields : Yields root place rest) {later : List (κ × ν)} (ahead : Yields root (place.next root) later)
    (sublist : later.Sublist root.toList)
    (follow : ∀ s, tree.Contains s →
      ((tree.node s).entry ∈ later ↔ tree.Follows cmp it.cursor s)) :
    tree.Iterates cmp fuel it := by
  obtain ⟨seen, run, sees⟩ := h.returned_visit asc holds enough yields ahead.returned_visit
  obtain ⟨nodes, entries, present, rfl⟩ := nodes_of_sees sees
  have asc' : Ascending cmp later := asc.sublist sublist
  have length : nodes.length = later.length := by rw [← entries, List.length_map]
  refine ⟨nodes, ?_, ?_, fun s => ⟨fun mem => ?_, fun ⟨here, after⟩ => ?_⟩, length ▸ run⟩
  · exact List.Nodup.of_map _ (entries ▸ asc'.nodup)
  · rw [← entries] at asc'
    exact List.pairwise_map.mp asc'
  · refine ⟨present s mem, (follow s (present s mem)).mp ?_⟩
    exact entries ▸ List.mem_map_of_mem mem
  · have mem := (follow s here).mpr after
    rw [← entries] at mem
    obtain ⟨r, hr, same⟩ := List.mem_map.mp mem
    exact holds.entry_inj asc (present r hr) here same ▸ hr

theorem Shows.iterates (asc : Ascending cmp root.toList) (holds : Holds tree tree.root root)
    (enough : root.size ≤ fuel) (h : Shows tree it place) (yields : Yields root place rest) :
    tree.Iterates cmp fuel it := by
  have under := h.entry
  rw [yields.entry] at under
  cases rest with
  | nil =>
    have start : it.cursor = none := Option.map_eq_none_iff.mp under.symm
    refine h.iterates_of_ahead asc holds enough yields yields.restart (List.Sublist.refl _) ?_
    intro s here
    rw [start]
    exact iff_of_true ((holds.entry_mem_iff _).mpr ⟨s, here, rfl⟩) trivial
  | cons e later =>
    obtain ⟨r, cursor, rfl⟩ := Option.map_eq_some_iff.mp under.symm
    obtain ⟨lower, whole⟩ := yields.split
    refine h.iterates_of_ahead asc holds enough yields yields.next ?_ fun s here => ?_
    · rw [whole]
      exact (List.sublist_cons_self _ _).trans (List.sublist_append_right _ _)
    · have mem := (holds.entry_mem_iff _).mpr ⟨s, here, rfl⟩
      rw [whole] at asc mem
      rw [cursor]
      exact mem_behind_iff asc mem

end Lawful

end TreeObject

namespace RBTree
open TreeObject
variable {cmp : κ → κ → ℤ} [LawfulComparator cmp] [DecidableEq ρ]

/-- On every tree that insertions and removals build, both bounds are the least node that is
not below the key, and an iterator comes from there, as it does from the start, to all the
nodes that follow. At `null` it starts anew. -/
theorem run_iterates (calls : List (Call κ ν)) (key : κ) (tree : TreeObject ρ κ ν)
    (holds : tree.Holds tree.root (run calls : RBTree κ ν cmp).root) (fuel : ℕ)
    (enough : (run calls : RBTree κ ν cmp).size < fuel) :
    (∃ it, tree.lowerBound cmp key fuel = some it ∧ tree.upperBound cmp key fuel = some it ∧
      tree.LeastFrom cmp key it.cursor ∧ tree.Iterates cmp fuel it) ∧
    tree.Iterates cmp fuel iterator := by
  have asc : Ascending cmp (run calls : RBTree κ ν cmp).root.toList := ascending _
  rw [size_eq, length_toList] at enough
  constructor
  · obtain ⟨it, found, shows⟩ := lowerBound_shows cmp key holds enough
    have yields : Yields _ _ (notBelow cmp key _) := lowerBound_yields asc
    refine ⟨it, found, ?_, shows.leastFrom asc holds yields,
      shows.iterates asc holds enough.le yields⟩
    rw [upperBound_eq_lowerBound asc holds enough, found]
  · exact Shows.exhausted.iterates asc holds enough.le .exhausted

end RBTree

namespace TreeObject

/-- References to the nodes of a tree, each by what it is. -/
def refTo : RingNode κ ν → Option {t : RingNode κ ν // t ≠ .null}
  | .null => none
  | .node key value left right red => some ⟨.node key value left right red, by simp⟩

theorem key_isSome {t : RingNode κ ν} (present : t ≠ .null) :
    t.key.isSome ∧ t.value.isSome := by
  cases t with
  | null => exact absurd rfl present
  | node => exact ⟨rfl, rfl⟩

def nodeAt (r : {t : RingNode κ ν // t ≠ .null}) :
    RingObject {t : RingNode κ ν // t ≠ .null} κ ν where
  key := r.1.key.get (key_isSome r.2).1
  value := r.1.value.get (key_isSome r.2).2
  left := refTo (r.1.getChild false)
  right := refTo (r.1.getChild true)
  red := r.1.isRed

def inMemory (root : RingNode κ ν) : TreeObject {t : RingNode κ ν // t ≠ .null} κ ν :=
  ⟨refTo root, nodeAt⟩

/-- Every tree has its place in memory. -/
theorem holds_inMemory (root t : RingNode κ ν) : Holds (inMemory root) (refTo t) t := by
  induction t with
  | null => exact .null
  | node key value left right red ihl ihr =>
    let r : {t : RingNode κ ν // t ≠ .null} := ⟨.node key value left right red, by simp⟩
    exact Holds.node (r := r) ihl ihr

end TreeObject

theorem RBTree.run_iterates_numbers :
    let t : RBTree ℤ ℤ fun a b => a - b :=
      run [.insert 3 30, .insert 1 10, .insert 2 20, .insert 5 50, .remove 3]
    let tree := TreeObject.inMemory t.root
    (∃ it, tree.lowerBound (fun a b => a - b) 2 4 = some it ∧
      tree.upperBound (fun a b => a - b) 2 4 = some it ∧
      tree.LeastFrom (fun a b => a - b) 2 it.cursor ∧
      tree.Iterates (fun a b => a - b) 4 it) ∧
    (returned (tree.visit 4) 4 TreeObject.iterator).map (·.map Prod.fst) =
      some [some 1, some 2, some 5, none] := by
  have whole := @RBTree.run_iterates _ ℤ ℤ (fun a b => a - b) _ _
    [.insert 3 30, .insert 1 10, .insert 2 20, .insert 5 50, .remove 3] 2 (TreeObject.inMemory _)
    (TreeObject.holds_inMemory _ _) 4 (by decide)
  exact ⟨whole.1, by decide⟩

end Ringpop.RedBlackTree
