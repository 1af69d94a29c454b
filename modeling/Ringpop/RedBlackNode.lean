import Ringpop.OrderedEntries

/-! Nodes of the red-black tree, and the place a top-down loop has reached in it.
A loop of `rbtree.js` holds references to a node and its nearest ancestors and
overwrites their fields. Here the nodes above the current one are a list of
frames, nearest first, so a write to an ancestor is a new list of frames.
Reading a field of `null` throws in the source; it is `none` here. -/
namespace Ringpop.RedBlackTree
open OrderedEntries

inductive RingNode (κ ν : Type) where
  | null
  | node (key : κ) (value : ν) (left right : RingNode κ ν) (red : Bool)
deriving DecidableEq, Repr

variable {κ ν : Type}

/-- `true` is the right child, as a truthy `dir` is in the source. -/
def RingNode.getChild : RingNode κ ν → Bool → RingNode κ ν
  | .null, _ => .null
  | .node _ _ left right _, dir => if dir then right else left

def RingNode.setChild : RingNode κ ν → Bool → RingNode κ ν → RingNode κ ν
  | .null, _, _ => .null
  | .node key value left right red, dir, child =>
    if dir then .node key value left child red else .node key value child right red

def RingNode.isRed : RingNode κ ν → Bool
  | .null => false
  | .node _ _ _ _ red => red

def RingNode.setRed : RingNode κ ν → Bool → RingNode κ ν
  | .null, _ => .null
  | .node key value left right _, red => .node key value left right red

def singleRotate (root : RingNode κ ν) (dir : Bool) : Option (RingNode κ ν) :=
  let save := root.getChild (!dir)
  if save matches .null then none
  else
    some ((save.setChild dir ((root.setChild (!dir) (save.getChild dir)).setRed true)).setRed false)

def doubleRotate (root : RingNode κ ν) (dir : Bool) : Option (RingNode κ ν) := do
  let child ← singleRotate (root.getChild (!dir)) (!dir)
  singleRotate (root.setChild (!dir) child) dir

/-- The entries in key order. -/
def RingNode.toList : RingNode κ ν → List (κ × ν)
  | .null => []
  | .node key value left right _ => left.toList ++ (key, value) :: right.toList

def RingNode.size : RingNode κ ν → ℕ
  | .null => 0
  | .node _ _ left right _ => left.size + right.size + 1

/-- An ancestor of the current node: everything but the child on the side `dir`. -/
structure Frame (κ ν : Type) where
  key : κ
  value : ν
  dir : Bool
  other : RingNode κ ν
  red : Bool

def Frame.fill (f : Frame κ ν) (child : RingNode κ ν) : RingNode κ ν :=
  if f.dir then .node f.key f.value f.other child f.red
  else .node f.key f.value child f.other f.red

/-- Leave a node towards the side `dir`. -/
def RingNode.descend : RingNode κ ν → Bool → Option (Frame κ ν × RingNode κ ν)
  | .null, _ => none
  | .node key value left right red, dir =>
    some (⟨key, value, dir, if dir then left else right, red⟩, if dir then right else left)

/-- The whole tree, from the frames above a node and that node. -/
def unwind : List (Frame κ ν) → RingNode κ ν → RingNode κ ν
  | [], node => node
  | f :: path, node => unwind path (f.fill node)

def Frame.before (f : Frame κ ν) : List (κ × ν) :=
  if f.dir then f.other.toList ++ [(f.key, f.value)] else []

def Frame.after (f : Frame κ ν) : List (κ × ν) :=
  if f.dir then [] else (f.key, f.value) :: f.other.toList

/-- The entries to the left of the current node. -/
def before : List (Frame κ ν) → List (κ × ν)
  | [] => []
  | f :: path => before path ++ f.before

/-- The entries to the right of the current node. -/
def after : List (Frame κ ν) → List (κ × ν)
  | [] => []
  | f :: path => f.after ++ after path

@[simp] theorem RingNode.isRed_null : (null : RingNode κ ν).isRed = false := rfl

@[simp] theorem RingNode.isRed_node (key : κ) (value : ν) (left right : RingNode κ ν) (red : Bool) :
    (node key value left right red).isRed = red := rfl

theorem RingNode.exists_of_isRed {t : RingNode κ ν} (h : t.isRed = true) :
    ∃ k v l r, t = .node k v l r true := by
  cases t with
  | null => cases h
  | node k v l r red => exact ⟨k, v, l, r, by rw [← h, isRed_node]⟩

@[simp] theorem toList_setRed (t : RingNode κ ν) (red : Bool) :
    (t.setRed red).toList = t.toList := by
  cases t <;> rfl

@[simp] theorem length_toList (t : RingNode κ ν) : t.toList.length = t.size := by
  induction t with
  | null => rfl
  | node key value left right red ihl ihr =>
    simp only [RingNode.toList, RingNode.size, List.length_append, List.length_cons, ihl, ihr]
    omega

@[simp] theorem toList_fill (f : Frame κ ν) (t : RingNode κ ν) :
    (f.fill t).toList = f.before ++ t.toList ++ f.after := by
  obtain ⟨key, value, dir, other, red⟩ := f
  cases dir <;> simp [Frame.fill, Frame.before, Frame.after, RingNode.toList]

theorem toList_unwind (path : List (Frame κ ν)) (t : RingNode κ ν) :
    (unwind path t).toList = before path ++ t.toList ++ after path := by
  induction path generalizing t with
  | nil => simp [unwind, before, after]
  | cons f path ih => rw [unwind, ih, toList_fill]; simp [before, after]

theorem size_le_of_unwind {path : List (Frame κ ν)} {t root : RingNode κ ν}
    (whole : unwind path t = root) : t.size ≤ root.size := by
  rw [← whole, ← length_toList, ← length_toList, toList_unwind]
  simp only [List.length_append]
  omega

/-- What is in order all over the tree is in order below each of its places. -/
theorem ascending_of_unwind {cmp : κ → κ → ℤ} (path : List (Frame κ ν)) {t : RingNode κ ν}
    (asc : Ascending cmp (unwind path t).toList) : Ascending cmp t.toList := by
  rw [toList_unwind] at asc
  exact (List.pairwise_append.mp (List.pairwise_append.mp asc).1).2.1

/-- Equal black heights below every node, and no red child of a red node. The
indices are the colour of the root and the number of black nodes on a path. -/
inductive Balanced : RingNode κ ν → Bool → ℕ → Prop where
  | null : Balanced .null false 0
  | red {key value left right n} : Balanced left false n → Balanced right false n →
      Balanced (.node key value left right true) true n
  | black {key value left right c₁ c₂ n} : Balanced left c₁ n → Balanced right c₂ n →
      Balanced (.node key value left right false) false (n + 1)

/-- A child of colour `c` and black height `n` makes a balanced node of the frame. -/
def Frame.Accepts (f : Frame κ ν) (c : Bool) (n : ℕ) : Prop :=
  ∃ c', Balanced f.other c' n ∧ (f.red = true → c = false ∧ c' = false)

def Frame.height (f : Frame κ ν) (n : ℕ) : ℕ := if f.red then n else n + 1

def Fits : List (Frame κ ν) → Bool → ℕ → Prop
  | [], _, _ => True
  | f :: path, c, n => f.Accepts c n ∧ Fits path f.red (f.height n)

theorem Balanced.color {t : RingNode κ ν} {c : Bool} {n : ℕ} (h : Balanced t c n) :
    t.isRed = c := by
  cases h <;> rfl

theorem Balanced.fill {f : Frame κ ν} {t : RingNode κ ν} {c : Bool} {n : ℕ}
    (h : Balanced t c n) (hf : f.Accepts c n) : Balanced (f.fill t) f.red (f.height n) := by
  obtain ⟨key, value, dir, other, red⟩ := f
  obtain ⟨c', ho, hr⟩ := hf
  cases red
  · cases dir
    · exact .black h ho
    · exact .black ho h
  · obtain ⟨rfl, rfl⟩ := hr rfl
    cases dir
    · exact .red h ho
    · exact .red ho h

theorem Balanced.unwind {path : List (Frame κ ν)} {t : RingNode κ ν} {c : Bool} {n : ℕ}
    (h : Balanced t c n) (hp : Fits path c n) :
    ∃ c' n', Balanced (RedBlackTree.unwind path t) c' n' := by
  induction path generalizing t c n with
  | nil => exact ⟨c, n, h⟩
  | cons f path ih => exact ih (h.fill hp.1) hp.2

theorem Balanced.blacken {t : RingNode κ ν} {c : Bool} {n : ℕ} (h : Balanced t c n) :
    ∃ n', Balanced (t.setRed false) false n' := by
  cases h with
  | null => exact ⟨0, .null⟩
  | red hl hr => exact ⟨_, .black hl hr⟩
  | black hl hr => exact ⟨_, .black hl hr⟩

/-- A black child is welcome wherever a red one of the same height is. -/
theorem Fits.of_red {path : List (Frame κ ν)} {c : Bool} {n : ℕ} (h : Fits path c n) :
    Fits path false n := by
  cases path with
  | nil => trivial
  | cons f path =>
    obtain ⟨⟨c', ho, hr⟩, hp⟩ := h
    exact ⟨⟨c', ho, fun red => ⟨rfl, (hr red).2⟩⟩, hp⟩

theorem Fits.descend {path : List (Frame κ ν)} {key : κ} {value : ν} {left right : RingNode κ ν}
    {red : Bool} {n : ℕ} (dir : Bool) (h : Balanced (.node key value left right red) red n)
    (hp : Fits path red n) :
    ∃ m, Balanced (if dir then right else left) (if dir then right else left).isRed m ∧
      Fits (⟨key, value, dir, if dir then left else right, red⟩ :: path)
        (if dir then right else left).isRed m := by
  cases h with
  | red hl hr =>
    refine ⟨n, ?_⟩
    cases dir
    · simp only [Bool.false_eq_true, if_false]
      rw [hl.color]
      exact ⟨hl, ⟨false, hr, fun _ => ⟨rfl, rfl⟩⟩, hp⟩
    · simp only [if_true]
      rw [hr.color]
      exact ⟨hr, ⟨false, hl, fun _ => ⟨rfl, rfl⟩⟩, hp⟩
  | @black _ _ _ _ c₁ c₂ m hl hr =>
    refine ⟨m, ?_⟩
    cases dir
    · simp only [Bool.false_eq_true, if_false]
      rw [hl.color]
      exact ⟨hl, ⟨c₂, hr, by simp⟩, hp⟩
    · simp only [if_true]
      rw [hr.color]
      exact ⟨hr, ⟨c₁, hl, by simp⟩, hp⟩

end Ringpop.RedBlackTree
