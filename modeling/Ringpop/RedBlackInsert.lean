import Ringpop.RedBlackNode

/-! `RBTree.prototype.insert`: one walk from the root to the key's place, with
colour flips on the way down and rotations as soon as two red nodes meet. -/
namespace Ringpop.RedBlackTree
open OrderedEntries

variable {κ ν : Type}

/-- Insert the new node at the bottom, or flip the colours of a node with two
red children. The second component is the source's `ret`. -/
def place (key : κ) (value : ν) (ret : Bool) : RingNode κ ν → RingNode κ ν × Bool
  | .null => (.node key value .null .null true, true)
  | .node k v left right red =>
    if left.isRed && right.isRed then
      (.node k v (left.setRed false) (right.setRed false) true, ret)
    else (.node k v left right red, ret)

/-- Fix a red node under a red parent. A rotation leaves the helper variables
behind: after a single one `ggp` points beside the path for one pass, after a
double one `gp` does, and `ggp` for two passes. `stale` counts these passes; a
rotation through a stale or missing helper has no result. -/
def fixViolation (stale : ℕ) (node : RingNode κ ν) :
    List (Frame κ ν) → Option (RingNode κ ν × List (Frame κ ν) × ℕ)
  | [] => some (node, [], stale - 1)
  | p :: rest =>
    if node.isRed && p.red then
      match stale, rest with
      | 0, gp :: ggp =>
        -- `last` is the side on which `p` hangs from `gp`
        let last := gp.dir
        if p.dir = last then do
          let save ← singleRotate (gp.fill (p.fill node)) (!last)
          let (p', node') ← save.descend last
          some (node', p' :: ggp, 1)
        else do
          let save ← doubleRotate (gp.fill (p.fill node)) (!last)
          some (save, ggp, 2)
      | _, _ => none
    else some (node, p :: rest, stale - 1)

/-- The body of `while (true)`; the fuel is the number of passes allowed. -/
def insertLoop (cmp : κ → κ → ℤ) (key : κ) (value : ν) :
    ℕ → ℕ → Bool → RingNode κ ν → List (Frame κ ν) → Option (RingNode κ ν × Bool)
  | 0, _, _, _, _ => none
  | fuel + 1, stale, ret, node, path => do
    let (placed, ret) := place key value ret node
    let (node, path, stale) ← fixViolation stale placed path
    match node with
    | .null => none
    | .node k v left right red =>
      if cmp k key = 0 then some (unwind path (.node k v left right red), ret)
      else
        let dir := decide (cmp k key < 0)
        insertLoop cmp key value fuel stale ret (if dir then right else left)
          (⟨k, v, dir, if dir then left else right, red⟩ :: path)

def insert (cmp : κ → κ → ℤ) (root : RingNode κ ν) (key : κ) (value : ν) :
    Option (RingNode κ ν × Bool) :=
  match root with
  | .null => some (.node key value .null .null false, true)
  | root => do
    let (root, ret) ← insertLoop cmp key value (2 * root.size + 2) 0 false root []
    some (root.setRed false, ret)

/-- The parent's frame after a single rotation, with the old grandparent below it. -/
def outerFrame (p gp : Frame κ ν) : Frame κ ν :=
  { p with red := false, other := Frame.fill { gp with red := true } p.other }

/-- The node after a double rotation, between its old parent and grandparent. -/
def innerNode (p gp : Frame κ ν) (k : κ) (v : ν) (l r : RingNode κ ν) : RingNode κ ν :=
  .node k v (Frame.fill { (if gp.dir then gp else p) with red := true } l)
    (Frame.fill { (if gp.dir then p else gp) with red := true } r) false

theorem descend_fill (f : Frame κ ν) (t : RingNode κ ν) :
    (f.fill t).descend f.dir = some (f, t) := by
  obtain ⟨key, value, dir, other, red⟩ := f
  cases dir <;> rfl

theorem singleRotate_outer (p gp : Frame κ ν) (t : RingNode κ ν) (h : p.dir = gp.dir) :
    singleRotate (gp.fill (p.fill t)) (!gp.dir) = some ((outerFrame p gp).fill t) := by
  obtain ⟨pk, pv, pd, po, pr⟩ := p
  obtain ⟨gk, gv, gd, go, gr⟩ := gp
  obtain rfl : pd = gd := h
  cases pd <;> rfl

theorem doubleRotate_inner (p gp : Frame κ ν) (k : κ) (v : ν) (l r : RingNode κ ν) (c : Bool)
    (h : p.dir ≠ gp.dir) :
    doubleRotate (gp.fill (p.fill (.node k v l r c))) (!gp.dir) =
      some (innerNode p gp k v l r) := by
  obtain ⟨pk, pv, pd, po, pr⟩ := p
  obtain ⟨gk, gv, gd, go, gr⟩ := gp
  cases pd <;> cases gd <;> first | exact absurd rfl h | rfl

/-- Present, and no candidate for a colour flip. -/
def Quiet : RingNode κ ν → Prop
  | .null => False
  | .node _ _ left right _ => ¬ (left.isRed = true ∧ right.isRed = true)

/-- The child on the search path of `key`. -/
def next (cmp : κ → κ → ℤ) (key : κ) : RingNode κ ν → RingNode κ ν
  | .null => .null
  | .node k _ left right _ => if cmp k key < 0 then right else left

/-- The child beside the search path of `key`. -/
def away (cmp : κ → κ → ℤ) (key : κ) : RingNode κ ν → RingNode κ ν
  | .null => .null
  | .node k _ left right _ => if cmp k key < 0 then left else right

/-- The number of nodes on the search path of `key`. -/
def depth (cmp : κ → κ → ℤ) (key : κ) : RingNode κ ν → ℕ
  | .null => 0
  | .node k _ left right _ =>
    if cmp k key < 0 then depth cmp key right + 1 else depth cmp key left + 1

/-- The frame was left towards `key`. -/
def Frame.Towards (cmp : κ → κ → ℤ) (key : κ) (f : Frame κ ν) : Prop :=
  cmp f.key key ≠ 0 ∧ f.dir = decide (cmp f.key key < 0)

/-- A node under a red parent causes no violation, or one that can be repaired. -/
def ParentOk (stale : ℕ) (node : RingNode κ ν) : List (Frame κ ν) → Prop
  | [] => True
  | p :: rest => p.red = true →
    Quiet node ∨ stale = 0 ∧ ∃ gp ggp, rest = gp :: ggp ∧ gp.other.isRed = false

/-- A red node has a black sibling, unless a double rotation has just made both. -/
def SiblingOk (cmp : κ → κ → ℤ) (key : κ) (stale : ℕ) (node : RingNode κ ν) :
    List (Frame κ ν) → Prop
  | [] => node.isRed = false
  | p :: _ => node.isRed = true →
    p.other.isRed = false ∧ stale ≤ 1 ∨ Quiet (next cmp key node)

/-- What holds at the head of the loop. -/
structure Walking (cmp : κ → κ → ℤ) (key : κ) (stale : ℕ) (node : RingNode κ ν)
    (path : List (Frame κ ν)) (n : ℕ) : Prop where
  towards : ∀ f ∈ path, f.Towards cmp key
  balanced : Balanced node node.isRed n
  fits : Fits path node.isRed n
  stale_le : stale ≤ 2
  parent : ParentOk stale node path
  sibling : SiblingOk cmp key stale node path

def passes (stale d : ℕ) : ℕ := if stale = 2 then 2 * d + 1 else 2 * d + 2

/-- What holds of the current node once a possible violation is fixed. -/
structure Passed (cmp : κ → κ → ℤ) (key : κ) (stale : ℕ) (node : RingNode κ ν)
    (path : List (Frame κ ν)) (n : ℕ) : Prop where
  towards : ∀ f ∈ path, f.Towards cmp key
  balanced : Balanced node node.isRed n
  fits : Fits path node.isRed n
  stale_le : stale ≤ 2
  parent : node.isRed = true →
    Quiet (next cmp key node) ∨ stale = 0 ∧ ∃ gp ggp, path = gp :: ggp ∧ gp.other.isRed = false
  sibling : (next cmp key node).isRed = true →
    (away cmp key node).isRed = false ∧ stale ≤ 1 ∨ Quiet (next cmp key (next cmp key node))

variable {cmp : κ → κ → ℤ} {key : κ}

theorem next_fill {f : Frame κ ν} (h : f.Towards cmp key) (t : RingNode κ ν) :
    next cmp key (f.fill t) = t := by
  obtain ⟨k, v, dir, other, red⟩ := f
  have hd : dir = decide (cmp k key < 0) := h.2
  by_cases hk : cmp k key < 0 <;> simp [Frame.fill, next, hd, hk]

theorem depth_fill {f : Frame κ ν} (h : f.Towards cmp key) (t : RingNode κ ν) :
    depth cmp key (f.fill t) = depth cmp key t + 1 := by
  obtain ⟨k, v, dir, other, red⟩ := f
  have hd : dir = decide (cmp k key < 0) := h.2
  by_cases hk : cmp k key < 0 <;> simp [Frame.fill, depth, hd, hk]

theorem depth_setRed (t : RingNode κ ν) (red : Bool) :
    depth cmp key (t.setRed red) = depth cmp key t := by
  cases t <;> rfl

theorem depth_le_size (t : RingNode κ ν) : depth cmp key t ≤ t.size := by
  induction t with
  | null => exact le_rfl
  | node k v left right red ihl ihr =>
    simp only [depth, RingNode.size]
    split <;> omega

theorem Balanced.quiet {t : RingNode κ ν} {n : ℕ} (h : Balanced t true n) :
    Quiet (t.setRed false) := by
  cases h with
  | red hl hr => simp [RingNode.setRed, Quiet, hl.color]

theorem Balanced.recolor {t : RingNode κ ν} {n : ℕ} (h : Balanced t true n) :
    Balanced (t.setRed false) false (n + 1) := by
  cases h with
  | red hl hr => exact .black hl hr

/-- The grandparent of a fitting red node's red parent is black. -/
theorem Fits.grandparent {p gp : Frame κ ν} {ggp : List (Frame κ ν)} {c : Bool} {n : ℕ}
    (h : Fits (p :: gp :: ggp) c n) (hp : p.red = true) : gp.red = false := by
  obtain ⟨-, ⟨c', -, hr⟩, -⟩ := h
  by_contra red
  have := (hr (by simpa using red)).1
  simp [hp] at this

section Violation
variable {p gp : Frame κ ν} {ggp : List (Frame κ ν)} {n : ℕ}

theorem fixViolation_single {t : RingNode κ ν} (ht : t.isRed = true) (hp : p.red = true)
    (hd : p.dir = gp.dir) :
    fixViolation 0 t (p :: gp :: ggp) = some (t, outerFrame p gp :: ggp, 1) := by
  have turned := singleRotate_outer p gp t hd
  have back := descend_fill (outerFrame p gp) t
  rw [show (outerFrame p gp).dir = gp.dir from hd] at back
  simp [fixViolation, ht, hp, hd, turned, back]

theorem fixViolation_double {k : κ} {v : ν} {l r : RingNode κ ν} (hp : p.red = true)
    (hd : p.dir ≠ gp.dir) :
    fixViolation 0 (.node k v l r true) (p :: gp :: ggp) =
      some (innerNode p gp k v l r, ggp, 2) := by
  simp [fixViolation, RingNode.isRed, hp, hd, doubleRotate_inner p gp k v l r true hd]

/-- A red parent's other child is black, and the path above takes a black node in
place of the black grandparent. -/
theorem Fits.black_other {c : Bool} (h : Fits (p :: gp :: ggp) c n) (hp : p.red = true) :
    Balanced p.other false n ∧ Fits ggp false (n + 1) := by
  have hg := h.grandparent hp
  obtain ⟨⟨c', hpo, hpr⟩, -, hf⟩ := h
  obtain ⟨-, rfl⟩ := hpr hp
  simp only [Frame.height, hp, if_true, hg] at hf
  exact ⟨hpo, hf⟩

/-- Parent and grandparent are balanced as red nodes over a black child. -/
theorem Fits.reddened (h : Fits (p :: gp :: ggp) false n) (hp : p.red = true)
    (ho : gp.other.isRed = false) {t : RingNode κ ν} (ht : Balanced t false n) :
    Balanced (Frame.fill { p with red := true } t) true n ∧
      Balanced (Frame.fill { gp with red := true } t) true n := by
  obtain ⟨⟨c', hpo, hpr⟩, ⟨c'', hgo, -⟩, -⟩ := h
  obtain ⟨-, rfl⟩ := hpr hp
  simp only [Frame.height, hp, if_true] at hgo
  obtain rfl : c'' = false := hgo.color.symm.trans ho
  exact ⟨ht.fill (f := { p with red := true }) ⟨false, hpo, fun _ => ⟨rfl, rfl⟩⟩,
    ht.fill (f := { gp with red := true }) ⟨false, hgo, fun _ => ⟨rfl, rfl⟩⟩⟩

theorem fits_outerFrame (h : Fits (p :: gp :: ggp) false n) (hp : p.red = true)
    (ho : gp.other.isRed = false) : Fits (outerFrame p gp :: ggp) true n := by
  obtain ⟨hpo, hf⟩ := h.black_other hp
  exact ⟨⟨true, (h.reddened hp ho hpo).2, by simp [outerFrame]⟩, hf⟩

theorem balanced_innerNode {k : κ} {v : ν} {l r : RingNode κ ν}
    (h : Fits (p :: gp :: ggp) false n) (hp : p.red = true) (ho : gp.other.isRed = false)
    (ht : Balanced (.node k v l r true) true n) :
    Balanced (innerNode p gp k v l r) false (n + 1) := by
  cases ht with
  | red hl hr =>
    unfold innerNode
    cases gp.dir
    · exact .black (h.reddened hp ho hl).1 (h.reddened hp ho hr).2
    · exact .black (h.reddened hp ho hl).2 (h.reddened hp ho hr).1

theorem toList_outerFrame (t : RingNode κ ν) (hd : p.dir = gp.dir) :
    (unwind (outerFrame p gp :: ggp) t).toList = (unwind (p :: gp :: ggp) t).toList := by
  obtain ⟨pk, pv, pd, po, pr⟩ := p
  obtain ⟨gk, gv, gd, go, gr⟩ := gp
  obtain rfl : pd = gd := hd
  cases pd <;> simp [toList_unwind, before, after, outerFrame, Frame.before, Frame.after]

theorem toList_innerNode (k : κ) (v : ν) (l r : RingNode κ ν) (hd : p.dir ≠ gp.dir) :
    (unwind ggp (innerNode p gp k v l r)).toList =
      (unwind (p :: gp :: ggp) (.node k v l r true)).toList := by
  obtain ⟨pk, pv, pd, po, pr⟩ := p
  obtain ⟨gk, gv, gd, go, gr⟩ := gp
  cases pd <;> cases gd <;> first
    | exact absurd rfl hd
    | simp [toList_unwind, before, after, innerNode, Frame.before, Frame.after, RingNode.toList]

end Violation

theorem next_innerNode {p gp : Frame κ ν} {k : κ} {v : ν} {l r : RingNode κ ν} (red : Bool)
    (hp : p.Towards cmp key) (hg : gp.Towards cmp key) :
    ∃ f : Frame κ ν, f.Towards cmp key ∧
      next cmp key (innerNode p gp k v l r) = f.fill (next cmp key (.node k v l r red)) := by
  have either (b : Bool) : (if b then gp else p).Towards cmp key := by
    cases b
    · exact hp
    · exact hg
  have orEither (b : Bool) : (if b then p else gp).Towards cmp key := by
    cases b
    · exact hg
    · exact hp
  simp only [innerNode, next]
  split
  · exact ⟨{ (if gp.dir then p else gp) with red := true }, orEither gp.dir, rfl⟩
  · exact ⟨{ (if gp.dir then gp else p) with red := true }, either gp.dir, rfl⟩

theorem depth_node {k : κ} {v : ν} {l r : RingNode κ ν} {red : Bool} :
    depth cmp key (.node k v l r red) = depth cmp key (next cmp key (.node k v l r red)) + 1 := by
  simp only [depth, next]
  split <;> rfl

theorem toList_unwind_congr {path : List (Frame κ ν)} {s t : RingNode κ ν}
    (h : s.toList = t.toList) : (unwind path s).toList = (unwind path t).toList := by
  rw [toList_unwind, toList_unwind, h]

/-- The result of a pass at a node that is present. -/
def PassResult (cmp : κ → κ → ℤ) (key : κ) (stale : ℕ) (placed : RingNode κ ν) (k : κ) (v : ν)
    (path : List (Frame κ ν)) (d : ℕ) (entries : List (κ × ν)) : Prop :=
  ∃ l r red path' stale' n,
    fixViolation stale placed path = some (.node k v l r red, path', stale') ∧
    Passed cmp key stale' (.node k v l r red) path' n ∧
    (unwind path' (.node k v l r red)).toList = entries ∧
    passes stale' (depth cmp key (next cmp key (.node k v l r red))) + 1 ≤ passes stale d

theorem passes_zero (d : ℕ) : passes 0 d = 2 * d + 2 := rfl
theorem passes_one (d : ℕ) : passes 1 d = 2 * d + 2 := rfl
theorem passes_two (d : ℕ) : passes 2 d = 2 * d + 1 := rfl

theorem passes_step {stale : ℕ} (h : stale ≤ 2) (d : ℕ) :
    passes (stale - 1) d + 1 ≤ passes stale (d + 1) := by
  obtain rfl | rfl | rfl : stale = 0 ∨ stale = 1 ∨ stale = 2 := by omega
  · rw [passes_zero, passes_zero]; omega
  · rw [passes_zero, passes_one]; omega
  · rw [passes_one, passes_two]; omega

section Flip
variable {k : κ} {v : ν} {l r : RingNode κ ν} {path : List (Frame κ ν)} {m : ℕ}

/-- Two red children sit below a black node. -/
theorem Walking.red_children {stale n : ℕ} {red : Bool}
    (w : Walking cmp key stale (.node k v l r red) path n) (hl : l.isRed = true)
    (hr : r.isRed = true) :
    ∃ m, red = false ∧ Balanced l true m ∧ Balanced r true m ∧ n = m + 1 := by
  cases w.balanced with
  | red bl br => simp [bl.color] at hl
  | black bl br => exact ⟨_, rfl, hl ▸ bl.color ▸ bl, hr ▸ br.color ▸ br, rfl⟩

theorem balanced_flipped (hl : Balanced l true m) (hr : Balanced r true m) :
    Balanced (.node k v (l.setRed false) (r.setRed false) true) true (m + 1) :=
  .red hl.recolor hr.recolor

theorem quiet_flipped (hl : Balanced l true m) (hr : Balanced r true m) :
    Quiet (next cmp key (.node k v (l.setRed false) (r.setRed false) true)) := by
  simp only [next]
  split
  · exact hr.quiet
  · exact hl.quiet

theorem isRed_flipped (hl : Balanced l true m) (hr : Balanced r true m) :
    (next cmp key (.node k v (l.setRed false) (r.setRed false) true)).isRed = false := by
  simp only [next]
  split
  · exact hr.recolor.color
  · exact hl.recolor.color

theorem depth_flipped :
    depth cmp key (.node k v l r false) =
      depth cmp key (next cmp key (.node k v (l.setRed false) (r.setRed false) true)) + 1 := by
  rw [depth_node]
  simp only [next]
  split <;> rw [depth_setRed]

theorem toList_flipped (path : List (Frame κ ν)) :
    (unwind path (.node k v (l.setRed false) (r.setRed false) true)).toList =
      (unwind path (.node k v l r false)).toList :=
  toList_unwind_congr (by simp [RingNode.toList])

/-- A flip below a node that is not red. -/
theorem Walking.flip_stay {stale : ℕ} (w : Walking cmp key stale (.node k v l r false) path (m + 1))
    (hl : Balanced l true m) (hr : Balanced r true m) (fits : Fits path true (m + 1))
    (fixed : fixViolation stale (.node k v (l.setRed false) (r.setRed false) true) path =
      some (.node k v (l.setRed false) (r.setRed false) true, path, stale - 1)) :
    PassResult cmp key stale (.node k v (l.setRed false) (r.setRed false) true) k v path
      (depth cmp key (.node k v l r false)) (unwind path (.node k v l r false)).toList := by
  refine ⟨_, _, _, _, _, m + 1, fixed, ⟨w.towards, balanced_flipped hl hr, fits, ?_,
    fun _ => .inl (quiet_flipped hl hr), ?_⟩, toList_flipped path, ?_⟩
  · have := w.stale_le
    omega
  · simp [isRed_flipped hl hr]
  · rw [depth_flipped]
    exact passes_step w.stale_le _

variable {p gp : Frame κ ν} {ggp : List (Frame κ ν)}

/-- A flip below a red node, repaired by one rotation of the grandparent. -/
theorem Walking.flip_single
    (w : Walking cmp key 0 (.node k v l r false) (p :: gp :: ggp) (m + 1))
    (hl : Balanced l true m) (hr : Balanced r true m) (hp : p.red = true)
    (ho : gp.other.isRed = false) (hd : p.dir = gp.dir) :
    PassResult cmp key 0 (.node k v (l.setRed false) (r.setRed false) true) k v (p :: gp :: ggp)
      (depth cmp key (.node k v l r false))
      (unwind (p :: gp :: ggp) (.node k v l r false)).toList := by
  refine ⟨_, _, _, _, _, m + 1, fixViolation_single rfl hp hd, ⟨?_, balanced_flipped hl hr,
    fits_outerFrame w.fits hp ho, by omega, fun _ => .inl (quiet_flipped hl hr),
    by simp [isRed_flipped hl hr]⟩, (toList_outerFrame _ hd).trans (toList_flipped _), ?_⟩
  · intro f hf
    rcases List.mem_cons.mp hf with rfl | hf
    · exact w.towards p (by simp)
    · exact w.towards f (by simp [hf])
  · rw [depth_flipped, passes_one, passes_zero]
    omega

/-- A flip below a red node on the other side, repaired by a double rotation; the helper
variables are stale for the next two passes. -/
theorem Walking.flip_double
    (w : Walking cmp key 0 (.node k v l r false) (p :: gp :: ggp) (m + 1))
    (hl : Balanced l true m) (hr : Balanced r true m) (hp : p.red = true)
    (ho : gp.other.isRed = false) (hd : p.dir ≠ gp.dir) :
    PassResult cmp key 0 (.node k v (l.setRed false) (r.setRed false) true) k v (p :: gp :: ggp)
      (depth cmp key (.node k v l r false))
      (unwind (p :: gp :: ggp) (.node k v l r false)).toList := by
  obtain ⟨f, hft, hnext⟩ := next_innerNode (k := k) (v := v) (l := l.setRed false)
    (r := r.setRed false) true (w.towards p (by simp)) (w.towards gp (by simp))
  have quiet : Quiet (next cmp key (next cmp key
      (innerNode p gp k v (l.setRed false) (r.setRed false)))) := by
    rw [hnext, next_fill hft]
    exact quiet_flipped hl hr
  have deep : depth cmp key (next cmp key
      (innerNode p gp k v (l.setRed false) (r.setRed false))) =
        depth cmp key (.node k v l r false) := by
    rw [hnext, depth_fill hft, depth_flipped]
  refine ⟨_, _, _, _, _, m + 1 + 1, fixViolation_double hp hd, ⟨?_,
    balanced_innerNode w.fits hp ho (balanced_flipped hl hr), (w.fits.black_other hp).2, le_rfl,
    ?_, fun _ => .inr quiet⟩, (toList_innerNode _ _ _ _ hd).trans (toList_flipped _), ?_⟩
  · intro f hf
    exact w.towards f (by simp [hf])
  · intro red
    cases red
  · refine (congrArg (passes 2 · + 1) deep).trans_le ?_
    rw [passes_two, passes_zero]

/-- A colour flip, with the violation it may cause. -/
theorem Walking.flip {stale n : ℕ} {red : Bool}
    (w : Walking cmp key stale (.node k v l r red) path n) (hl : l.isRed = true)
    (hr : r.isRed = true) :
    PassResult cmp key stale (.node k v (l.setRed false) (r.setRed false) true) k v path
      (depth cmp key (.node k v l r red)) (unwind path (.node k v l r red)).toList := by
  obtain ⟨m, rfl, hbl, hbr, rfl⟩ := w.red_children hl hr
  cases path with
  | nil => exact w.flip_stay hbl hbr trivial rfl
  | cons p rest =>
    cases hp : p.red with
    | false =>
      refine w.flip_stay hbl hbr ⟨?_, w.fits.2⟩ (by simp [fixViolation, RingNode.isRed, hp])
      obtain ⟨c', ho, -⟩ := w.fits.1
      exact ⟨c', ho, by simp [hp]⟩
    | true =>
      have noisy : ¬ Quiet (.node k v l r false) := by simp [Quiet, hl, hr]
      obtain ⟨rfl, gp, ggp, rfl, ho⟩ := (w.parent hp).resolve_left noisy
      by_cases hd : p.dir = gp.dir
      · exact w.flip_single hbl hbr hp ho hd
      · exact w.flip_double hbl hbr hp ho hd

end Flip

/-- A node that needs no flip is passed as it is. -/
theorem Walking.keep {stale n : ℕ} {k : κ} {v : ν} {l r : RingNode κ ν} {red : Bool}
    {path : List (Frame κ ν)} (w : Walking cmp key stale (.node k v l r red) path n)
    (quiet : Quiet (.node k v l r red)) :
    PassResult cmp key stale (.node k v l r red) k v path
      (depth cmp key (.node k v l r red)) (unwind path (.node k v l r red)).toList := by
  have fixed : fixViolation stale (.node k v l r red) path =
      some (.node k v l r red, path, stale - 1) := by
    cases path with
    | nil => rfl
    | cons p rest =>
      obtain ⟨c', -, hr⟩ := w.fits.1
      have clash : ¬ (red = true ∧ p.red = true) := by
        rintro ⟨rfl, hp⟩
        exact absurd (hr hp).1 (by simp [RingNode.isRed])
      simp only [fixViolation, RingNode.isRed, Bool.and_eq_true, clash, if_false]
  refine ⟨l, r, red, path, stale - 1, n, fixed,
    ⟨w.towards, w.balanced, w.fits, ?_, ?_, ?_⟩, rfl, ?_⟩
  · have := w.stale_le
    omega
  · intro hred
    cases path with
    | nil => exact absurd (w.sibling.symm.trans hred) (by simp)
    | cons p rest =>
      rcases w.sibling hred with ⟨ho, hs⟩ | hq
      · exact .inr ⟨by omega, p, rest, rfl, ho⟩
      · exact .inl hq
  · intro hn
    refine .inl ⟨?_, ?_⟩
    · by_contra ha
      simp only [next, away] at hn ha
      split at hn
      · exact quiet ⟨by simpa [*] using ha, hn⟩
      · exact quiet ⟨hn, by simpa [*] using ha⟩
    · have := w.stale_le
      omega
  · rw [depth_node]
    exact passes_step w.stale_le _

theorem Walking.pass (value : ν) (ret : Bool) {stale n : ℕ} {k : κ} {v : ν} {l r : RingNode κ ν}
    {red : Bool} {path : List (Frame κ ν)} (w : Walking cmp key stale (.node k v l r red) path n) :
    ∃ placed, place key value ret (.node k v l r red) = (placed, ret) ∧
      PassResult cmp key stale placed k v path (depth cmp key (.node k v l r red))
        (unwind path (.node k v l r red)).toList := by
  by_cases both : l.isRed = true ∧ r.isRed = true
  · exact ⟨_, by simp [place, both], w.flip both.1 both.2⟩
  · refine ⟨_, ?_, w.keep both⟩
    rw [← Bool.and_eq_true] at both
    simp only [place, both, if_false, Bool.false_eq_true]

/-- The result of the pass that inserts the new node, after at most one repair. -/
def EndResult (stale : ℕ) (key : κ) (value : ν) (path : List (Frame κ ν)) : Prop :=
  ∃ l r red path' stale' c m,
    fixViolation stale (.node key value .null .null true) path =
      some (.node key value l r red, path', stale') ∧
    (unwind path' (.node key value l r red)).toList = before path ++ (key, value) :: after path ∧
    Balanced (unwind path' (.node key value l r red)) c m

theorem Walking.pass_null (value : ν) {stale n : ℕ} {path : List (Frame κ ν)}
    (w : Walking cmp key stale (.null : RingNode κ ν) path n) : EndResult stale key value path := by
  have fresh : Balanced (.node key value .null .null true : RingNode κ ν) true 0 := .red .null .null
  have list : (unwind path (.node key value .null .null true)).toList =
      before path ++ (key, value) :: after path := by
    simp [toList_unwind, RingNode.toList]
  obtain rfl : n = 0 := by
    have balanced := w.balanced
    cases balanced
    rfl
  have stay (fits : Fits path true 0)
      (fixed : fixViolation stale (.node key value .null .null true) path =
        some (.node key value .null .null true, path, stale - 1)) :
      EndResult stale key value path := by
    obtain ⟨c, m, balanced⟩ := fresh.unwind fits
    exact ⟨_, _, _, _, _, c, m, fixed, list, balanced⟩
  cases path with
  | nil => exact stay trivial rfl
  | cons p rest =>
    cases hp : p.red with
    | false =>
      obtain ⟨c', ho, -⟩ := w.fits.1
      exact stay ⟨⟨c', ho, by simp [hp]⟩, w.fits.2⟩ (by simp [fixViolation, RingNode.isRed, hp])
    | true =>
      obtain ⟨rfl, gp, ggp, rfl, ho⟩ := (w.parent hp).resolve_left id
      have fits : Fits (p :: gp :: ggp) false 0 := w.fits
      by_cases hd : p.dir = gp.dir
      · obtain ⟨c, m, balanced⟩ := fresh.unwind (fits_outerFrame fits hp ho)
        exact ⟨_, _, _, _, _, c, m, fixViolation_single rfl hp hd,
          (toList_outerFrame _ hd).trans list, balanced⟩
      · obtain ⟨c, m, balanced⟩ :=
          (balanced_innerNode fits hp ho fresh).unwind (fits.black_other hp).2
        exact ⟨_, _, _, _, _, c, m, fixViolation_double hp hd,
          (toList_innerNode _ _ _ _ hd).trans list, balanced⟩

theorem unwind_next (cmp : κ → κ → ℤ) (key k : κ) (v : ν) (l r : RingNode κ ν) (red : Bool)
    (path : List (Frame κ ν)) :
    unwind (⟨k, v, decide (cmp k key < 0), away cmp key (.node k v l r red), red⟩ :: path)
      (next cmp key (.node k v l r red)) = unwind path (.node k v l r red) := by
  by_cases hlt : cmp k key < 0 <;> simp [unwind, Frame.fill, next, away, hlt]

theorem Passed.walking {stale n : ℕ} {k : κ} {v : ν} {l r : RingNode κ ν} {red : Bool}
    {path : List (Frame κ ν)} (h : Passed cmp key stale (.node k v l r red) path n)
    (hk : cmp k key ≠ 0) :
    ∃ m, Walking cmp key stale (next cmp key (.node k v l r red))
      (⟨k, v, decide (cmp k key < 0), away cmp key (.node k v l r red), red⟩ :: path) m := by
  obtain ⟨m, balanced, fits⟩ := Fits.descend (decide (cmp k key < 0)) h.balanced h.fits
  simp only [decide_eq_true_eq] at balanced fits
  refine ⟨m, ⟨?_, balanced, fits, h.stale_le, h.parent, h.sibling⟩⟩
  intro f hf
  rcases List.mem_cons.mp hf with rfl | hf
  · exact ⟨hk, rfl⟩
  · exact h.towards f hf

section Lawful
variable [LawfulComparator cmp]

theorem before_lt {path : List (Frame κ ν)} (asc : Ascending cmp (before path))
    (towards : ∀ f ∈ path, f.Towards cmp key) : ∀ e ∈ before path, cmp e.1 key < 0 := by
  induction path with
  | nil => simp [before]
  | cons f path ih =>
    obtain ⟨asc', ascf, -⟩ := List.pairwise_append.mp asc
    intro e he
    rcases List.mem_append.mp he with he | he
    · exact ih asc' (fun g hg => towards g (List.mem_cons_of_mem _ hg)) e he
    · have hf := (towards f (by simp)).2
      cases hd : f.dir with
      | false => simp [Frame.before, hd] at he
      | true =>
        have hk : cmp f.key key < 0 := by simpa [hd] using hf
        simp only [Frame.before, hd, if_true] at he ascf
        rcases List.mem_append.mp he with he | he
        · have below := (List.pairwise_append.mp ascf).2.2 e he (f.key, f.value) (by simp)
          exact cmp_lt_trans below hk
        · obtain rfl := List.mem_singleton.mp he
          exact hk

theorem after_gt {path : List (Frame κ ν)} (asc : Ascending cmp (after path))
    (towards : ∀ f ∈ path, f.Towards cmp key) : ∀ e ∈ after path, 0 < cmp e.1 key := by
  induction path with
  | nil => simp [after]
  | cons f path ih =>
    obtain ⟨ascf, asc', -⟩ := List.pairwise_append.mp asc
    intro e he
    rcases List.mem_append.mp he with he | he
    · obtain ⟨hne, hf⟩ := towards f (by simp)
      cases hd : f.dir with
      | true => simp [Frame.after, hd] at he
      | false =>
        have hk : 0 < cmp f.key key := by
          have : ¬ cmp f.key key < 0 := by simpa [hd] using hf
          omega
        simp only [Frame.after, hd, Bool.false_eq_true, if_false] at he ascf
        rcases List.mem_cons.mp he with rfl | he
        · exact hk
        · have hfe := List.rel_of_pairwise_cons ascf he
          exact (cmp_neg_iff key e.1).mp (cmp_lt_trans ((cmp_neg_iff key f.key).mpr hk) hfe)
    · exact ih asc' (fun g hg => towards g (List.mem_cons_of_mem _ hg)) e he

/-- The outcome `t`, `ret` of an insert into the tree of `entries`. -/
structure Inserted (cmp : κ → κ → ℤ) (key : κ) (value : ν) (entries : List (κ × ν))
    (t : RingNode κ ν) (ret : Bool) : Prop where
  list : t.toList = insertEntry cmp key value entries
  isNew : ret = true ↔ ∀ e ∈ entries, cmp e.1 key ≠ 0
  balanced : ∃ c m, Balanced t c m

theorem inserted_between {path : List (Frame κ ν)} {value : ν} {t : RingNode κ ν} {c : Bool}
    {m : ℕ} (asc : Ascending cmp (before path ++ after path))
    (towards : ∀ f ∈ path, f.Towards cmp key)
    (list : t.toList = before path ++ (key, value) :: after path) (balanced : Balanced t c m) :
    Inserted cmp key value (before path ++ after path) t true := by
  obtain ⟨ascb, asca, -⟩ := List.pairwise_append.mp asc
  have low := before_lt ascb towards
  have high := after_gt asca towards
  refine ⟨list.trans (insertEntry_between low high).symm, ?_, c, m, balanced⟩
  simp only [true_iff, List.mem_append]
  rintro e (he | he)
  · exact (low e he).ne
  · exact (high e he).ne'

omit [LawfulComparator cmp] in
theorem inserted_present {entries : List (κ × ν)} {value : ν} {e : κ × ν} {t : RingNode κ ν}
    {c : Bool} {m : ℕ} (here : e ∈ entries) (equal : cmp e.1 key = 0) (list : t.toList = entries)
    (balanced : Balanced t c m) : Inserted cmp key value entries t false := by
  refine ⟨list.trans (insertEntry_of_any ⟨_, here, equal⟩).symm, ?_, c, m, balanced⟩
  simp only [Bool.false_eq_true, false_iff, not_forall]
  exact ⟨e, here, fun absent => absent equal⟩

/-- Enough fuel gives the tree with the entry inserted. -/
theorem insertLoop_spec (value : ν) (fuel : ℕ) {stale n : ℕ} {node : RingNode κ ν}
    {path : List (Frame κ ν)} (w : Walking cmp key stale node path n)
    (asc : Ascending cmp (unwind path node).toList)
    (enough : passes stale (depth cmp key node) ≤ fuel) :
    ∃ t ret, insertLoop cmp key value fuel stale false node path = some (t, ret) ∧
      Inserted cmp key value (unwind path node).toList t ret := by
  induction fuel generalizing stale n node path with
  | zero =>
    simp only [passes] at enough
    split at enough <;> omega
  | succ fuel ih =>
    cases node with
    | null =>
      obtain ⟨l, r, red, path', stale', c, m, fixed, list, balanced⟩ := w.pass_null value
      have whole : (unwind path (.null : RingNode κ ν)).toList = before path ++ after path := by
        simp [toList_unwind, RingNode.toList]
      rw [whole] at asc ⊢
      refine ⟨_, true, ?_, inserted_between asc w.towards list balanced⟩
      simp only [insertLoop, place, fixed, Option.bind_eq_bind, Option.bind_some, cmp_self,
        if_true]
    | node k v l r red =>
      obtain ⟨placed, hplace, l', r', red', path', stale', n', fixed, passed, list, fewer⟩ :=
        w.pass value false
      by_cases hk : cmp k key = 0
      · have here : (k, v) ∈ (unwind path (.node k v l r red)).toList := by
          simp [toList_unwind, RingNode.toList]
        obtain ⟨c, m, balanced⟩ := passed.balanced.unwind passed.fits
        refine ⟨_, false, ?_, inserted_present here hk list balanced⟩
        simp only [insertLoop, hplace, fixed, Option.bind_eq_bind, Option.bind_some, hk, if_true]
      · obtain ⟨m, walking⟩ := passed.walking hk
        have same := unwind_next cmp key k v l' r' red' path'
        obtain ⟨t, ret, run, inserted⟩ := ih walking (by rw [same, list]; exact asc) (by omega)
        rw [same, list] at inserted
        refine ⟨t, ret, ?_, inserted⟩
        simp only [insertLoop, hplace, fixed, Option.bind_eq_bind, Option.bind_some, hk, if_false]
        simpa only [decide_eq_true_eq, next, away] using run

theorem insert_spec (key : κ) (value : ν) {root : RingNode κ ν} {n : ℕ}
    (balanced : Balanced root false n) (asc : Ascending cmp root.toList) :
    ∃ t ret m, insert cmp root key value = some (t, ret) ∧
      t.toList = insertEntry cmp key value root.toList ∧
      (ret = true ↔ ∀ e ∈ root.toList, cmp e.1 key ≠ 0) ∧ Balanced t false m := by
  cases root with
  | null =>
    exact ⟨_, true, 1, rfl, by simp [RingNode.toList, insertEntry], by simp [RingNode.toList],
      .black .null .null⟩
  | node k v l r red =>
    have color : (RingNode.node k v l r red).isRed = false := balanced.color
    have walking : Walking cmp key 0 (.node k v l r red) [] n :=
      ⟨by simp, color.symm ▸ balanced, trivial, by omega, trivial, color⟩
    have enough : passes 0 (depth cmp key (.node k v l r red)) ≤
        2 * (RingNode.node k v l r red).size + 2 := by
      have bound : depth cmp key (.node k v l r red) ≤ (RingNode.node k v l r red).size :=
        depth_le_size _
      rw [passes_zero]
      omega
    obtain ⟨t, ret, run, inserted⟩ := insertLoop_spec value _ walking asc enough
    obtain ⟨c, m, bal⟩ := inserted.balanced
    obtain ⟨m', black⟩ := bal.blacken
    refine ⟨t.setRed false, ret, m', ?_, (toList_setRed t false).trans inserted.list,
      inserted.isNew, black⟩
    simp only [insert, run, Option.bind_eq_bind, Option.bind_some]

end Lawful

end Ringpop.RedBlackTree
