import Ringpop.RedBlackInsert

/-! `RBTree.prototype.remove`: one walk that pushes a red node down ahead of it,
so that the node spliced out at the bottom is red. The walk passes the found node
on its left, so it ends at the found node's predecessor or at the node itself. -/
namespace Ringpop.RedBlackTree
open OrderedEntries

variable {κ ν : Type}

/-- The assignments to `gpc` after a rotation; both its children must exist. -/
def paint : RingNode κ ν → Option (RingNode κ ν)
  | .node k v (.node lk lv ll lr _) (.node rk rv rl rr _) _ =>
    some (.node k v (.node lk lv ll lr false) (.node rk rv rl rr false) true)
  | _ => none

/-- Rotate the black sibling of `node` up, over its own red child if that is on the near side. -/
def rotateSibling (p : Frame κ ν) (node : RingNode κ ν) : Option (RingNode κ ν) :=
  if (p.other.getChild p.dir).isRed then doubleRotate (p.fill node) p.dir
  else singleRotate (p.fill node) p.dir

/-- Push a red node down onto the current node `f`, which is left towards `child`.
`path` holds its ancestors, and is empty below the fake root `head`. -/
def pushRed (f : Frame κ ν) (child : RingNode κ ν) (path : List (Frame κ ν)) :
    Option (List (Frame κ ν)) :=
  if !f.red && !child.isRed then
    if f.other.isRed then do
      let sr ← singleRotate (f.fill child) f.dir
      let (g, node) ← sr.descend f.dir
      let (f', _) ← node.descend f.dir
      some (f' :: g :: path)
    else
      match path with
      | [] => some [f]
      | p :: rest =>
        let lastDir := p.dir
        let sibling := p.other
        if sibling matches .null then some (f :: p :: rest)
        else if !(sibling.getChild (!lastDir)).isRed && !(sibling.getChild lastDir).isRed then
          some ({ f with red := true } ::
            { p with red := false, other := sibling.setRed true } :: rest)
        else do
          let rotated ← rotateSibling p (f.fill child)
          let gpc ← paint rotated
          let (g, parent) ← gpc.descend lastDir
          let (p', node) ← parent.descend lastDir
          let (f', _) ← node.descend f.dir
          some ({ f' with red := true } :: p' :: g :: rest)
  else some (f :: path)

/-- The `while` loop. The node after the current one is not touched by a pass,
so the loop follows the nodes of the tree it started with. -/
def removeLoop (cmp : κ → κ → ℤ) (key : κ) :
    RingNode κ ν → List (Frame κ ν) → Bool → Option (List (Frame κ ν) × Bool)
  | .null, path, found => some (path, found)
  | .node k v left right red, path, found => do
    let c := cmp key k
    let dir := decide (0 < c)
    let path ←
      pushRed ⟨k, v, dir, if dir then left else right, red⟩ (if dir then right else left) path
    if dir then removeLoop cmp key right path (found || c = 0)
    else removeLoop cmp key left path (found || c = 0)

/-- Overwrite the found node; it is the one on the path whose key compares equal. -/
def overwrite (cmp : κ → κ → ℤ) (key : κ) (k : κ) (v : ν) (f : Frame κ ν) : Frame κ ν :=
  if cmp key f.key = 0 then { f with key := k, value := v } else f

def remove (cmp : κ → κ → ℤ) (root : RingNode κ ν) (key : κ) : Option (RingNode κ ν × Bool) :=
  match root with
  | .null => some (.null, false)
  | root => do
    let (path, found) ← removeLoop cmp key root [] false
    match path with
    | [] => none
    | f :: path =>
      if found then
        let node := f.fill .null
        let child := node.getChild (node.getChild false matches .null)
        some ((unwind (path.map (overwrite cmp key f.key f.value)) child).setRed false, true)
      else some ((unwind path (f.fill .null)).setRed false, false)

/-- A black node over a black child has a red node above it, or is just below the
root, whose other child is black too. -/
def Pushed (cur : RingNode κ ν) : List (Frame κ ν) → Prop
  | [] => True
  | p :: rest => p.red = true ∨ cur.isRed = true ∨ rest = [] ∧ p.other.isRed = false

/-- A pass that only moves entries between the node and its ancestors. -/
structure Shifted (child : RingNode κ ν) (path path' : List (Frame κ ν)) (n : ℕ) : Prop where
  before : before path' = before path
  after : after path' = after path
  fits : Fits path' child.isRed n
  pushed : Pushed child path'
  present : path' ≠ []

theorem pushRed_skip {f : Frame κ ν} {child : RingNode κ ν} {path : List (Frame κ ν)}
    (h : f.red = true ∨ child.isRed = true) : pushRed f child path = some (f :: path) := by
  rcases h with h | h <;> simp [pushRed, h]

theorem rotateSibling_far {p : Frame κ ν} {l r : RingNode κ ν} {k : κ} {v : ν} {red : Bool}
    (t : RingNode κ ν) (hs : p.other = .node k v l r red)
    (near : (p.other.getChild p.dir).isRed = false) :
    rotateSibling p t = some (Frame.fill ⟨k, v, p.dir, p.other.getChild (!p.dir), false⟩
      (Frame.fill { p with red := true, other := p.other.getChild p.dir } t)) := by
  simp only [rotateSibling, near, Bool.false_eq_true, if_false]
  obtain ⟨pk, pv, pd, po, pr⟩ := p
  obtain rfl : po = .node k v l r red := hs
  cases pd <;> rfl

theorem rotateSibling_near {p : Frame κ ν} {l r il ir : RingNode κ ν} {k ik : κ} {v iv : ν}
    {red : Bool} (t : RingNode κ ν) (hs : p.other = .node k v l r red)
    (near : p.other.getChild p.dir = .node ik iv il ir true) :
    rotateSibling p t = some (Frame.fill ⟨ik, iv, p.dir,
        (p.other.setChild p.dir ((p.other.getChild p.dir).getChild (!p.dir))).setRed true, false⟩
      (Frame.fill { p with red := true, other := (p.other.getChild p.dir).getChild p.dir } t)) := by
  simp only [rotateSibling, near, RingNode.isRed_node, if_true]
  obtain ⟨pk, pv, pd, po, pr⟩ := p
  obtain rfl : po = .node k v l r red := hs
  cases pd
  · obtain rfl : l = .node ik iv il ir true := near
    rfl
  · obtain rfl : r = .node ik iv il ir true := near
    rfl

theorem paint_fill {g p : Frame κ ν} {t : RingNode κ ν} (hd : p.dir = g.dir)
    (far : g.other ≠ .null) :
    paint (g.fill (p.fill t)) =
      some (Frame.fill { g with red := true, other := g.other.setRed false }
        (Frame.fill { p with red := false } t)) := by
  obtain ⟨pk, pv, pd, po, pr⟩ := p
  obtain ⟨gk, gv, gd, go, gr⟩ := g
  obtain rfl : pd = gd := hd
  cases go with
  | null => exact absurd rfl far
  | node => cases pd <;> rfl

section Black
variable {f p : Frame κ ν} {child l r : RingNode κ ν} {k : κ} {v : ν} {red : Bool}
  {path rest : List (Frame κ ν)}

theorem pushRed_outer (hf : f.red = false) (hc : child.isRed = false)
    (ho : f.other = .node k v l r true) :
    pushRed f child path = some
      ({ f with red := true, other := f.other.getChild f.dir } ::
        ⟨k, v, f.dir, f.other.getChild (!f.dir), false⟩ :: path) := by
  obtain ⟨fk, fv, fd, fo, fr⟩ := f
  obtain rfl : fo = .node k v l r true := ho
  obtain rfl : fr = false := hf
  cases fd <;> simp [pushRed, hc, singleRotate, Frame.fill, RingNode.getChild,
    RingNode.setChild, RingNode.setRed, RingNode.descend]

variable (hf : f.red = false) (hc : child.isRed = false) (ho : f.other.isRed = false)
include hf hc ho

theorem pushRed_root : pushRed f child [] = some [f] := by
  simp [pushRed, hf, hc, ho]

theorem pushRed_flip (hs : p.other = .node k v l r red) (hl : l.isRed = false)
    (hr : r.isRed = false) :
    pushRed f child (p :: rest) = some ({ f with red := true } ::
      { p with red := false, other := p.other.setRed true } :: rest) := by
  cases hd : p.dir <;> simp [pushRed, hf, hc, ho, hs, hd, hl, hr, RingNode.getChild]

theorem pushRed_rotate {g p' : Frame κ ν} (hs : p.other = .node k v l r red)
    (some_red : l.isRed = true ∨ r.isRed = true)
    (turned : rotateSibling p (f.fill child) = some (g.fill (p'.fill (f.fill child))))
    (hg : g.dir = p.dir) (hp : p'.dir = p.dir) (far : g.other ≠ .null) :
    pushRed f child (p :: rest) = some ({ f with red := true } :: { p' with red := false } ::
      { g with red := true, other := g.other.setRed false } :: rest) := by
  have mixed : ¬ ((p.other.getChild (!p.dir)).isRed = false ∧
      (p.other.getChild p.dir).isRed = false) := by
    rintro ⟨h₁, h₂⟩
    cases hd : p.dir <;> rw [hs, hd] at h₁ h₂ <;> simp [RingNode.getChild] at h₁ h₂ <;>
      simp [h₁, h₂] at some_red
  have painted := paint_fill (t := f.fill child) (hp.trans hg.symm) far
  have down (f : Frame κ ν) (h : f.dir = p.dir) (t : RingNode κ ν) :
      (f.fill t).descend p.dir = some (f, t) := h ▸ descend_fill f t
  have present : (match p.other with | .null => true | _ => false) = false := by rw [hs]
  simp only [pushRed, hf, hc, ho, present, turned, painted, Bool.not_false, Bool.and_self, if_true,
    Bool.false_eq_true, if_false, Bool.and_eq_true, Bool.not_eq_true', mixed, Option.bind_eq_bind,
    Option.bind_some, down { g with red := true, other := g.other.setRed false } hg,
    down { p' with red := false } hp, descend_fill]

end Black

theorem isRed_fill (f : Frame κ ν) (t : RingNode κ ν) : (f.fill t).isRed = f.red := by
  obtain ⟨key, value, dir, other, red⟩ := f
  cases dir <;> rfl

section Shift
variable {f p : Frame κ ν} {child l r : RingNode κ ν} {k : κ} {v : ν}
  {path rest : List (Frame κ ν)} {n : ℕ}

theorem shifted_outer (hf : f.red = false) (fits : Fits (f :: path) false n)
    (hc : child.isRed = false) (ho : f.other = .node k v l r true) :
    Shifted child (f :: path) ({ f with red := true, other := f.other.getChild f.dir } ::
      ⟨k, v, f.dir, f.other.getChild (!f.dir), false⟩ :: path) n := by
  obtain ⟨fk, fv, fd, fo, fr⟩ := f
  obtain rfl : fo = .node k v l r true := ho
  obtain rfl : fr = false := hf
  obtain ⟨⟨c', other, -⟩, above⟩ := fits
  obtain ⟨hl, hr⟩ : Balanced l false n ∧ Balanced r false n := by
    cases other with
    | red hl hr => exact ⟨hl, hr⟩
  have both (dir : Bool) : Balanced (RingNode.getChild (.node k v l r true) dir) false n := by
    cases dir
    · exact hl
    · exact hr
  refine ⟨?_, ?_, ?_, .inl rfl, by simp⟩
  · cases fd <;> simp [before, Frame.before, RingNode.getChild, RingNode.toList]
  · cases fd <;> simp [after, Frame.after, RingNode.getChild, RingNode.toList]
  · rw [hc]
    exact ⟨⟨false, both fd, fun _ => ⟨rfl, rfl⟩⟩, ⟨false, both (!fd), by simp⟩, above⟩

variable (hc : child.isRed = false) (other : Balanced f.other false n)
  (above : Fits rest true (n + 1))
include hc other above

theorem shifted_flip (hs : p.other = .node k v l r false) (hl : Balanced l false n)
    (hr : Balanced r false n) :
    Shifted child (f :: p :: rest) ({ f with red := true } ::
      { p with red := false, other := p.other.setRed true } :: rest) n := by
  refine ⟨?_, ?_, ?_, .inl rfl, by simp⟩
  · cases hd : p.dir <;> cases hd' : f.dir <;> simp [before, Frame.before, hd, hd']
  · cases hd : p.dir <;> cases hd' : f.dir <;> simp [after, Frame.after, hd, hd']
  · rw [hc]
    refine ⟨⟨false, other, fun _ => ⟨rfl, rfl⟩⟩, ⟨true, ?_, by simp⟩, above.of_red⟩
    rw [hs]
    exact .red hl hr

theorem shifted_far {c₁ : Bool} (hs : p.other = .node k v l r false)
    (near : Balanced (p.other.getChild p.dir) c₁ n)
    (far : Balanced (p.other.getChild (!p.dir)) true n) :
    Shifted child (f :: p :: rest) ({ f with red := true } ::
      { p with red := false, other := p.other.getChild p.dir } ::
      ⟨k, v, p.dir, (p.other.getChild (!p.dir)).setRed false, true⟩ :: rest) n := by
  refine ⟨?_, ?_, ?_, .inl rfl, by simp⟩
  · cases hd : p.dir <;> cases hd' : f.dir <;>
      simp [before, Frame.before, hd, hd', hs, RingNode.getChild, RingNode.toList]
  · cases hd : p.dir <;> cases hd' : f.dir <;>
      simp [after, Frame.after, hd, hd', hs, RingNode.getChild, RingNode.toList]
  · rw [hc]
    exact ⟨⟨false, other, fun _ => ⟨rfl, rfl⟩⟩, ⟨c₁, near, by simp⟩,
      ⟨false, far.recolor, fun _ => ⟨rfl, rfl⟩⟩, above⟩

theorem shifted_near {il ir : RingNode κ ν} {ik : κ} {iv : ν} {c₂ : Bool}
    (hs : p.other = .node k v l r false) (inner : p.other.getChild p.dir = .node ik iv il ir true)
    (near : Balanced (p.other.getChild p.dir) true n)
    (far : Balanced (p.other.getChild (!p.dir)) c₂ n) :
    Shifted child (f :: p :: rest) ({ f with red := true } ::
      { p with red := false, other := (p.other.getChild p.dir).getChild p.dir } ::
      ⟨ik, iv, p.dir, ((p.other.setChild p.dir
        ((p.other.getChild p.dir).getChild (!p.dir))).setRed true).setRed false, true⟩ :: rest)
      n := by
  obtain ⟨pk, pv, pd, po, pr⟩ := p
  obtain rfl : po = .node k v l r false := hs
  simp only [inner] at near far ⊢
  obtain ⟨hil, hir⟩ : Balanced il false n ∧ Balanced ir false n := by
    cases near with
    | red hl hr => exact ⟨hl, hr⟩
  cases pd with
  | false =>
    obtain rfl : l = .node ik iv il ir true := inner
    refine ⟨?_, ?_, ?_, .inl rfl, by simp⟩
    · cases hd' : f.dir <;> simp [before, Frame.before, hd']
    · cases hd' : f.dir <;>
        simp [after, Frame.after, hd', RingNode.getChild, RingNode.setChild, RingNode.toList]
    · rw [hc]
      exact ⟨⟨false, other, fun _ => ⟨rfl, rfl⟩⟩, ⟨false, hil, by simp⟩,
        ⟨false, .black hir far, fun _ => ⟨rfl, rfl⟩⟩, above⟩
  | true =>
    obtain rfl : r = .node ik iv il ir true := inner
    refine ⟨?_, ?_, ?_, .inl rfl, by simp⟩
    · cases hd' : f.dir <;>
        simp [before, Frame.before, hd', RingNode.getChild, RingNode.setChild, RingNode.toList]
    · cases hd' : f.dir <;> simp [after, Frame.after, hd']
    · rw [hc]
      exact ⟨⟨false, other, fun _ => ⟨rfl, rfl⟩⟩, ⟨false, hir, by simp⟩,
        ⟨false, .black far hil, fun _ => ⟨rfl, rfl⟩⟩, above⟩

end Shift

/-- Below an ancestor with no red node to spare the sibling is black, and the rest
of the path takes a red node of its height. -/
theorem Pushed.sibling {f p : Frame κ ν} {rest : List (Frame κ ν)} {c : Bool} {n : ℕ}
    {t : RingNode κ ν} (pushed : Pushed t (p :: rest)) (ht : t.isRed = false)
    (hf : f.red = false) (fits : Fits (f :: p :: rest) c n) :
    (∃ k v l r c₁ c₂, p.other = .node k v l r false ∧ Balanced l c₁ n ∧ Balanced r c₂ n) ∧
      Fits rest true (n + 1) := by
  obtain ⟨-, ⟨c', sibling, hred⟩, above⟩ := fits
  simp only [Frame.height, hf, Bool.false_eq_true, if_false] at sibling above
  have black : p.other.isRed = false ∧ Fits rest true (n + 1) := by
    rcases pushed with hp | ht' | ⟨rfl, ho⟩
    · obtain ⟨-, rfl⟩ := hred hp
      exact ⟨sibling.color, by simpa [hp] using above⟩
    · simp [ht] at ht'
    · exact ⟨ho, trivial⟩
  refine ⟨?_, black.2⟩
  have color := black.1
  cases h : p.other with
  | null => rw [h] at sibling; cases sibling
  | node k v l r red =>
    rw [h] at sibling color
    cases sibling with
    | red => simp at color
    | black hl hr => exact ⟨k, v, l, r, _, _, rfl, hl, hr⟩

/-- Below a black sibling with a red child, the rotation of the sibling. -/
theorem pushRed_rotated {f p : Frame κ ν} {child : RingNode κ ν} {rest : List (Frame κ ν)} {n : ℕ}
    (hf : f.red = false) (hc : child.isRed = false) (ho : f.other.isRed = false)
    (other : Balanced f.other false n) (above : Fits rest true (n + 1))
    {k : κ} {v : ν} {l r : RingNode κ ν} (hs : p.other = .node k v l r false)
    (hl : Balanced l l.isRed n) (hr : Balanced r r.isRed n)
    (some_red : l.isRed = true ∨ r.isRed = true) :
    ∃ path', pushRed f child (p :: rest) = some path' ∧
      Shifted child (f :: p :: rest) path' n := by
  have side (dir : Bool) : Balanced (p.other.getChild dir) (p.other.getChild dir).isRed n := by
    cases dir
    · simpa [hs, RingNode.getChild, hl.color] using hl
    · simpa [hs, RingNode.getChild, hr.color] using hr
  cases hn : (p.other.getChild p.dir).isRed with
  | false =>
    have far : (p.other.getChild (!p.dir)).isRed = true := by
      cases hd : p.dir <;> simp_all [RingNode.getChild]
    refine ⟨_, pushRed_rotate hf hc ho hs some_red (rotateSibling_far _ hs hn) rfl rfl ?_,
      shifted_far hc other above hs (side p.dir) (far ▸ side (!p.dir))⟩
    intro absent
    change p.other.getChild (!p.dir) = .null at absent
    simp [absent] at far
  | true =>
    obtain ⟨ik, iv, il, ir, inner⟩ := RingNode.exists_of_isRed hn
    refine ⟨_, pushRed_rotate hf hc ho hs some_red (rotateSibling_near _ hs inner) rfl rfl ?_,
      shifted_near hc other above hs inner (hn ▸ side p.dir) (side (!p.dir))⟩
    change (p.other.setChild p.dir _).setRed true ≠ .null
    rw [hs]
    cases p.dir <;> simp [RingNode.setChild, RingNode.setRed]

theorem pushRed_spec {f : Frame κ ν} {child : RingNode κ ν} {path : List (Frame κ ν)} {n : ℕ}
    (fits : Fits (f :: path) child.isRed n) (pushed : Pushed (f.fill child) path) :
    ∃ path', pushRed f child path = some path' ∧ Shifted child (f :: path) path' n := by
  by_cases skip : f.red = true ∨ child.isRed = true
  · exact ⟨_, pushRed_skip skip, rfl, rfl, fits, skip.elim .inl fun h => .inr (.inl h), by simp⟩
  obtain ⟨hf, hc⟩ : f.red = false ∧ child.isRed = false := by simpa using skip
  have fits' : Fits (f :: path) false n := hc ▸ fits
  cases ho : f.other.isRed with
  | true =>
    obtain ⟨k, v, l, r, hother⟩ := RingNode.exists_of_isRed ho
    exact ⟨_, pushRed_outer hf hc hother, shifted_outer hf fits' hc hother⟩
  | false =>
    cases path with
    | nil => exact ⟨_, pushRed_root hf hc ho, rfl, rfl, fits, .inr (.inr ⟨rfl, ho⟩), by simp⟩
    | cons p rest =>
      obtain ⟨⟨k, v, l, r, c₁, c₂, hs, hl, hr⟩, above⟩ :=
        pushed.sibling (by rw [isRed_fill, hf]) hf fits
      have other : Balanced f.other false n := by
        obtain ⟨c', h, -⟩ := fits.1
        exact ho ▸ h.color.symm ▸ h
      by_cases both : l.isRed = false ∧ r.isRed = false
      · exact ⟨_, pushRed_flip hf hc ho hs both.1 both.2, shifted_flip hc other above hs
          (both.1 ▸ hl.color.symm ▸ hl) (both.2 ▸ hr.color.symm ▸ hr)⟩
      · have some_red : l.isRed = true ∨ r.isRed = true := by
          cases h : l.isRed <;> simp_all
        exact pushRed_rotated hf hc ho other above hs (hl.color.symm ▸ hl) (hr.color.symm ▸ hr)
          some_red

/-- What holds at the head of the loop: the entries on the left of `cur` are below
the key, the others are not, and `found` tells whether one of these equals it. -/
structure Sinking (cmp : κ → κ → ℤ) (key : κ) (cur : RingNode κ ν) (path : List (Frame κ ν))
    (found : Bool) (n : ℕ) : Prop where
  ascending : Ascending cmp (before path ++ cur.toList ++ after path)
  left : ∀ e ∈ before path, 0 < cmp key e.1
  right : ∀ e ∈ after path, cmp key e.1 ≤ 0
  found : found = true ↔ ∃ e ∈ after path, cmp key e.1 = 0
  balanced : Balanced cur cur.isRed n
  fits : Fits path cur.isRed n
  pushed : Pushed cur path

section Overwrite
variable {cmp : κ → κ → ℤ} {key k : κ} {v : ν}

theorem fits_overwrite (path : List (Frame κ ν)) (c : Bool) (n : ℕ) :
    Fits (path.map (overwrite cmp key k v)) c n ↔ Fits path c n := by
  induction path generalizing c n with
  | nil => exact Iff.rfl
  | cons f path ih =>
    have same : (overwrite cmp key k v f).Accepts c n = f.Accepts c n ∧
        (overwrite cmp key k v f).red = f.red ∧
        (overwrite cmp key k v f).height n = f.height n := by
      unfold overwrite
      split <;> exact ⟨rfl, rfl, rfl⟩
    simp only [List.map_cons, Fits, same, ih]

theorem overwrite_of_ne {f : Frame κ ν} (h : cmp key f.key ≠ 0) : overwrite cmp key k v f = f :=
  if_neg h

theorem before_overwrite {path : List (Frame κ ν)} (h : ∀ e ∈ before path, 0 < cmp key e.1) :
    before (path.map (overwrite cmp key k v)) = before path := by
  induction path with
  | nil => rfl
  | cons f path ih =>
    have same : (overwrite cmp key k v f).before = f.before := by
      cases hd : f.dir with
      | true =>
        have := h (f.key, f.value) (by simp [before, Frame.before, hd])
        rw [overwrite_of_ne this.ne']
      | false =>
        unfold overwrite
        split <;> simp [Frame.before, hd]
    rw [List.map_cons, before, same, ih fun e he => h e (List.mem_append_left _ he)]
    rfl

theorem after_overwrite {path : List (Frame κ ν)} (h : ∀ e ∈ after path, cmp key e.1 ≠ 0) :
    after (path.map (overwrite cmp key k v)) = after path := by
  induction path with
  | nil => rfl
  | cons f path ih =>
    have same : (overwrite cmp key k v f).after = f.after := by
      cases hd : f.dir with
      | false => rw [overwrite_of_ne (h (f.key, f.value) (by simp [after, Frame.after, hd]))]
      | true =>
        unfold overwrite
        split <;> simp [Frame.after, hd]
    rw [List.map_cons, after, same, ih fun e he => h e (List.mem_append_right _ he)]
    rfl

/-- The found node is the nearest ancestor left towards its left child. -/
theorem after_overwrite_head {path : List (Frame κ ν)} {e : κ × ν} {rest : List (κ × ν)}
    (head : after path = e :: rest) (equal : cmp key e.1 = 0) (h : ∀ d ∈ rest, cmp key d.1 ≠ 0) :
    after (path.map (overwrite cmp key k v)) = (k, v) :: rest := by
  induction path with
  | nil => cases head
  | cons f path ih =>
    cases hd : f.dir with
    | true =>
      have same : (overwrite cmp key k v f).after = [] := by
        unfold overwrite
        split <;> simp [Frame.after, hd]
      rw [List.map_cons, after, same, ih (by simpa [after, Frame.after, hd] using head)]
      rfl
    | false =>
      obtain ⟨rfl, rfl⟩ : (f.key, f.value) = e ∧ f.other.toList ++ after path = rest := by
        simpa [after, Frame.after, hd] using head
      rw [List.map_cons, after, after_overwrite fun d hd => h d (List.mem_append_right _ hd)]
      simp [overwrite, equal, Frame.after, hd]

end Overwrite

/-- The child that takes the spliced node's place. -/
theorem spliced (f : Frame κ ν) :
    (f.fill .null).getChild ((f.fill .null).getChild false matches .null) = f.other := by
  obtain ⟨key, value, dir, other, red⟩ := f
  cases dir
  · rfl
  · cases other <;> rfl

section Lawful
variable {cmp : κ → κ → ℤ} {key : κ} [LawfulComparator cmp]

/-- The frame that a pass leaves behind has the smaller entries on its left. -/
theorem frame_before {k : κ} {v : ν} {l r : RingNode κ ν} {red : Bool}
    (asc : Ascending cmp (RingNode.node k v l r red).toList) :
    ∀ e ∈ Frame.before (⟨k, v, decide (0 < cmp key k), if decide (0 < cmp key k) then l else r,
      red⟩ : Frame κ ν), 0 < cmp key e.1 := by
  obtain ⟨-, -, below⟩ := List.pairwise_append.mp asc
  intro e he
  by_cases hk : 0 < cmp key k
  · simp only [Frame.before, hk, decide_true, if_true, List.mem_append, List.mem_singleton] at he
    rcases he with he | rfl
    · have less := cmp_lt_trans (below e he (k, v) (by simp)) ((cmp_neg_iff k key).mpr hk)
      exact (cmp_neg_iff e.1 key).mp less
    · exact hk
  · simp [Frame.before, hk] at he

/-- The other entries of the frame are not smaller, and only its own can be equal. -/
theorem frame_after {k : κ} {v : ν} {l r : RingNode κ ν} {red : Bool}
    (asc : Ascending cmp (RingNode.node k v l r red).toList) :
    ∀ e ∈ Frame.after (⟨k, v, decide (0 < cmp key k), if decide (0 < cmp key k) then l else r,
      red⟩ : Frame κ ν), cmp key k ≤ 0 ∧ (e = (k, v) ∨ cmp key e.1 < 0) := by
  obtain ⟨-, above, -⟩ := List.pairwise_append.mp asc
  intro e he
  by_cases hk : 0 < cmp key k
  · simp [Frame.after, hk] at he
  · simp only [Frame.after, hk, decide_false, Bool.false_eq_true, if_false, List.mem_cons] at he
    refine ⟨not_lt.mp hk, he.imp_right fun he => ?_⟩
    exact cmp_lt_of_le_of_lt (not_lt.mp hk) (List.rel_of_pairwise_cons above he)

/-- One pass of the loop. -/
theorem Sinking.step {k : κ} {v : ν} {l r : RingNode κ ν} {red found : Bool}
    {path : List (Frame κ ν)} {n : ℕ} (s : Sinking cmp key (.node k v l r red) path found n) :
    ∃ path' m,
      pushRed ⟨k, v, decide (0 < cmp key k), if decide (0 < cmp key k) then l else r, red⟩
        (if decide (0 < cmp key k) then r else l) path = some path' ∧
      Sinking cmp key (if decide (0 < cmp key k) then r else l) path'
        (found || decide (cmp key k = 0)) m ∧ path' ≠ [] ∧
      before path' ++ (if decide (0 < cmp key k) then r else l).toList ++ after path' =
        before path ++ (RingNode.node k v l r red).toList ++ after path := by
  obtain ⟨m, balanced, fits⟩ := Fits.descend (decide (0 < cmp key k)) s.balanced s.fits
  have whole : (Frame.fill ⟨k, v, decide (0 < cmp key k), if decide (0 < cmp key k) then l else r,
      red⟩ (if decide (0 < cmp key k) then r else l)) = .node k v l r red := by
    by_cases hk : 0 < cmp key k <;> simp [Frame.fill, hk]
  obtain ⟨path', pushed, shifted⟩ := pushRed_spec fits (whole ▸ s.pushed)
  have list : before path' ++ (if decide (0 < cmp key k) then r else l).toList ++ after path' =
      before path ++ (RingNode.node k v l r red).toList ++ after path := by
    rw [shifted.before, shifted.after, ← toList_unwind, unwind, whole, toList_unwind]
  have asc : Ascending cmp ((RingNode.node k v l r red).toList) :=
    (List.pairwise_append.mp (List.pairwise_append.mp s.ascending).1).2.1
  refine ⟨path', m, pushed, ⟨list ▸ s.ascending, ?_, ?_, ?_, balanced, shifted.fits,
    shifted.pushed⟩, shifted.present, list⟩
  · intro e he
    rw [shifted.before] at he
    exact (List.mem_append.mp he).elim (s.left e) (frame_before asc e)
  · intro e he
    rw [shifted.after] at he
    refine (List.mem_append.mp he).elim (fun he => ?_) (s.right e)
    obtain ⟨le, rfl | less⟩ := frame_after asc e he
    · exact le
    · exact less.le
  · rw [shifted.after, Bool.or_eq_true, s.found, decide_eq_true_eq]
    constructor
    · rintro (⟨e, he, h⟩ | h)
      · exact ⟨e, List.mem_append_right _ he, h⟩
      · exact ⟨(k, v), by simp [after, Frame.after, h], h⟩
    · rintro ⟨e, he, h⟩
      rcases List.mem_append.mp he with he | he
      · obtain ⟨-, rfl | less⟩ := frame_after asc e he
        · exact .inr h
        · exact absurd h less.ne
      · exact .inl ⟨e, he, h⟩

theorem removeLoop_spec (cur : RingNode κ ν) {path : List (Frame κ ν)} {found : Bool} {n : ℕ}
    (s : Sinking cmp key cur path found n) (hp : cur = .null → path ≠ []) :
    ∃ path' found' m, removeLoop cmp key cur path found = some (path', found') ∧
      Sinking cmp key .null path' found' m ∧ path' ≠ [] ∧
      before path' ++ after path' = before path ++ cur.toList ++ after path := by
  induction cur generalizing path found n with
  | null => exact ⟨path, found, n, rfl, s, hp rfl, by simp [RingNode.toList]⟩
  | node k v l r red ihl ihr =>
    obtain ⟨path₁, m, pushed, s₁, present, list⟩ := s.step
    by_cases hk : 0 < cmp key k
    · simp only [hk, decide_true, if_true] at pushed s₁ list
      obtain ⟨path', found', m', run, s', present', list'⟩ := ihr s₁ fun _ => present
      refine ⟨path', found', m', ?_, s', present', list'.trans list⟩
      simp [removeLoop, hk, pushed, run]
    · simp only [hk, decide_false, Bool.false_eq_true, if_false] at pushed s₁ list
      obtain ⟨path', found', m', run, s', present', list'⟩ := ihl s₁ fun _ => present
      refine ⟨path', found', m', ?_, s', present', list'.trans list⟩
      simp [removeLoop, hk, pushed, run]

/-- No entry but the first of the ones on the right can equal the key. -/
theorem Sinking.right_tail {cur : RingNode κ ν} {path : List (Frame κ ν)} {found : Bool} {n : ℕ}
    (s : Sinking cmp key cur path found n) {e : κ × ν} {rest : List (κ × ν)}
    (h : after path = e :: rest) : ∀ d ∈ rest, cmp key d.1 ≠ 0 := by
  intro d hd
  have asc : Ascending cmp (e :: rest) := h ▸ (List.pairwise_append.mp s.ascending).2.1
  have he := s.right e (h ▸ List.mem_cons_self)
  exact (cmp_lt_of_le_of_lt he (List.rel_of_pairwise_cons asc hd)).ne

theorem Sinking.found_head {cur : RingNode κ ν} {path : List (Frame κ ν)} {n : ℕ}
    (s : Sinking cmp key cur path true n) :
    ∃ e rest, after path = e :: rest ∧ cmp key e.1 = 0 := by
  obtain ⟨e, he, equal⟩ := s.found.mp rfl
  cases h : after path with
  | nil => simp [h] at he
  | cons d rest =>
    refine ⟨d, rest, rfl, ?_⟩
    rcases List.mem_cons.mp (h ▸ he) with rfl | he
    · exact equal
    · exact absurd equal (s.right_tail h e he)

/-- The tree after the splice holds the same entries less the found one. -/
theorem Sinking.splice {f : Frame κ ν} {path : List (Frame κ ν)} {n : ℕ}
    (s : Sinking cmp key .null (f :: path) true n) :
    (unwind (path.map (overwrite cmp key f.key f.value)) f.other).toList =
      eraseEntry cmp key (before (f :: path) ++ after (f :: path)) := by
  obtain ⟨e, rest, head, equal⟩ := s.found_head
  have tail := s.right_tail head
  have left : ∀ d ∈ before path, 0 < cmp key d.1 := fun d hd =>
    s.left d (List.mem_append_left _ hd)
  rw [head, eraseEntry_middle (fun d hd => (s.left d hd).ne') equal tail, toList_unwind,
    before_overwrite left]
  cases hd : f.dir with
  | true =>
    rw [after_overwrite_head (by simpa [after, Frame.after, hd] using head) equal tail]
    simp [before, Frame.before, hd]
  | false =>
    obtain ⟨rfl, rfl⟩ : (f.key, f.value) = e ∧ f.other.toList ++ after path = rest := by
      simpa [after, Frame.after, hd] using head
    rw [after_overwrite fun d hd => tail d (List.mem_append_right _ hd)]
    simp [before, Frame.before, hd]

omit [LawfulComparator cmp] in
theorem Sinking.splice_balanced {f : Frame κ ν} {path : List (Frame κ ν)} {found : Bool} {n : ℕ}
    (s : Sinking cmp key .null (f :: path) found n) :
    ∃ m, Balanced ((unwind (path.map (overwrite cmp key f.key f.value)) f.other).setRed false)
      false m := by
  obtain ⟨⟨c', other, hred⟩, above⟩ := s.fits
  rcases s.pushed with hf | hf | ⟨rfl, -⟩
  · obtain ⟨-, rfl⟩ := hred hf
    have fits : Fits path false n := by
      have := above.of_red
      simpa [Frame.height, hf] using this
    obtain ⟨c, m, balanced⟩ := other.unwind ((fits_overwrite path false n).mpr fits)
    exact balanced.blacken
  · simp at hf
  · exact other.blacken

theorem remove_spec (key : κ) {root : RingNode κ ν} {n : ℕ} (balanced : Balanced root false n)
    (asc : Ascending cmp root.toList) :
    ∃ t found m, remove cmp root key = some (t, found) ∧
      t.toList = eraseEntry cmp key root.toList ∧
      (found = true ↔ ∃ e ∈ root.toList, cmp key e.1 = 0) ∧ Balanced t false m := by
  cases root with
  | null => exact ⟨.null, false, 0, rfl, rfl, by simp [RingNode.toList], .null⟩
  | node k v l r red =>
    have sinking : Sinking cmp key (.node k v l r red) [] false n :=
      ⟨by simpa [before, after] using asc, by simp [before], by simp [after], by simp [after],
        balanced.color.symm ▸ balanced, trivial, trivial⟩
    obtain ⟨path, found, m, run, s, present, list⟩ := removeLoop_spec _ sinking (by simp)
    simp only [before, after, List.nil_append, List.append_nil] at list
    obtain ⟨f, path, rfl⟩ := List.exists_cons_of_ne_nil present
    have split : found = true ↔ ∃ e ∈ (RingNode.node k v l r red).toList, cmp key e.1 = 0 := by
      rw [s.found, ← list]
      simp only [List.mem_append]
      constructor
      · rintro ⟨e, he, equal⟩
        exact ⟨e, .inr he, equal⟩
      · rintro ⟨e, he | he, equal⟩
        · exact absurd equal (s.left e he).ne'
        · exact ⟨e, he, equal⟩
    cases found with
    | true =>
      obtain ⟨m', balanced'⟩ := s.splice_balanced
      refine ⟨_, true, m', ?_, ?_, split, balanced'⟩
      · simp [remove, run, spliced]
      · rw [toList_setRed, s.splice, list]
    | false =>
      obtain ⟨c, m', whole⟩ := RedBlackTree.Balanced.unwind s.balanced s.fits
      obtain ⟨m'', balanced'⟩ := whole.blacken
      refine ⟨_, false, m'', ?_, ?_, split, balanced'⟩
      · simp [remove, run, unwind]
      · have absent : ∀ e ∈ (RingNode.node k v l r red).toList, cmp key e.1 ≠ 0 := by
          intro e he equal
          exact Bool.false_ne_true (split.mpr ⟨e, he, equal⟩)
        rw [eraseEntry_of_none absent, toList_setRed, toList_unwind, ← list]
        simp [RingNode.toList]

end Lawful

end Ringpop.RedBlackTree
