import Ringpop.RedBlackTree

/-! `RBIterator` and the searches of `rbtree.js` that return one. The stack of
ancestors keeps for every node the side on which the iterator left it, so the
source's comparison of references `cursor.right === save` is a look at that side. -/
namespace Ringpop.RedBlackTree
open OrderedEntries

structure RBIterator (κ ν : Type) where
  /-- nearest ancestor first -/
  ancestors : List (Frame κ ν)
  cursor : RingNode κ ν

variable {κ ν : Type}

def RingNode.key : RingNode κ ν → Option κ
  | .null => none
  | .node key _ _ _ _ => some key

def RingNode.value : RingNode κ ν → Option ν
  | .null => none
  | .node _ value _ _ _ => some value

namespace RBIterator

def iterator : RBIterator κ ν := ⟨[], .null⟩

def key (it : RBIterator κ ν) : Option κ := it.cursor.key

def value (it : RBIterator κ ν) : Option ν := it.cursor.value

def minNode (ancestors : List (Frame κ ν)) : RingNode κ ν → RBIterator κ ν
  | .null => ⟨ancestors, .null⟩
  | .node key value .null right red => ⟨ancestors, .node key value .null right red⟩
  | .node key value left right red => minNode (⟨key, value, false, right, red⟩ :: ancestors) left

/-- The loop that goes up to the first ancestor left towards its left child. -/
def climb : List (Frame κ ν) → RingNode κ ν → RBIterator κ ν
  | [], _ => ⟨[], .null⟩
  | f :: ancestors, save =>
    if f.dir then climb ancestors (f.fill save) else ⟨ancestors, f.fill save⟩

def next (root : RingNode κ ν) (it : RBIterator κ ν) : RBIterator κ ν :=
  match it.cursor with
  | .null => minNode it.ancestors root
  | .node key value left .null red => climb it.ancestors (.node key value left .null red)
  | .node key value left right red => minNode (⟨key, value, true, left, red⟩ :: it.ancestors) right

end RBIterator
open RBIterator

/-- The loop of `lowerBound` over the ancestors of a place without a node. -/
def lastGreater (cmp : κ → κ → ℤ) (key : κ) : List (Frame κ ν) → RingNode κ ν → RBIterator κ ν
  | [], _ => ⟨[], .null⟩
  | f :: ancestors, save =>
    if cmp key f.key < 0 then ⟨ancestors, f.fill save⟩
    else lastGreater cmp key ancestors (f.fill save)

def search (cmp : κ → κ → ℤ) (key : κ) (ancestors : List (Frame κ ν)) :
    RingNode κ ν → RBIterator κ ν
  | .null => lastGreater cmp key ancestors .null
  | .node k v left right red =>
    let c := cmp key k
    if c = 0 then ⟨ancestors, .node k v left right red⟩
    else if 0 < c then search cmp key (⟨k, v, true, left, red⟩ :: ancestors) right
    else search cmp key (⟨k, v, false, right, red⟩ :: ancestors) left

def lowerBound (cmp : κ → κ → ℤ) (root : RingNode κ ν) (key : κ) : RBIterator κ ν :=
  search cmp key [] root

def upperBoundLoop (cmp : κ → κ → ℤ) (root : RingNode κ ν) (key : κ) :
    ℕ → RBIterator κ ν → Option (RBIterator κ ν)
  | 0, _ => none
  | fuel + 1, it =>
    match it.key with
    | none => some it
    | some k => if cmp k key < 0 then upperBoundLoop cmp root key fuel (it.next root) else some it

def upperBound (cmp : κ → κ → ℤ) (root : RingNode κ ν) (key : κ) : Option (RBIterator κ ν) :=
  upperBoundLoop cmp root key (root.size + 1) (lowerBound cmp root key)

def min : RingNode κ ν → RingNode κ ν
  | .null => .null
  | .node key value .null right red => .node key value .null right red
  | .node _ _ left _ _ => min left

/-- The iterator stands before the entries of `rest` in the tree `root`; at the
first of them if there is one. -/
inductive Yields (root : RingNode κ ν) : RBIterator κ ν → List (κ × ν) → Prop where
  | exhausted : Yields root ⟨[], .null⟩ []
  | atNode {ancestors key value left right red} :
      unwind ancestors (.node key value left right red) = root →
      Yields root ⟨ancestors, .node key value left right red⟩
        ((key, value) :: right.toList ++ after ancestors)

namespace Yields
variable {root : RingNode κ ν} {it : RBIterator κ ν} {rest : List (κ × ν)}

theorem key (h : Yields root it rest) : it.key = rest.head?.map Prod.fst := by
  cases h <;> rfl

theorem value (h : Yields root it rest) : it.value = rest.head?.map Prod.snd := by
  cases h <;> rfl

theorem minNode (ancestors : List (Frame κ ν)) (start : RingNode κ ν) (present : start ≠ .null)
    (whole : unwind ancestors start = root) :
    Yields root (minNode ancestors start) (start.toList ++ after ancestors) := by
  fun_induction RBIterator.minNode ancestors start with
  | case1 => exact absurd rfl present
  | case2 ancestors key value right red =>
    simpa [RingNode.toList] using Yields.atNode whole
  | case3 ancestors key value left right red bottom ih =>
    have found := ih bottom (by simpa [unwind, Frame.fill] using whole)
    simpa [RingNode.toList, after, Frame.after] using found

theorem climb (ancestors : List (Frame κ ν)) (save : RingNode κ ν)
    (whole : unwind ancestors save = root) :
    Yields root (climb ancestors save) (after ancestors) := by
  induction ancestors generalizing save with
  | nil => exact .exhausted
  | cons f ancestors ih =>
    obtain ⟨key, value, dir, other, red⟩ := f
    cases dir with
    | true => simpa [RBIterator.climb, after, Frame.after] using ih _ whole
    | false => simpa [RBIterator.climb, after, Frame.after, Frame.fill] using Yields.atNode whole

theorem next {entry : κ × ν} (h : Yields root it (entry :: rest)) :
    Yields root (it.next root) rest := by
  generalize hl : entry :: rest = list at h
  cases h with
  | exhausted => cases hl
  | @atNode ancestors key value left right red whole =>
    obtain ⟨-, rfl⟩ := List.cons.inj hl
    cases right with
    | null => exact Yields.climb ancestors _ whole
    | node k v l r c =>
      have found := Yields.minNode (⟨key, value, true, left, red⟩ :: ancestors)
        (.node k v l r c) nofun (by simpa [unwind, Frame.fill] using whole)
      simpa [RBIterator.next, after, Frame.after] using found

/-- An iterator that has passed the last node starts again. -/
theorem restart (h : Yields root it []) : Yields root (it.next root) root.toList := by
  generalize hl : [] = list at h
  cases h with
  | atNode => cases hl
  | exhausted =>
    cases root with
    | null => exact .exhausted
    | node k v l r c =>
      have found := Yields.minNode [] (.node k v l r c) nofun rfl
      simpa [RBIterator.next, after, unwind] using found

end Yields

theorem value_min (t : RingNode κ ν) : (min t).value = t.toList.head?.map Prod.snd := by
  fun_induction min t with
  | case1 => rfl
  | case2 => rfl
  | case3 key value left right red bottom ih =>
    rw [ih, RingNode.toList]
    cases left with
    | null => exact absurd rfl bottom
    | node k v l r c => cases l <;> simp [RingNode.toList]

section Lawful
variable {cmp : κ → κ → ℤ} [LawfulComparator cmp] {key : κ}

/-- The entries at or after `key`. -/
def notBelow (cmp : κ → κ → ℤ) (key : κ) (l : List (κ × ν)) : List (κ × ν) :=
  l.filter fun e => 0 ≤ cmp e.1 key

omit [LawfulComparator cmp] in
theorem notBelow_append {lower upper : List (κ × ν)} (hl : ∀ e ∈ lower, cmp e.1 key < 0)
    (hu : ∀ e ∈ upper, 0 ≤ cmp e.1 key) : notBelow cmp key (lower ++ upper) = upper := by
  rw [notBelow, List.filter_append,
    List.filter_eq_nil_iff.mpr fun e he => by have := hl e he; simp; omega,
    List.filter_eq_self.mpr fun e he => by simpa using hu e he, List.nil_append]

theorem below_append_notBelow (key : κ) {l : List (κ × ν)} (asc : Ascending cmp l) :
    l.filter (fun e => cmp e.1 key < 0) ++ notBelow cmp key l = l := by
  induction l with
  | nil => rfl
  | cons e l ih =>
    obtain ⟨head, tail⟩ := List.pairwise_cons.mp asc
    rcases lt_or_ge (cmp e.1 key) 0 with low | high
    · rw [notBelow, List.filter_cons_of_pos (by simpa using low),
        List.filter_cons_of_neg (by simpa using low), List.cons_append]
      exact congrArg (e :: ·) (ih tail)
    · have rest : ∀ d ∈ e :: l, 0 ≤ cmp d.1 key := by
        intro d hd
        rcases List.mem_cons.mp hd with rfl | hd
        · exact high
        · by_contra low
          exact high.not_gt (cmp_lt_trans (head d hd) (not_le.mp low))
      have none : (e :: l).filter (fun d => cmp d.1 key < 0) = [] :=
        List.filter_eq_nil_iff.mpr fun d hd => by simpa using rest d hd
      rw [none, notBelow, List.nil_append,
        List.filter_eq_self.mpr fun d hd => by simpa using rest d hd]

theorem lastGreater_yields {root : RingNode κ ν} (ancestors : List (Frame κ ν))
    (save : RingNode κ ν) (whole : unwind ancestors save = root)
    (towards : ∀ f ∈ ancestors, f.Towards cmp key) :
    Yields root (lastGreater cmp key ancestors save) (after ancestors) := by
  induction ancestors generalizing save with
  | nil => exact .exhausted
  | cons f ancestors ih =>
    obtain ⟨off, side⟩ := towards f List.mem_cons_self
    obtain ⟨k, v, dir, other, red⟩ := f
    have sign : cmp key k < 0 ↔ 0 < cmp k key := cmp_neg_iff key k
    simp only [lastGreater] at off side ⊢
    split
    case isTrue less =>
      obtain rfl : dir = false := by rw [side, decide_eq_false_iff_not]; omega
      simpa [after, Frame.after, Frame.fill] using Yields.atNode whole
    case isFalse greater =>
      obtain rfl : dir = true := by rw [side, decide_eq_true_eq]; omega
      have found := ih _ whole fun g hg => towards g (List.mem_cons_of_mem _ hg)
      simpa [after, Frame.after] using found

/-- All entries left of a place on the search path of `key` are below it. -/
theorem notBelow_place {root node : RingNode κ ν} {ancestors : List (Frame κ ν)}
    (asc : Ascending cmp root.toList) (whole : unwind ancestors node = root)
    (towards : ∀ f ∈ ancestors, f.Towards cmp key) (lower upper : List (κ × ν))
    (parts : node.toList = lower ++ upper) (hl : ∀ e ∈ lower, cmp e.1 key < 0)
    (hu : ∀ e ∈ upper, 0 ≤ cmp e.1 key) :
    notBelow cmp key root.toList = upper ++ after ancestors := by
  rw [← whole, toList_unwind] at asc ⊢
  obtain ⟨ascb, asca, -⟩ := List.pairwise_append.mp asc
  have low := before_lt (List.pairwise_append.mp ascb).1 towards
  have high := after_gt asca towards
  rw [parts, show before ancestors ++ (lower ++ upper) ++ after ancestors =
    (before ancestors ++ lower) ++ (upper ++ after ancestors) by simp]
  refine notBelow_append (fun e he => ?_) fun e he => ?_
  · exact (List.mem_append.mp he).elim (low e) (hl e)
  · exact (List.mem_append.mp he).elim (hu e) fun h => (high e h).le

theorem notBelow_here {root left right : RingNode κ ν} {k : κ} {v : ν} {red : Bool}
    {ancestors : List (Frame κ ν)} (asc : Ascending cmp root.toList)
    (whole : unwind ancestors (.node k v left right red) = root)
    (towards : ∀ f ∈ ancestors, f.Towards cmp key) (here : cmp k key = 0) :
    notBelow cmp key root.toList = (k, v) :: right.toList ++ after ancestors := by
  have own : Ascending cmp (left.toList ++ (k, v) :: right.toList) :=
    ascending_of_unwind ancestors (whole ▸ asc)
  obtain ⟨-, ascr, hcross⟩ := List.pairwise_append.mp own
  have equal : cmp key k = 0 := cmp_zero_comm.mp here
  refine notBelow_place asc whole towards left.toList _ rfl (fun e he => ?_) fun e he => ?_
  · exact cmp_lt_of_lt_of_le (hcross e he _ List.mem_cons_self) here.le
  · rcases List.mem_cons.mp he with rfl | he
    · exact here.ge
    · have above : cmp key e.1 < 0 :=
        cmp_lt_of_le_of_lt equal.le ((List.pairwise_cons.mp ascr).1 e he)
      exact ((cmp_neg_iff key e.1).mp above).le

theorem search_yields {root : RingNode κ ν} (asc : Ascending cmp root.toList)
    (ancestors : List (Frame κ ν)) (node : RingNode κ ν) (whole : unwind ancestors node = root)
    (towards : ∀ f ∈ ancestors, f.Towards cmp key) :
    Yields root (search cmp key ancestors node) (notBelow cmp key root.toList) := by
  induction node generalizing ancestors with
  | null =>
    rw [notBelow_place asc whole towards [] [] rfl nofun nofun]
    exact lastGreater_yields ancestors .null whole towards
  | node k v left right red ihl ihr =>
    have sign : cmp key k < 0 ↔ 0 < cmp k key := cmp_neg_iff key k
    have reverse : cmp k key < 0 ↔ 0 < cmp key k := cmp_neg_iff k key
    simp only [search]
    split
    case isTrue equal =>
      rw [notBelow_here asc whole towards (by omega)]
      exact .atNode whole
    case isFalse differs =>
      have extend (dir : Bool) (other : RingNode κ ν) (side : dir = decide (cmp k key < 0)) :
          ∀ f ∈ (⟨k, v, dir, other, red⟩ : Frame κ ν) :: ancestors, f.Towards cmp key := by
        intro f hf
        rcases List.mem_cons.mp hf with rfl | hf
        · exact ⟨by simp only; omega, side⟩
        · exact towards f hf
      split
      case isTrue greater =>
        exact ihr _ whole (extend true left (by simp; omega))
      case isFalse less =>
        exact ihl _ whole (extend false right (by simp; omega))

theorem lowerBound_yields {root : RingNode κ ν} (asc : Ascending cmp root.toList) :
    Yields root (lowerBound cmp root key) (notBelow cmp key root.toList) :=
  search_yields asc [] root rfl nofun

omit [LawfulComparator cmp] in
theorem head_notBelow {l rest : List (κ × ν)} {entry : κ × ν}
    (h : notBelow cmp key l = entry :: rest) : 0 ≤ cmp entry.1 key := by
  have mem : entry ∈ notBelow cmp key l := h ▸ List.mem_cons_self
  simpa using (List.mem_filter.mp mem).2

/-- `lowerBound` leaves nothing for the loop of `upperBound` to skip. -/
theorem upperBound_eq {root : RingNode κ ν} (asc : Ascending cmp root.toList) :
    upperBound cmp root key = some (lowerBound cmp root key) := by
  have yields : Yields root (lowerBound cmp root key) (notBelow cmp key root.toList) :=
    lowerBound_yields asc
  rw [upperBound, upperBoundLoop, yields.key]
  cases rest : notBelow cmp key root.toList with
  | nil => rfl
  | cons entry rest' =>
    have stop := head_notBelow rest
    simp only [List.head?_cons, Option.map_some, if_neg stop.not_gt]

namespace RBTree

theorem upperBound_isSome (t : RBTree κ ν cmp) (key : κ) :
    (RedBlackTree.upperBound cmp t.root key).isSome := by
  rw [upperBound_eq t.ascending, Option.isSome_some]

def upperBound (t : RBTree κ ν cmp) (key : κ) : RBIterator κ ν :=
  (RedBlackTree.upperBound cmp t.root key).get (upperBound_isSome t key)

theorem upperBound_yields (t : RBTree κ ν cmp) (key : κ) :
    Yields t.root (t.upperBound key) (notBelow cmp key t.toList) := by
  simp only [upperBound, upperBound_eq t.ascending, Option.get_some]
  exact lowerBound_yields t.ascending

end RBTree
end Lawful

end Ringpop.RedBlackTree
