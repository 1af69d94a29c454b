import Ringpop.TreeIteration
import Mathlib.Data.Nat.Log

/-! The cost of a red-black tree: it is never much higher than it has to be, and the loops
of insertion and of the search for a bound make as few passes as its height allows. -/
namespace Ringpop.RedBlackTree
open OrderedEntries

variable {κ ν : Type} {cmp : κ → κ → ℤ}

/-- The number of nodes on the longest way down. -/
def RingNode.height : RingNode κ ν → ℕ
  | .null => 0
  | .node _ _ left right _ => max left.height right.height + 1

/-- No two red nodes follow each other, so at least every other node of a path is black. -/
theorem Balanced.height_le {t : RingNode κ ν} {c : Bool} {n : ℕ} (h : Balanced t c n) :
    t.height ≤ 2 * n + c.toNat := by
  induction h with
  | null => exact le_rfl
  | red left right ihl ihr =>
    simp only [Bool.toNat_false, Nat.add_zero] at ihl ihr
    exact Nat.succ_le_succ (max_le ihl ihr)
  | @black _ _ _ _ c₁ c₂ n left right ihl ihr =>
    have left : _ ≤ 2 * n + 1 := ihl.trans (Nat.add_le_add_left c₁.toNat_le _)
    have right : _ ≤ 2 * n + 1 := ihr.trans (Nat.add_le_add_left c₂.toNat_le _)
    exact Nat.succ_le_succ (max_le left right)

/-- The black nodes alone would make a full tree. -/
theorem Balanced.two_pow_le {t : RingNode κ ν} {c : Bool} {n : ℕ} (h : Balanced t c n) :
    2 ^ n ≤ t.size + 1 := by
  induction h with
  | null => exact le_rfl
  | red left right ihl ihr =>
    simp only [RingNode.size]
    omega
  | black left right ihl ihr =>
    simp only [RingNode.size, pow_succ]
    omega

theorem Balanced.height_le_log {t : RingNode κ ν} {n : ℕ} (h : Balanced t false n) :
    t.height ≤ 2 * Nat.log 2 (t.size + 1) := by
  have black : n ≤ Nat.log 2 (t.size + 1) := Nat.le_log_of_pow_le Nat.one_lt_two h.two_pow_le
  exact h.height_le.trans (Nat.mul_le_mul_left 2 black)

theorem depth_le_height (cmp : κ → κ → ℤ) (key : κ) (t : RingNode κ ν) :
    depth cmp key t ≤ t.height := by
  induction t with
  | null => exact le_rfl
  | node k v left right red ihl ihr =>
    simp only [depth, RingNode.height]
    split
    · exact Nat.succ_le_succ (ihr.trans (le_max_right _ _))
    · exact Nat.succ_le_succ (ihl.trans (le_max_left _ _))

/-- More passes than it takes change nothing. -/
theorem insertLoop_mono {key : κ} {value : ν} {fuel stale : ℕ} {ret : Bool} {node : RingNode κ ν}
    {path : List (Frame κ ν)} {result : RingNode κ ν × Bool}
    (run : insertLoop cmp key value fuel stale ret node path = some result) {more : ℕ}
    (enough : fuel ≤ more) : insertLoop cmp key value more stale ret node path = some result := by
  induction fuel generalizing stale ret node path more with
  | zero => cases run
  | succ fuel ih =>
    obtain ⟨more, rfl⟩ := Nat.exists_eq_succ_of_ne_zero (Nat.ne_zero_of_lt enough)
    simp only [insertLoop, Option.bind_eq_bind, Option.bind_eq_some_iff] at run ⊢
    obtain ⟨⟨fixed, path', stale'⟩, fix, last⟩ := run
    refine ⟨_, fix, ?_⟩
    cases fixed with
    | null => cases last
    | node k v left right red =>
      simp only at last ⊢
      split
      case isTrue found => rwa [if_pos found] at last
      case isFalse missing =>
        rw [if_neg missing] at last
        exact ih last (Nat.le_of_succ_le_succ enough)

namespace TreeObject
variable {ρ : Type} {tree : TreeObject ρ κ ν}

/-- The search makes one pass for each node on its way, and one more. -/
theorem search_isSome (cmp : κ → κ → ℤ) (key : κ) {node : RingNode κ ν} {fuel : ℕ}
    {cur : Option ρ} (ancestors : List ρ) (enough : node.height < fuel)
    (here : Holds tree cur node) :
    (tree.search cmp key fuel ancestors cur).isSome := by
  induction node generalizing fuel cur ancestors with
  | null =>
    obtain ⟨fuel, rfl⟩ := Nat.exists_eq_succ_of_ne_zero (Nat.ne_zero_of_lt enough)
    obtain rfl := here.eq_none
    rfl
  | node k v left right red ihl ihr =>
    obtain ⟨fuel, rfl⟩ := Nat.exists_eq_succ_of_ne_zero (Nat.ne_zero_of_lt enough)
    have lower := Nat.lt_of_succ_lt_succ enough
    cases here with
    | @node r _ _ hl hr =>
      simp only [search]
      split
      case isTrue => rfl
      case isFalse =>
        rcases Decidable.em (0 < cmp key (tree.node r).key) with greater | less
        · rw [decide_eq_true greater]
          exact ihr _ ((le_max_right _ _).trans_lt lower) hr
        · rw [decide_eq_false less]
          exact ihl _ ((le_max_left _ _).trans_lt lower) hl

theorem search_mono {key : κ} {fuel : ℕ} {ancestors : List ρ} {cur : Option ρ}
    {it : IteratorObject ρ} (run : tree.search cmp key fuel ancestors cur = some it) {more : ℕ}
    (enough : fuel ≤ more) : tree.search cmp key more ancestors cur = some it := by
  induction fuel generalizing ancestors cur more with
  | zero => cases run
  | succ fuel ih =>
    obtain ⟨more, rfl⟩ := Nat.exists_eq_succ_of_ne_zero (Nat.ne_zero_of_lt enough)
    cases cur with
    | none => exact run
    | some cur =>
      simp only [search] at run ⊢
      split
      case isTrue found => rwa [if_pos found] at run
      case isFalse missing =>
        rw [if_neg missing] at run
        exact ih run (Nat.le_of_succ_le_succ enough)

end TreeObject

namespace RBTree
open TreeObject
variable [LawfulComparator cmp]

/-- A tree of `n` entries, however it was built, is at most `2 log (n + 1)` nodes high. One
more pass than that finds the bound of any key, and twice as many the place of a new one. -/
theorem run_logarithmic (calls : List (Call κ ν)) (key : κ) (value : ν) :
    let t : RBTree κ ν cmp := run calls
    let height := 2 * Nat.log 2 (t.size + 1)
    t.root.height ≤ height ∧
      (t.root ≠ .null → ∃ root, (t.insert key value).1.root = root.setRed false ∧
        ∀ fuel, 2 * height + 2 ≤ fuel → insertLoop cmp key value fuel 0 false t.root [] =
          some (root, (t.insert key value).2)) ∧
      ∀ (ρ : Type) (tree : TreeObject ρ κ ν), tree.Holds tree.root t.root →
        ∃ it, ∀ fuel, height < fuel → tree.lowerBound cmp key fuel = some it := by
  intro t height
  obtain ⟨n, balanced⟩ := t.balanced
  have size : t.size = t.root.size := by rw [size_eq, length_toList]
  have low : t.root.height ≤ height := by
    have bound := balanced.height_le_log
    rwa [← size] at bound
  refine ⟨low, fun present => ?_, fun ρ tree holds => ?_⟩
  · have walking : Walking cmp key 0 t.root [] n :=
      ⟨List.forall_mem_nil _, balanced.color.symm ▸ balanced, trivial, Nat.zero_le 2, trivial,
        balanced.color⟩
    have passes_le (d : ℕ) (h : depth cmp key t.root ≤ d) :
        passes 0 (depth cmp key t.root) ≤ 2 * d + 2 :=
      Nat.add_le_add_right (Nat.mul_le_mul_left 2 h) 2
    obtain ⟨root, ret, found, -⟩ := insertLoop_spec value _ walking t.ascending le_rfl
    have whole : RedBlackTree.insert cmp t.root key value = some (root.setRed false, ret) := by
      have loop := insertLoop_mono found (passes_le t.root.size (depth_le_size t.root))
      cases shape : t.root with
      | null => exact absurd shape present
      | node =>
        rw [shape] at loop
        simp only [RedBlackTree.insert, loop, Option.bind_eq_bind, Option.bind_some]
    have same := (Option.some_get (t.insert_isSome key value)).trans whole
    obtain ⟨tree, flag⟩ := Prod.mk.inj (Option.some.inj same)
    refine ⟨root, tree, fun fuel enough => ?_⟩
    have walked := (depth_le_height cmp key t.root).trans low
    rw [insertLoop_mono found ((passes_le height walked).trans enough)]
    exact congrArg (fun ret => some (root, ret)) flag.symm
  · obtain ⟨it, found⟩ := Option.isSome_iff_exists.mp
      (search_isSome cmp key [] (Nat.lt_succ_of_le low) holds)
    exact ⟨it, fun fuel enough => search_mono found enough⟩

theorem run_logarithmic_numbers :
    let t : RBTree ℤ ℤ fun a b => a - b := run [.insert 3 30, .insert 1 10, .insert 2 20]
    t.root.height ≤ 4 ∧
      (∃ root, (t.insert 5 50).1.root = root.setRed false ∧
        insertLoop (fun a b => a - b) 5 50 10 0 false t.root [] = some (root, true)) ∧
      ∃ it, (inMemory t.root).lowerBound (fun a b => a - b) 5 5 = some it := by
  intro t
  have log : 2 * Nat.log 2 (t.size + 1) = 4 := by
    have size : t.size + 1 = 2 ^ 2 := by decide
    rw [size, Nat.log_pow Nat.one_lt_two]
  obtain ⟨low, place, bound⟩ := @run_logarithmic _ ℤ (fun a b : ℤ => a - b) _
    [.insert 3 30, .insert 1 10, .insert 2 20] 5 50
  rw [log] at low place bound
  refine ⟨low, ?_, ?_⟩
  · obtain ⟨root, inserted, passes⟩ := place (by decide)
    exact ⟨root, inserted, passes 10 le_rfl⟩
  · obtain ⟨it, found⟩ := bound _ (inMemory t.root) (holds_inMemory t.root t.root)
    exact ⟨it, found 5 (Nat.lt_succ_self 4)⟩

end RBTree
end Ringpop.RedBlackTree
