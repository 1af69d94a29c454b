import Ringpop.RingPoints

/-! `lookupN` walks the tree from the key's position to the end, goes on at the
least node and stops before the position where it began, or when it has enough. -/
namespace Ringpop.Ring
open JsString Dictionary RedBlackTree OrderedEntries Clockwise

namespace HashRing
variable {o : Options} {root : RingNode ReplicaPoint Str} {n : ℤ}

def Seen (resultSet : Dict Str Unit) (resultArray : List Str) : Prop :=
  ∀ s, resultSet.has s = true ↔ s ∈ resultArray

theorem none_seen : Seen .empty [] := fun s => by simp

theorem lookupNLoop_value (root : RingNode ReplicaPoint Str) (n : ℤ)
    (firstVal : Option ReplicaPoint) (fuel : ℕ)
    {iter : RBIterator ReplicaPoint Str} {resultArray : List Str} {resultSet : Dict Str Unit}
    {res : Str} (value : iter.value = some res) (plain : res ∉ objectPrototype)
    (seen : Seen resultSet resultArray) :
    ∃ resultSet', Seen resultSet' (push resultArray res) ∧
      lookupNLoop root n firstVal (fuel + 1) iter resultArray resultSet =
        if (push resultArray res).length < n ∧ (iter.next root).key ≠ firstVal then
          lookupNLoop root n firstVal fuel (iter.next root) (push resultArray res) resultSet'
        else some (push resultArray res) := by
  have known : truthy resultSet res = decide (res ∈ resultArray) := by
    rw [truthy, decide_eq_false plain, Bool.or_false, Bool.eq_iff_iff, decide_eq_true_eq, seen]
  by_cases old : res ∈ resultArray
  · refine ⟨resultSet, by rwa [push, if_pos old], ?_⟩
    simp only [lookupNLoop, value, known, old, push, decide_true, Bool.not_true, if_true,
      Bool.false_eq_true, if_false]
  · refine ⟨resultSet.set res (), fun s => ?_, ?_⟩
    · rw [push, if_neg old, Dict.has_set, Bool.or_eq_true, decide_eq_true_eq, seen,
        List.mem_append, List.mem_singleton, or_comm]
    · simp only [lookupNLoop, value, known, old, push, decide_false, Bool.not_false, if_true,
        if_false]

theorem lookupNLoop_end {firstVal : Option ReplicaPoint} {fuel : ℕ}
    {iter : RBIterator ReplicaPoint Str} {resultArray : List Str} {resultSet : Dict Str Unit}
    (value : iter.value = none) :
    lookupNLoop root n firstVal (fuel + 1) iter resultArray resultSet =
      if resultArray.length < n ∧ (RBIterator.iterator.next root).key ≠ firstVal then
        lookupNLoop root n firstVal fuel (RBIterator.iterator.next root) resultArray resultSet
      else some resultArray := by
  simp only [lookupNLoop, value]

theorem head_ne {e : Entry} (todo : List Entry) {rest : List Entry}
    (nodup : ((e :: todo ++ rest).map Prod.fst).Nodup) : rest.head?.map Prod.fst ≠ some e.1 := by
  intro same
  cases rest with
  | nil => cases same
  | cons d rest =>
    refine (List.nodup_cons.mp nodup).1 (List.mem_map.mpr ⟨d, ?_, Option.some.inj same⟩)
    exact List.mem_append_right _ List.mem_cons_self

/-- The last part of the walk, which ends at the node where the walk began. -/
theorem lookupNLoop_wrapped {e : Entry} {todo : List Entry} (rest : List Entry) {fuel : ℕ}
    {iter : RBIterator ReplicaPoint Str} {resultArray : List Str} {resultSet : Dict Str Unit}
    (yields : Yields root iter (e :: todo ++ rest))
    (nodup : ((e :: todo ++ rest).map Prod.fst).Nodup)
    (plain : ∀ d ∈ e :: todo, d.2 ∉ objectPrototype) (seen : Seen resultSet resultArray)
    (enough : todo.length < fuel) :
    lookupNLoop root n (rest.head?.map Prod.fst) fuel iter resultArray resultSet =
      some (resume n (push resultArray e.2) (todo.map Prod.snd)) := by
  induction todo generalizing e fuel iter resultArray resultSet with
  | nil =>
    obtain ⟨fuel, rfl⟩ : ∃ m, fuel = m + 1 := ⟨fuel - 1, by simp at enough; omega⟩
    obtain ⟨resultSet', -, pass⟩ := lookupNLoop_value root n
      (rest.head?.map Prod.fst) fuel yields.value (plain e (by simp)) seen
    have back : (iter.next root).key = rest.head?.map Prod.fst := yields.next.key
    rw [pass, if_neg (by simp [back])]
    rfl
  | cons d todo ih =>
    obtain ⟨fuel, rfl⟩ : ∃ m, fuel = m + 1 := ⟨fuel - 1, by simp at enough; omega⟩
    obtain ⟨resultSet', seen', pass⟩ := lookupNLoop_value root n
      (rest.head?.map Prod.fst) fuel yields.value (plain e (by simp)) seen
    have tail := (List.nodup_cons.mp nodup).2
    have onward : (iter.next root).key ≠ rest.head?.map Prod.fst := by
      rw [yields.next.key]
      exact (head_ne _ tail).symm
    simp only [pass, onward, ne_eq, not_false_eq_true, and_true, List.map_cons, resume]
    split
    · exact ih yields.next tail (fun c hc => plain c (List.mem_cons_of_mem e hc)) seen'
        (by simp at enough; omega)
    · rfl

/-- From the end of the tree the walk goes on at the least node, through `wrapped`. -/
theorem lookupNLoop_restart {wrapped : List Entry} (rest : List Entry) {fuel : ℕ}
    {iter : RBIterator ReplicaPoint Str} {resultArray : List Str} {resultSet : Dict Str Unit}
    (whole : root.toList = wrapped ++ rest) (ended : iter.value = none)
    (nodup : (root.toList.map Prod.fst).Nodup)
    (plain : ∀ d ∈ root.toList, d.2 ∉ objectPrototype) (seen : Seen resultSet resultArray)
    (enough : wrapped.length ≤ fuel) :
    lookupNLoop root n (rest.head?.map Prod.fst) (fuel + 1) iter resultArray resultSet =
      some (resume n resultArray (wrapped.map Prod.snd)) := by
  have again : Yields root (RBIterator.iterator.next root) root.toList := Yields.exhausted.restart
  rw [lookupNLoop_end ended, again.key, whole]
  cases wrapped with
  | nil => simp [resume]
  | cons d wrapped =>
    rw [whole] at nodup again
    have onward : (d :: wrapped ++ rest).head?.map Prod.fst ≠ rest.head?.map Prod.fst :=
      (head_ne _ nodup).symm
    simp only [onward, ne_eq, not_false_eq_true, and_true, List.map_cons, resume]
    split
    · exact lookupNLoop_wrapped _ again nodup
        (fun c hc => plain c (whole ▸ List.mem_append_left _ hc)) seen enough
    · rfl

/-- The walk from a node of the first part, with the nodes of `wrapped` to follow. -/
theorem lookupNLoop_here {e : Entry} (done : List Entry) {rest wrapped : List Entry} {fuel : ℕ}
    {iter : RBIterator ReplicaPoint Str} {resultArray : List Str} {resultSet : Dict Str Unit}
    (whole : root.toList = wrapped ++ (done ++ e :: rest))
    (yields : Yields root iter (e :: rest)) (nodup : (root.toList.map Prod.fst).Nodup)
    (plain : ∀ d ∈ root.toList, d.2 ∉ objectPrototype) (seen : Seen resultSet resultArray)
    (enough : rest.length + wrapped.length + 1 < fuel) :
    lookupNLoop root n ((done ++ e :: rest).head?.map Prod.fst) fuel iter resultArray resultSet =
      some (resume n (push resultArray e.2) ((rest ++ wrapped).map Prod.snd)) := by
  induction rest generalizing e done fuel iter resultArray resultSet with
  | nil =>
    obtain ⟨fuel, rfl⟩ : ∃ m, fuel = m + 2 := ⟨fuel - 2, by omega⟩
    obtain ⟨resultSet', seen', pass⟩ := lookupNLoop_value root n
      ((done ++ [e]).head?.map Prod.fst) (fuel + 1) yields.value
      (plain e (by simp [whole])) seen
    have past : (iter.next root).key ≠ (done ++ [e]).head?.map Prod.fst := by
      rw [yields.next.key]
      cases done <;> exact nofun
    simp only [pass, past, ne_eq, not_false_eq_true, and_true, List.nil_append]
    split
    case isTrue =>
      exact lookupNLoop_restart _ whole yields.next.value nodup plain seen'
        (by simp at enough; omega)
    case isFalse full => rw [resume_full full]
  | cons d rest ih =>
    obtain ⟨fuel, rfl⟩ : ∃ m, fuel = m + 1 := ⟨fuel - 1, by omega⟩
    obtain ⟨resultSet', seen', pass⟩ := lookupNLoop_value root n
      ((done ++ e :: d :: rest).head?.map Prod.fst) fuel yields.value
      (plain e (by simp [whole])) seen
    have regroup : done ++ e :: d :: rest = (done ++ [e]) ++ d :: rest := by simp
    have onward : (iter.next root).key ≠ (done ++ e :: d :: rest).head?.map Prod.fst := by
      rw [yields.next.key, regroup]
      rw [whole, regroup] at nodup
      have part := (List.nodup_append.mp (List.map_append ▸ nodup)).2.1
      cases done with
      | nil => exact head_ne [] part
      | cons c done => exact head_ne (done ++ [e]) part
    simp only [pass, onward, ne_eq, not_false_eq_true, and_true, List.cons_append, List.map_cons,
      resume]
    split
    · rw [regroup] at whole ⊢
      exact ih _ whole yields.next seen' (by simp at enough; omega)
    · rfl

variable {ring : HashRing}

theorem Consistent.plain_entry (c : Consistent o ring) {e : Entry}
    (he : e ∈ ring.rbtree.toList) : e.2 ∉ objectPrototype :=
  c.plain e.2 (c.replica e he).1

/-- `lookupN` ends, and its result depends on the points and the number of servers. -/
theorem Consistent.lookupN_walk (c : Consistent o ring) (key : Str) (n : ℤ) :
    ring.lookupN o key n =
      some (walk (min n ring.getServerCount)
        ((ring.points.filter (o.hashFunc key ≤ ·.1)).map Prod.snd)
        ((ring.points.filter (·.1 < o.hashFunc key)).map Prod.snd)) := by
  have capped : (if n > ring.getServerCount then (ring.getServerCount : ℤ) else n) =
      min n ring.getServerCount := by
    split <;> omega
  have yields := ring.rbtree.upperBound_yields (searchPoint o key)
  have whole := below_append_notBelow (searchPoint o key) ring.rbtree.ascending
  have size := ring.rbtree.size_eq
  have nodup := ring.rbtree.ascending.nodup_keys
  have plain : ∀ e ∈ ring.rbtree.toList, e.2 ∉ objectPrototype := fun e he => c.plain_entry he
  simp only [lookupN, capped, ← notBelow_values, ← below_values]
  change _ = some (walk _ ((notBelow comparator (searchPoint o key) _).map _)
    ((ring.rbtree.toList.filter fun e => comparator e.1 (searchPoint o key) < 0).map _))
  simp only [RBTree.toList] at yields nodup plain ⊢
  rw [yields.key]
  generalize notBelow comparator (searchPoint o key) ring.rbtree.root.toList = here at *
  generalize ring.rbtree.root.toList.filter
    (fun e => decide (comparator e.1 (searchPoint o key) < 0)) = wrapped at *
  have lengths := congrArg List.length whole
  rw [List.length_append] at lengths
  cases here with
  | cons e here =>
    have run := lookupNLoop_here (n := min n ring.getServerCount) [] whole.symm yields nodup plain
      none_seen
      (show here.length + wrapped.length + 1 < ring.rbtree.size + 2 by
        simp only [List.length_cons] at lengths; omega)
    simpa [walk, push] using run
  | nil =>
    have enough : wrapped.length ≤ ring.rbtree.size + 1 := by
      simp only [List.length_nil] at lengths
      omega
    exact lookupNLoop_restart [] whole.symm yields.value nodup plain none_seen enough

/-- `lookupN` gives the first `n` different owners. -/
theorem Consistent.lookupN_eq (c : Consistent o ring) (key : Str) {n : ℤ} (positive : 1 ≤ n) :
    ring.lookupN o key n = some (preference n.toNat (o.hashFunc key) ring.points) := by
  have among : ∀ s ∈ clockwise (o.hashFunc key) ring.points, s ∈ ring.servers.keys := by
    intro s hs
    obtain ⟨⟨h, s⟩, he, rfl⟩ := mem_clockwise.mp hs
    exact Dict.mem_keys.mpr (c.mem_points.mp he).1
  have bound := length_eraseDups_le among
  rw [c.lookupN_walk, preference, getServerCount]
  congr 1
  rcases Nat.eq_zero_or_pos ring.servers.keys.length with none | some
  · have empty : clockwise (o.hashFunc key) ring.points = [] := by
      refine List.eq_nil_iff_forall_not_mem.mpr fun s hs => ?_
      have := List.length_pos_of_mem (among s hs)
      omega
    have parts := empty
    rw [clockwise, List.map_append] at parts
    obtain ⟨here, wrapped⟩ := List.append_eq_nil_iff.mp parts
    rw [empty, here, wrapped]
    simp [walk, resume]
  · rw [walk_eq (by omega), ← List.map_append, ← clockwise]
    rcases le_total n ring.servers.keys.length with le | ge
    · rw [min_eq_left le]
    · rw [min_eq_right ge, List.take_of_length_le (by omega), List.take_of_length_le (by omega)]

end HashRing
end Ringpop.Ring
