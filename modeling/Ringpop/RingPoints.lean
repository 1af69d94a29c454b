import Ringpop.HashRing
import Ringpop.Clockwise

/-! The replica points of a ring as a list, and the searches of the ring as walks
on that list. In a consistent ring the list is decided by the set of servers. -/
namespace Ringpop.Ring
open JsString Dictionary RedBlackTree OrderedEntries Clockwise

abbrev Entry := ReplicaPoint × Str

namespace HashRing
variable {o : Options}

theorem zero_replica {s t : Str} {i j : ℕ} :
    comparator (newReplicaPoint o s i) (newReplicaPoint o t j) = 0 ↔
      o.hashFunc (s ++ natString i) = o.hashFunc (t ++ natString j) ∧ s = t := by
  simp [comparator_zero, newReplicaPoint]

section Replicas
variable {s : Str} {is : List ℕ} {tree : RBTree ReplicaPoint Str comparator}

theorem mem_insertReplicas {e : Entry} (h : e ∈ (is.foldl (insertReplica o s) tree).toList) :
    e ∈ tree.toList ∨ ∃ i ∈ is, e = (newReplicaPoint o s i, s) := by
  induction is generalizing tree with
  | nil => exact Or.inl h
  | cons i is ih =>
    rcases ih h with he | ⟨j, hj, he⟩
    · rw [insertReplica, RBTree.toList_insert, mem_insertEntry] at he
      rcases he with he | ⟨he, -⟩
      · exact Or.inl he
      · exact Or.inr ⟨i, List.mem_cons_self, he⟩
    · exact Or.inr ⟨j, List.mem_cons_of_mem i hj, he⟩

theorem insertReplicas_keeps (is : List ℕ) {e : Entry} (h : e ∈ tree.toList) :
    e ∈ (is.foldl (insertReplica o s) tree).toList := by
  induction is generalizing tree with
  | nil => exact h
  | cons i is ih =>
    refine ih ?_
    rw [insertReplica, RBTree.toList_insert, mem_insertEntry]
    exact Or.inl h

theorem insertReplicas_covers {i : ℕ} (hi : i ∈ is) :
    ∃ e ∈ (is.foldl (insertReplica o s) tree).toList,
      comparator e.1 (newReplicaPoint o s i) = 0 := by
  induction is generalizing tree with
  | nil => cases hi
  | cons j is ih =>
    rcases List.mem_cons.mp hi with rfl | hi
    · by_cases present : ∃ e ∈ tree.toList, comparator e.1 (newReplicaPoint o s i) = 0
      · obtain ⟨e, he, hk⟩ := present
        exact ⟨e, insertReplicas_keeps (i :: is) he, hk⟩
      · push Not at present
        have added : (newReplicaPoint o s i, s) ∈ (insertReplica o s tree i).toList := by
          rw [insertReplica, RBTree.toList_insert, mem_insertEntry]
          exact Or.inr ⟨rfl, present⟩
        exact ⟨_, insertReplicas_keeps is added, cmp_self _⟩
    · exact ih hi

theorem mem_removeReplicas {e : Entry} :
    e ∈ (is.foldl (removeReplica o s) tree).toList ↔
      e ∈ tree.toList ∧ ∀ i ∈ is, comparator (newReplicaPoint o s i) e.1 ≠ 0 := by
  induction is generalizing tree with
  | nil => simp
  | cons i is ih =>
    rw [List.foldl_cons, ih, removeReplica, RBTree.toList_remove, mem_eraseEntry,
      List.forall_mem_cons, and_assoc]

end Replicas

/-- The tree holds the replica points of the servers and nothing else. -/
structure Consistent (o : Options) (ring : HashRing) : Prop where
  replica : ∀ e ∈ ring.rbtree.toList, ring.servers.has e.2 = true ∧
    ∃ i < o.points, e.1 = newReplicaPoint o e.2 i
  covered : ∀ s, ring.servers.has s = true → ∀ i < o.points,
    ∃ e ∈ ring.rbtree.toList, comparator e.1 (newReplicaPoint o s i) = 0
  plain : ∀ s, ring.servers.has s = true → s ∉ objectPrototype

theorem consistent_new : Consistent o .new where
  replica e he := by simp [new] at he
  covered s hs := by simp [new] at hs
  plain s hs := by simp [new] at hs

theorem hasServer_eq {ring : HashRing} {s : Str} (plain : s ∉ objectPrototype) :
    ring.hasServer s = ring.servers.has s := by
  simp [hasServer, truthy, plain]

theorem Consistent.addServerReplicas {ring : HashRing} (c : Consistent o ring) {s : Str}
    (plain : s ∉ objectPrototype) : Consistent o (addServerReplicas o ring s) where
  replica e he := by
    rcases mem_insertReplicas he with he | ⟨i, hi, rfl⟩
    · obtain ⟨own, i, hi, key⟩ := c.replica e he
      exact ⟨by simp [HashRing.addServerReplicas, own], i, hi, key⟩
    · exact ⟨by simp [HashRing.addServerReplicas], i, List.mem_range.mp hi, rfl⟩
  covered t ht i hi := by
    simp only [HashRing.addServerReplicas, Dict.has_set, Bool.or_eq_true, decide_eq_true_eq] at ht
    rcases ht with rfl | ht
    · exact insertReplicas_covers (List.mem_range.mpr hi)
    · obtain ⟨e, he, hk⟩ := c.covered t ht i hi
      exact ⟨e, insertReplicas_keeps _ he, hk⟩
  plain t ht := by
    simp only [HashRing.addServerReplicas, Dict.has_set, Bool.or_eq_true, decide_eq_true_eq] at ht
    rcases ht with rfl | ht
    · exact plain
    · exact c.plain t ht

theorem Consistent.removeServerReplicas {ring : HashRing} (c : Consistent o ring) (s : Str) :
    Consistent o (removeServerReplicas o ring s) where
  replica e he := by
    obtain ⟨he, gone⟩ := mem_removeReplicas.mp he
    obtain ⟨own, i, hi, key⟩ := c.replica e he
    have other : e.2 ≠ s := by
      rintro rfl
      exact gone i (List.mem_range.mpr hi) (key ▸ cmp_self _)
    exact ⟨by simp [HashRing.removeServerReplicas, own, other], i, hi, key⟩
  covered t ht i hi := by
    simp only [HashRing.removeServerReplicas, Dict.has_delete, Bool.and_eq_true,
      Bool.not_eq_true', decide_eq_false_iff_not] at ht
    obtain ⟨e, he, hk⟩ := c.covered t ht.2 i hi
    obtain ⟨-, j, -, key⟩ := c.replica e he
    refine ⟨e, mem_removeReplicas.mpr ⟨he, fun k _ hz => ?_⟩, hk⟩
    rw [key, zero_replica] at hz hk
    exact ht.1 (hk.2.symm.trans hz.2.symm)
  plain t ht := by
    simp only [HashRing.removeServerReplicas, Dict.has_delete, Bool.and_eq_true] at ht
    exact c.plain t ht.2

/-- Hash and server of every node, in the order of the tree. -/
def points (ring : HashRing) : List (ℤ × Str) :=
  ring.rbtree.toList.map fun e => (e.1.hash, e.2)

def pointBefore (a b : ℤ × Str) : Prop := a.1 < b.1 ∨ a.1 = b.1 ∧ a.2 < b.2

instance : Std.Irrefl pointBefore where
  irrefl a := by simp [pointBefore]

instance : Std.Antisymm pointBefore where
  antisymm a b hab hba := by
    exfalso
    rcases hab with h | ⟨h, g⟩ <;> rcases hba with h' | ⟨h', g'⟩
    · omega
    · omega
    · omega
    · exact lt_asymm g g'

variable {ring : HashRing}

theorem Consistent.address (c : Consistent o ring) {e : Entry} (he : e ∈ ring.rbtree.toList) :
    e.1.address = some e.2 := by
  obtain ⟨-, i, -, key⟩ := c.replica e he
  rw [key, newReplicaPoint]

theorem Consistent.pairwise_points (c : Consistent o ring) : ring.points.Pairwise pointBefore := by
  refine List.pairwise_map.mpr (ring.rbtree.ascending.imp_of_mem fun ha hb less => ?_)
  simpa only [pointBefore, c.address ha, c.address hb, Option.getD_some] using
    comparator_neg.mp less

theorem Consistent.mem_points (c : Consistent o ring) {h : ℤ} {s : Str} :
    (h, s) ∈ ring.points ↔ ring.servers.has s = true ∧
      ∃ i < o.points, h = o.hashFunc (s ++ natString i) := by
  simp only [points, List.mem_map, Prod.mk.injEq]
  constructor
  · rintro ⟨e, he, rfl, rfl⟩
    obtain ⟨own, i, hi, key⟩ := c.replica e he
    exact ⟨own, i, hi, by rw [key, newReplicaPoint]⟩
  · rintro ⟨own, i, hi, rfl⟩
    obtain ⟨e, he, hk⟩ := c.covered s own i hi
    obtain ⟨-, j, -, key⟩ := c.replica e he
    rw [key, zero_replica] at hk
    exact ⟨e, he, by rw [key, newReplicaPoint, hk.1], hk.2⟩

theorem Consistent.points_eq {other : HashRing} (c : Consistent o ring) (c' : Consistent o other)
    (same : ∀ s, ring.servers.has s = other.servers.has s) : ring.points = other.points :=
  c.pairwise_points.eq_of_mem_iff c'.pairwise_points fun ⟨h, s⟩ => by
    rw [c.mem_points, c'.mem_points, same]

/-- Two rings that differ in one server differ in its points only. -/
theorem Consistent.points_restrict {other : HashRing} (c : Consistent o ring)
    (c' : Consistent o other) (x : Str)
    (same : ∀ s, other.servers.has s = (!decide (s = x) && ring.servers.has s)) :
    other.points = restrict (· ≠ x) ring.points := by
  refine c'.pairwise_points.eq_of_mem_iff (c.pairwise_points.filter _) fun ⟨h, s⟩ => ?_
  rw [c'.mem_points, same, restrict, List.mem_filter, c.mem_points]
  by_cases equal : s = x <;> simp [equal]

theorem comparator_search {a : ReplicaPoint} {h : ℤ} :
    comparator a ⟨h, none, none⟩ < 0 ↔ a.hash < h := by
  rw [comparator_neg, Option.getD_none]
  simp

theorem notBelow_values (ring : HashRing) (h : ℤ) :
    (notBelow comparator ⟨h, none, none⟩ ring.rbtree.toList).map Prod.snd =
      (ring.points.filter (h ≤ ·.1)).map Prod.snd := by
  rw [notBelow, points, List.filter_map, List.map_map]
  congr 1
  refine List.filter_congr fun e _ => ?_
  rw [Function.comp_apply, decide_eq_decide, ← not_lt, comparator_search, not_lt]

theorem below_values (ring : HashRing) (h : ℤ) :
    (ring.rbtree.toList.filter fun e => comparator e.1 ⟨h, none, none⟩ < 0).map Prod.snd =
      (ring.points.filter (·.1 < h)).map Prod.snd := by
  rw [points, List.filter_map, List.map_map]
  congr 1
  refine List.filter_congr fun e _ => ?_
  rw [Function.comp_apply, decide_eq_decide, comparator_search]

theorem filter_points_lt (h : ℤ) (nothing : ring.points.filter (h ≤ ·.1) = []) :
    ring.points.filter (·.1 < h) = ring.points := by
  refine List.filter_eq_self.mpr fun e he => ?_
  have below := List.filter_eq_nil_iff.mp nothing e he
  simpa using below

/-- `lookup` gives the owner of the key's position. -/
theorem lookup_eq (ring : HashRing) (key : Str) :
    ring.lookup o key = owner (o.hashFunc key) ring.points := by
  have yields := ring.rbtree.upperBound_yields (searchPoint o key)
  have values := ring.notBelow_values (o.hashFunc key)
  rw [lookup, yields.value, owner, clockwise, List.map_append, ← values, ← List.head?_map]
  simp only [searchPoint]
  cases found : (notBelow comparator ⟨o.hashFunc key, none, none⟩ ring.rbtree.toList).map
      Prod.snd with
  | cons res rest => rfl
  | nil =>
    have nothing : ring.points.filter (o.hashFunc key ≤ ·.1) = [] :=
      List.map_eq_nil_iff.mp (values ▸ found)
    rw [filter_points_lt _ nothing, List.nil_append, points, List.map_map, value_min]
    simp [RBTree.toList, Function.comp_def]

end HashRing
end Ringpop.Ring
