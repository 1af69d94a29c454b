import Ringpop.RingPreference

/-! Routing over whole histories of a ring: it depends on the set of servers only,
and a change of one server moves only the keys of that server. -/
namespace Ringpop.Ring
open JsString Dictionary RedBlackTree OrderedEntries Clockwise
namespace HashRing

variable {o : Options} {ring : HashRing}

theorem Consistent.of_eq {other : HashRing} (c : Consistent o ring)
    (tree : other.rbtree = ring.rbtree) (servers : other.servers = ring.servers) :
    Consistent o other where
  replica := by rw [tree, servers]; exact c.replica
  covered := by rw [tree, servers]; exact c.covered
  plain := by rw [servers]; exact c.plain

theorem not_hasServer {s : Str} (h : ring.hasServer s = false) :
    ring.servers.has s = false ∧ s ∉ objectPrototype := by
  simpa [hasServer, truthy] using h

theorem Consistent.addMissing {state : HashRing × Bool} (c : Consistent o state.1) (s : Str) :
    Consistent o (addMissing o state s).1 := by
  unfold HashRing.addMissing
  split
  case isTrue missing => exact c.addServerReplicas (not_hasServer (by simpa using missing)).2
  case isFalse => exact c

theorem Consistent.removePresent {state : HashRing × Bool} (c : Consistent o state.1) (s : Str) :
    Consistent o (removePresent o state s).1 := by
  unfold HashRing.removePresent
  split
  · exact c.removeServerReplicas s
  · exact c

theorem addMissing_unchanged {state : HashRing × Bool} {s : Str}
    (h : (addMissing o state s).2 = false) : addMissing o state s = state := by
  unfold addMissing at h ⊢
  split at h
  case isTrue => cases h
  case isFalse skipped => exact if_neg skipped

theorem removePresent_unchanged {state : HashRing × Bool} {s : Str}
    (h : (removePresent o state s).2 = false) : removePresent o state s = state := by
  unfold removePresent at h ⊢
  split at h
  case isTrue => cases h
  case isFalse skipped => exact if_neg skipped

theorem has_addMissing (o : Options) (state : HashRing × Bool) {s : Str}
    (plain : s ∉ objectPrototype) (t : Str) :
    (addMissing o state s).1.servers.has t = (state.1.servers.has t || decide (t = s)) := by
  unfold addMissing
  split
  case isTrue => simp [addServerReplicas, Bool.or_comm]
  case isFalse present =>
    rw [hasServer_eq plain, Bool.not_eq_true', Bool.not_eq_false] at present
    by_cases same : t = s <;> simp [same, present]

theorem has_removePresent (o : Options) (state : HashRing × Bool) {s : Str}
    (plain : s ∉ objectPrototype) (t : Str) :
    (removePresent o state s).1.servers.has t = (state.1.servers.has t && !decide (t = s)) := by
  unfold removePresent
  split
  case isTrue => simp [removeServerReplicas, Bool.and_comm]
  case isFalse missing =>
    rw [hasServer_eq plain, Bool.not_eq_true] at missing
    by_cases same : t = s <;> simp [same, missing]

theorem has_foldl_addMissing (o : Options) (state : HashRing × Bool) {names : List Str}
    (plain : ∀ s ∈ names, s ∉ objectPrototype) (t : Str) :
    (names.foldl (addMissing o) state).1.servers.has t =
      (state.1.servers.has t || decide (t ∈ names)) := by
  induction names generalizing state with
  | nil => simp
  | cons s names ih =>
    obtain ⟨first, rest⟩ := List.forall_mem_cons.mp plain
    rw [List.foldl_cons, ih _ rest, has_addMissing o state first, Bool.or_assoc, ← Bool.decide_or]
    simp only [List.mem_cons]

theorem has_foldl_removePresent (o : Options) (state : HashRing × Bool) {names : List Str}
    (plain : ∀ s ∈ names, s ∉ objectPrototype) (t : Str) :
    (names.foldl (removePresent o) state).1.servers.has t =
      (state.1.servers.has t && !decide (t ∈ names)) := by
  induction names generalizing state with
  | nil => simp
  | cons s names ih =>
    obtain ⟨first, rest⟩ := List.forall_mem_cons.mp plain
    rw [List.foldl_cons, ih _ rest, has_removePresent o state first, Bool.and_assoc, ← Bool.not_or,
      ← Bool.decide_or]
    simp only [List.mem_cons]

/-- All additions are made before the removals. -/
theorem has_addRemoveServers (o : Options) (ring : HashRing)
    {serversToAdd serversToRemove : List Str} (plainAdd : ∀ s ∈ serversToAdd, s ∉ objectPrototype)
    (plainRemove : ∀ s ∈ serversToRemove, s ∉ objectPrototype) (t : Str) :
    (ring.addRemoveServers o serversToAdd serversToRemove).1.servers.has t =
      ((ring.servers.has t || decide (t ∈ serversToAdd)) && !decide (t ∈ serversToRemove)) := by
  have folded := has_foldl_removePresent o
    ((serversToAdd.foldl (addMissing o) (ring, false)).1, false) plainRemove t
  rw [has_foldl_addMissing o (ring, false) plainAdd] at folded
  rw [← folded, addRemoveServers]
  simp only
  split <;> rfl

/-- A flag that only unchanged states leave unset is unset on unchanged states only. -/
theorem foldl_unchanged {step : HashRing × Bool → Str → HashRing × Bool}
    (quiet : ∀ state s, (step state s).2 = false → step state s = state) (names : List Str)
    (state : HashRing × Bool) (h : (names.foldl step state).2 = false) :
    names.foldl step state = state := by
  induction names generalizing state with
  | nil => rfl
  | cons s names ih =>
    rw [List.foldl_cons] at h ⊢
    have same := ih _ h
    rw [same] at h ⊢
    exact quiet state s h

/-- What every call keeps: a consistent tree, and a checksum as new as the servers. -/
structure Driven (o : Options) (state : HashRing × List RingEvent) : Prop where
  consistent : Consistent o state.1
  published : state.2 ≠ [] → state.1.checksum = some (o.hashFunc state.1.serverNameStr)

theorem published_of_append {events : List RingEvent} {result : HashRing × List RingEvent}
    (old : events ≠ [] → ring.checksum = some (o.hashFunc ring.serverNameStr))
    (step : result = (ring, []) ∨ result.1.checksum = some (o.hashFunc result.1.serverNameStr))
    (acted : events ++ result.2 ≠ []) :
    result.1.checksum = some (o.hashFunc result.1.serverNameStr) := by
  rcases step with rfl | fresh
  · exact old (by simpa using acted)
  · exact fresh

theorem apply_spec (c : Consistent o ring) (op : Op) :
    Consistent o (op.apply o ring).1 ∧
      (op.apply o ring = (ring, []) ∨
        (op.apply o ring).1.checksum = some (o.hashFunc (op.apply o ring).1.serverNameStr)) := by
  cases op with
  | addServer name =>
    simp only [Op.apply, addServer]
    split
    case isTrue => exact ⟨c, Or.inl rfl⟩
    case isFalse missing =>
      have plain := (not_hasServer (by simpa using missing)).2
      exact ⟨(c.addServerReplicas plain).of_eq rfl rfl, Or.inr rfl⟩
  | removeServer name =>
    simp only [Op.apply, removeServer]
    split
    case isTrue => exact ⟨c, Or.inl rfl⟩
    case isFalse => exact ⟨(c.removeServerReplicas name).of_eq rfl rfl, Or.inr rfl⟩
  | addRemoveServers serversToAdd serversToRemove =>
    simp only [Op.apply, addRemoveServers]
    have added : Consistent o (serversToAdd.foldl (addMissing o) (ring, false)).1 :=
      List.foldlRecOn (motive := fun state : HashRing × Bool => Consistent o state.1) serversToAdd
        _ c fun _ h s _ => h.addMissing s
    have removed : Consistent o (serversToRemove.foldl (removePresent o)
        ((serversToAdd.foldl (addMissing o) (ring, false)).1, false)).1 :=
      List.foldlRecOn (motive := fun state : HashRing × Bool => Consistent o state.1)
        serversToRemove _ added fun _ h s _ => h.removePresent s
    split
    case isTrue => exact ⟨removed.of_eq rfl rfl, Or.inr rfl⟩
    case isFalse idle =>
      simp only [Bool.or_eq_true, not_or, Bool.not_eq_true] at idle
      refine ⟨removed, Or.inl ?_⟩
      rw [foldl_unchanged (fun _ _ => removePresent_unchanged) _ _ idle.2,
        foldl_unchanged (fun _ _ => addMissing_unchanged) _ _ idle.1]

theorem Driven.step {state : HashRing × List RingEvent} (d : Driven o state) (op : Op) :
    Driven o (Ring.step o state op) := by
  obtain ⟨consistent, effect⟩ := apply_spec d.consistent op
  exact ⟨consistent, published_of_append d.published effect⟩

theorem driven_run (o : Options) (ops : List Op) : Driven o (run o ops) :=
  List.foldlRecOn (motive := Driven o) ops _ ⟨consistent_new, fun h => absurd rfl h⟩
    fun _ d op _ => d.step op

theorem consistent_run (o : Options) (ops : List Op) : Consistent o (run o ops).1 :=
  (driven_run o ops).consistent

/-- The nodes of the tree are the replica points of the servers, each of them once. -/
structure HoldsReplicas (o : Options) (ring : HashRing) : Prop where
  exact : ∀ h s, (∃ e ∈ ring.rbtree.toList, e.1.hash = h ∧ e.1.address = some s) ↔
    ring.servers.has s = true ∧ ∃ i < o.points, h = o.hashFunc (s ++ natString i)
  once : (ring.rbtree.toList.map fun e => (e.1.hash, e.1.address)).Nodup
  value : ∀ e ∈ ring.rbtree.toList, e.1.address = some e.2

theorem Consistent.holdsReplicas (c : Consistent o ring) : HoldsReplicas o ring where
  exact h s := by
    rw [← c.mem_points, points, List.mem_map]
    constructor
    · rintro ⟨e, he, rfl, address⟩
      have value := c.address he
      rw [address, Option.some.injEq] at value
      exact ⟨e, he, by rw [value]⟩
    · rintro ⟨e, he, same⟩
      obtain ⟨rfl, rfl⟩ := Prod.mk.inj same
      exact ⟨e, he, rfl, c.address he⟩
  once := by
    refine List.pairwise_map.mpr (ring.rbtree.ascending.imp fun {a b} less => ?_)
    intro same
    obtain ⟨hash, address⟩ := Prod.mk.inj same
    rcases comparator_neg.mp less with h | ⟨-, h⟩
    · omega
    · rw [address] at h
      exact lt_irrefl _ h
  value e he := c.address he

theorem serverNameStr_eq {other : HashRing}
    (same : ∀ s, ring.servers.has s = other.servers.has s) :
    ring.serverNameStr = other.serverNameStr := by
  rw [serverNameStr, serverNameStr, sort_eq_of_perm (Dict.keys_perm same)]

/-- The servers decide where keys go. -/
theorem Consistent.routes_alike (c : Consistent o ring) {other : HashRing}
    (c' : Consistent o other) (same : ∀ s, ring.servers.has s = other.servers.has s) :
    (∀ key, ring.lookup o key = other.lookup o key) ∧
      ∀ key n, ∃ result, ring.lookupN o key n = some result ∧
        other.lookupN o key n = some result := by
  have points := c.points_eq c' same
  have count : ring.getServerCount = other.getServerCount := (Dict.keys_perm same).length_eq
  refine ⟨fun key => ?_, fun key n => ⟨_, c.lookupN_walk key n, ?_⟩⟩
  · rw [lookup_eq, lookup_eq, points]
  · rw [c'.lookupN_walk, points, count]

/-- Two histories with the same servers route alike. -/
theorem run_routing (o : Options) (ops₁ ops₂ : List Op)
    (same : ∀ s, (run o ops₁).1.servers.has s = (run o ops₂).1.servers.has s) :
    (∀ key, (run o ops₁).1.lookup o key = (run o ops₂).1.lookup o key) ∧
    (∀ key n, ∃ result, (run o ops₁).1.lookupN o key n = some result ∧
      (run o ops₂).1.lookupN o key n = some result) ∧
    HoldsReplicas o (run o ops₁).1 ∧ HoldsReplicas o (run o ops₂).1 ∧
    ((run o ops₁).2 ≠ [] → (run o ops₂).2 ≠ [] →
      (run o ops₁).1.checksum = (run o ops₂).1.checksum) := by
  have c₁ := consistent_run o ops₁
  have c₂ := consistent_run o ops₂
  obtain ⟨one, several⟩ := c₁.routes_alike c₂ same
  refine ⟨one, several, c₁.holdsReplicas, c₂.holdsReplicas, fun e₁ e₂ => ?_⟩
  rw [(driven_run o ops₁).published e₁, (driven_run o ops₂).published e₂, serverNameStr_eq same]

theorem run_routing_two_servers :
    let o : Options := ⟨2, fun s => s.length⟩
    let ops₁ : List Op := [.addServer (str "h:50"), .addServer (str "h:501")]
    let ops₂ : List Op := [.addRemoveServers [str "h:501", str "h:7", str "h:50"] [str "h:7"]]
    (run o ops₁).1.lookup o (str "k") = (run o ops₂).1.lookup o (str "k") := by
  intro o ops₁ ops₂
  have keys₁ : (run o ops₁).1.servers.keys = [str "h:50", str "h:501"] := by decide
  have keys₂ : (run o ops₂).1.servers.keys = [str "h:501", str "h:50"] := by decide
  refine (run_routing o ops₁ ops₂ fun s => ?_).1 (str "k")
  rw [Bool.eq_iff_iff, ← Dict.mem_keys, ← Dict.mem_keys, keys₁, keys₂]
  simp [or_comm]

/-- Both ways to add one server that is not in the ring. -/
theorem apply_add {x : Str} (absent : ring.hasServer x = false) {op : Op}
    (adds : op = .addServer x ∨ op = .addRemoveServers [x] []) :
    (op.apply o ring).1.rbtree = (addServerReplicas o ring x).rbtree ∧
      (op.apply o ring).1.servers = (addServerReplicas o ring x).servers := by
  rcases adds with rfl | rfl
  · simp [Op.apply, addServer, absent, computeChecksum]
  · simp [Op.apply, addRemoveServers, addMissing, absent, computeChecksum]

theorem apply_add_present {x : Str} (present : ring.hasServer x = true) {op : Op}
    (adds : op = .addServer x ∨ op = .addRemoveServers [x] []) : (op.apply o ring).1 = ring := by
  rcases adds with rfl | rfl
  · simp [Op.apply, addServer, present]
  · simp [Op.apply, addRemoveServers, addMissing, present]

/-- Both ways to remove one server of the ring. -/
theorem apply_remove {x : Str} (present : ring.hasServer x = true) {op : Op}
    (removes : op = .removeServer x ∨ op = .addRemoveServers [] [x]) :
    (op.apply o ring).1.rbtree = (removeServerReplicas o ring x).rbtree ∧
      (op.apply o ring).1.servers = (removeServerReplicas o ring x).servers := by
  rcases removes with rfl | rfl
  · simp [Op.apply, removeServer, present, computeChecksum]
  · simp [Op.apply, addRemoveServers, removePresent, present, computeChecksum]

theorem lookup_after_add (c : Consistent o ring) {x : Str} (absent : ring.servers.has x = false)
    {op : Op} (adds : op = .addServer x ∨ op = .addRemoveServers [x] []) (key : Str) :
    (op.apply o ring).1.lookup o key = ring.lookup o key ∨
      (op.apply o ring).1.lookup o key = some x := by
  cases known : ring.hasServer x with
  | true => exact Or.inl (by rw [apply_add_present known adds])
  | false =>
    obtain ⟨tree, servers⟩ := apply_add (o := o) known adds
    have c' := (c.addServerReplicas (not_hasServer known).2).of_eq tree servers
    have old : ring.points = restrict (· ≠ x) (op.apply o ring).1.points := by
      refine c'.points_restrict c x fun s => ?_
      rw [servers, addServerReplicas, Dict.has_set]
      by_cases equal : s = x <;> simp [equal, absent]
    rw [lookup_eq, lookup_eq, old]
    cases owns : owner (o.hashFunc key) (op.apply o ring).1.points with
    | none =>
      left
      rw [owner, List.head?_eq_none_iff] at owns
      rw [owner, clockwise_restrict, owns, List.filter_nil, List.head?_nil]
    | some a =>
      by_cases equal : a = x
      · exact Or.inr (by rw [equal])
      · exact Or.inl (owner_restrict owns (by simpa using equal)).symm

theorem points_after_remove (c : Consistent o ring) {x : Str} (present : ring.servers.has x = true)
    {op : Op} (removes : op = .removeServer x ∨ op = .addRemoveServers [] [x]) :
    Consistent o (op.apply o ring).1 ∧
      (op.apply o ring).1.points = restrict (· ≠ x) ring.points := by
  have known : ring.hasServer x = true := by rw [hasServer, truthy, present, Bool.true_or]
  obtain ⟨tree, servers⟩ := apply_remove (o := o) known removes
  have c' := (c.removeServerReplicas x).of_eq tree servers
  refine ⟨c', c.points_restrict c' x fun s => ?_⟩
  rw [servers, removeServerReplicas, Dict.has_delete]

/-- A change of one server leaves the keys of all other servers where they are. -/
theorem run_movement (o : Options) (ops : List Op) (x : Str) :
    ((run o ops).1.servers.has x = false →
      ∀ op : Op, op = .addServer x ∨ op = .addRemoveServers [x] [] → ∀ key,
        (op.apply o (run o ops).1).1.lookup o key = (run o ops).1.lookup o key ∨
        (op.apply o (run o ops).1).1.lookup o key = some x) ∧
    ((run o ops).1.servers.has x = true → 2 ≤ (run o ops).1.getServerCount →
      ∀ op : Op, op = .removeServer x ∨ op = .addRemoveServers [] [x] → ∀ key,
        ((run o ops).1.lookup o key ≠ some x →
          (op.apply o (run o ops).1).1.lookup o key = (run o ops).1.lookup o key) ∧
        ∀ n : ℤ, 1 ≤ n → ∃ old new, (run o ops).1.lookupN o key (n + 1) = some old ∧
          (op.apply o (run o ops).1).1.lookupN o key n = some new ∧
          new = (old.filter (· ≠ x)).take n.toNat) := by
  have c := consistent_run o ops
  refine ⟨fun absent op adds key => lookup_after_add c absent adds key,
    fun present _ op removes key => ?_⟩
  obtain ⟨c', points⟩ := points_after_remove c present removes
  refine ⟨fun other => ?_, fun n positive => ?_⟩
  · rw [lookup_eq] at other
    rw [lookup_eq, lookup_eq, points]
    cases owns : owner (o.hashFunc key) (run o ops).1.points with
    | none =>
      rw [owner, List.head?_eq_none_iff] at owns
      rw [owner, clockwise_restrict, owns, List.filter_nil, List.head?_nil]
    | some a => exact owner_restrict owns (by simpa [owns] using other)
  · refine ⟨_, _, c.lookupN_eq key (by omega), c'.lookupN_eq key positive, ?_⟩
    have count : (n + 1).toNat = n.toNat + 1 := by omega
    rw [points, count, preference_restrict]

theorem run_movement_two_servers :
    let o : Options := ⟨2, fun s => s.length⟩
    let ops : List Op := [.addServer (str "a:1"), .addServer (str "bc:2")]
    (Op.apply o (run o ops).1 (.removeServer (str "a:1"))).1.lookup o (str "abcde") =
      (run o ops).1.lookup o (str "abcde") :=
  ((run_movement ⟨2, fun s => s.length⟩ [.addServer (str "a:1"), .addServer (str "bc:2")]
    (str "a:1")).2 (by decide) (by decide) (.removeServer (str "a:1")) (Or.inl rfl)
    (str "abcde")).1 (by decide)

end HashRing
end Ringpop.Ring
