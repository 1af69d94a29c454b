import Ringpop.RingRouting

/-! `lookupN` of a ring with any history: as many servers as are wanted and there, in the
order in which a walk over the replica points meets them. -/
namespace Ringpop.Ring
open JsString Dictionary RedBlackTree OrderedEntries Clockwise
namespace HashRing

variable {o : Options} {ring : HashRing}

/-- A lap meets every server. -/
theorem Consistent.mem_lap (c : Consistent o ring) (h : ℤ) {s : Str} :
    s ∈ clockwise h ring.points ↔ s ∈ ring.servers.keys := by
  rw [mem_clockwise, Dict.mem_keys]
  constructor
  · rintro ⟨⟨h', s⟩, he, rfl⟩
    exact (c.mem_points.mp he).1
  · intro own
    have some : 0 < o.points := by
      rw [Options.points]
      split <;> omega
    exact ⟨(o.hashFunc (s ++ natString 0), s), c.mem_points.mpr ⟨own, 0, some, rfl⟩, rfl⟩

/-- The replica points of the servers, each once, in the order of hash and address. -/
structure ReplicaPoints (o : Options) (ring : HashRing) : Prop where
  sorted : ring.points.Pairwise fun a b => a.1 < b.1 ∨ a.1 = b.1 ∧ a.2 < b.2
  exact : ∀ h s, (h, s) ∈ ring.points ↔
    ring.servers.has s = true ∧ ∃ i < o.points, h = o.hashFunc (s ++ natString i)

/-- `lookupN` is the list of the first different servers from the position of the key. -/
theorem run_lookupN (o : Options) (ops : List Op) (key : Str) (n : ℤ) (positive : 1 ≤ n) :
    let ring := (run o ops).1
    ReplicaPoints o ring ∧
    ∃ result, ring.lookupN o key n = some result ∧
      result = preference n.toNat (o.hashFunc key) ring.points ∧
      result.length = min n.toNat ring.getServerCount ∧ result.Nodup ∧
      result.head? = ring.lookup o key ∧
      ∀ m : ℤ, 1 ≤ m → m ≤ n → ∃ first, ring.lookupN o key m = some first ∧ first <+: result := by
  intro ring
  have c : Consistent o ring := consistent_run o ops
  refine ⟨⟨c.pairwise_points, fun h s => c.mem_points⟩, _, c.lookupN_eq key positive, rfl, ?_,
    nodup_preference _ _ _, ?_, fun m first le => ?_⟩
  · exact length_preference ring.servers.nodup_keys (fun s => c.mem_lap _) n.toNat
  · obtain ⟨k, more⟩ : ∃ k, n.toNat = k + 1 := ⟨n.toNat - 1, by omega⟩
    rw [more, head_preference, lookup_eq]
  · exact ⟨_, c.lookupN_eq key first, preference_prefix (Int.toNat_le_toNat le) _ _⟩

theorem run_lookupN_two_servers :
    let o : Options := ⟨2, fun s => s.length⟩
    let ring := (run o [.addServer (str "h:50"), .addServer (str "h:501")]).1
    ring.getServerCount = 2 ∧ ∃ result, ring.lookupN o (str "k") 3 = some result ∧
      result.length = 2 := by
  intro o ring
  obtain ⟨-, result, found, -, length, -⟩ :=
    run_lookupN o [.addServer (str "h:50"), .addServer (str "h:501")] (str "k") 3 (by decide)
  have count : ring.getServerCount = 2 := by decide
  exact ⟨count, result, found, length.trans (by rw [count]; rfl)⟩

end HashRing
end Ringpop.Ring
