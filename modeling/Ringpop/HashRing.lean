import Ringpop.TreeIterator
import Ringpop.Dictionary
import Ringpop.JsString

/-! `lib/ring/index.js`: replica points of the servers in a red-black tree. The
hash function is a parameter, so collisions of any kind are allowed. -/
namespace Ringpop.Ring
open JsString Dictionary RedBlackTree OrderedEntries

/-- The key of a node. A search has no address and no index. -/
structure ReplicaPoint where
  hash : ℤ
  address : Option Str
  index : Option ℕ
deriving DecidableEq, Repr

def comparator (a b : ReplicaPoint) : ℤ :=
  let result := a.hash - b.hash
  if result ≠ 0 then result
  else
    let addressA := a.address.getD []
    let addressB := b.address.getD []
    if addressA = addressB then 0 else if addressA > addressB then 1 else -1

theorem comparator_neg {a b : ReplicaPoint} :
    comparator a b < 0 ↔
      a.hash < b.hash ∨ a.hash = b.hash ∧ a.address.getD [] < b.address.getD [] := by
  simp only [comparator]
  split
  case isTrue differs => omega
  case isFalse same =>
    have hash : a.hash = b.hash := by omega
    simp only [hash, lt_irrefl, true_and, false_or]
    rcases lt_trichotomy (a.address.getD []) (b.address.getD []) with h | h | h
    · simp [h, h.ne, h.not_gt]
    · simp [h]
    · simp [h, h.ne', h.not_gt]

theorem comparator_zero {a b : ReplicaPoint} :
    comparator a b = 0 ↔ a.hash = b.hash ∧ a.address.getD [] = b.address.getD [] := by
  simp only [comparator]
  split
  case isTrue differs => omega
  case isFalse same =>
    have hash : a.hash = b.hash := by omega
    simp only [hash, true_and]
    split
    case isTrue equal => simp [equal]
    case isFalse unequal => split <;> simp [unequal]

theorem comparator_pos {a b : ReplicaPoint} :
    0 < comparator a b ↔
      b.hash < a.hash ∨ b.hash = a.hash ∧ b.address.getD [] < a.address.getD [] := by
  have neg := comparator_neg (a := a) (b := b)
  have zero := comparator_zero (a := a) (b := b)
  rcases lt_trichotomy a.hash b.hash with h | h | h
  · have := neg.mpr (Or.inl h)
    constructor
    · omega
    · rintro (h' | ⟨h', -⟩) <;> omega
  · rcases lt_trichotomy (a.address.getD []) (b.address.getD []) with g | g | g
    · have := neg.mpr (Or.inr ⟨h, g⟩)
      simp only [h, lt_irrefl, true_and, false_or, g.not_gt, iff_false]
      omega
    · have := zero.mpr ⟨h, g⟩
      simp [h, g, this]
    · simp only [h, lt_irrefl, true_and, false_or, g.not_gt, g.ne', iff_false] at neg zero ⊢
      simp only [g, iff_true]
      omega
  · simp only [h, h.not_gt, h.ne', false_or, false_and, true_or, iff_true, iff_false] at neg zero ⊢
    omega

instance : LawfulComparator comparator where
  neg_iff a b := by rw [comparator_neg, comparator_pos]
  trans a b c := by
    intro hab hbc
    by_contra hac
    have hca := comparator_pos.mp (not_le.mp hac)
    have hab' := mt comparator_pos.mpr hab.not_gt
    have hbc' := mt comparator_pos.mpr hbc.not_gt
    simp only [not_or, not_and, not_lt] at hab' hbc'
    rcases hca with h | ⟨h, g⟩
    · omega
    · have ha : b.hash = a.hash := by omega
      have hb : c.hash = b.hash := by omega
      exact absurd g (not_lt.mpr ((hab'.2 ha).trans (hbc'.2 hb)))

structure Options where
  replicaPoints : ℕ
  hashFunc : Str → ℤ

/-- `options.replicaPoints || 100`. -/
def Options.points (o : Options) : ℕ := if o.replicaPoints = 0 then 100 else o.replicaPoints

structure HashRing where
  rbtree : RBTree ReplicaPoint Str comparator
  /-- every value is `true` -/
  servers : Dict Str Unit
  checksum : Option ℤ

inductive RingEvent where
  | added (name : Str)
  | removed (name : Str)
  | ringChanged (added removed : List Str)
  | checksumComputed (checksum : ℤ) (oldChecksum : Option ℤ)
deriving DecidableEq, Repr

/-- The truth value of a property of an object with value `true` for every own key. -/
def truthy (object : Dict Str Unit) (name : Str) : Bool :=
  object.has name || decide (name ∈ objectPrototype)

namespace HashRing

def new : HashRing := ⟨.empty, .empty, none⟩

def hasServer (ring : HashRing) (name : Str) : Bool := truthy ring.servers name

def getServerCount (ring : HashRing) : ℕ := ring.servers.keys.length

def serverNameStr (ring : HashRing) : Str := join (str ";") (sort ring.servers.keys)

variable (o : Options)

def computeChecksum (ring : HashRing) : HashRing × List RingEvent :=
  let checksum := o.hashFunc ring.serverNameStr
  ({ ring with checksum := some checksum }, [.checksumComputed checksum ring.checksum])

def newReplicaPoint (address : Str) (replica : ℕ) : ReplicaPoint :=
  ⟨o.hashFunc (address ++ natString replica), some address, some replica⟩

def insertReplica (server : Str) (tree : RBTree ReplicaPoint Str comparator) (i : ℕ) :
    RBTree ReplicaPoint Str comparator :=
  (tree.insert (newReplicaPoint o server i) server).1

def removeReplica (server : Str) (tree : RBTree ReplicaPoint Str comparator) (i : ℕ) :
    RBTree ReplicaPoint Str comparator :=
  (tree.remove (newReplicaPoint o server i)).1

def addServerReplicas (ring : HashRing) (server : Str) : HashRing :=
  { ring with
    servers := ring.servers.set server ()
    rbtree := (List.range o.points).foldl (insertReplica o server) ring.rbtree }

def removeServerReplicas (ring : HashRing) (server : Str) : HashRing :=
  { ring with
    servers := ring.servers.delete server
    rbtree := (List.range o.points).foldl (removeReplica o server) ring.rbtree }

def addServer (ring : HashRing) (name : Str) : HashRing × List RingEvent :=
  if ring.hasServer name then (ring, [])
  else
    let (ring, events) := computeChecksum o (addServerReplicas o ring name)
    (ring, events ++ [.added name])

def removeServer (ring : HashRing) (name : Str) : HashRing × List RingEvent :=
  if !ring.hasServer name then (ring, [])
  else
    let (ring, events) := computeChecksum o (removeServerReplicas o ring name)
    (ring, events ++ [.removed name])

/-- One pass of the first loop of `addRemoveServers`; the flag is `addedServers`. -/
def addMissing (state : HashRing × Bool) (server : Str) : HashRing × Bool :=
  if !state.1.hasServer server then (addServerReplicas o state.1 server, true) else state

/-- One pass of the second loop; the flag is `removedServers`. -/
def removePresent (state : HashRing × Bool) (server : Str) : HashRing × Bool :=
  if state.1.hasServer server then (removeServerReplicas o state.1 server, true) else state

def addRemoveServers (ring : HashRing) (serversToAdd serversToRemove : List Str) :
    HashRing × List RingEvent × Bool :=
  let (ring, addedServers) := serversToAdd.foldl (addMissing o) (ring, false)
  let (ring, removedServers) := serversToRemove.foldl (removePresent o) (ring, false)
  let ringChanged := addedServers || removedServers
  if ringChanged then
    let (ring, events) := computeChecksum o ring
    (ring, events ++ [.ringChanged serversToAdd serversToRemove], ringChanged)
  else (ring, [], ringChanged)

def searchPoint (key : Str) : ReplicaPoint := ⟨o.hashFunc key, none, none⟩

def lookup (ring : HashRing) (key : Str) : Option Str :=
  let iter := ring.rbtree.upperBound (searchPoint o key)
  match iter.value with
  | none => (RedBlackTree.min ring.rbtree.root).value
  | some res => some res

/-- The `do`-`while` loop of `lookupN`; the fuel is the number of passes allowed. -/
def lookupNLoop (root : RingNode ReplicaPoint Str) (n : ℤ) (firstVal : Option ReplicaPoint) :
    ℕ → RBIterator ReplicaPoint Str → List Str → Dict Str Unit → Option (List Str)
  | 0, _, _, _ => none
  | fuel + 1, iter, resultArray, resultSet =>
    let (iter, resultArray, resultSet) :=
      match iter.value with
      -- the end of the tree: wrap around
      | none => (RBIterator.iterator, resultArray, resultSet)
      | some res =>
        if !truthy resultSet res then (iter, resultArray ++ [res], resultSet.set res ())
        else (iter, resultArray, resultSet)
    let iter := iter.next root
    if resultArray.length < n ∧ iter.key ≠ firstVal then
      lookupNLoop root n firstVal fuel iter resultArray resultSet
    else some resultArray

/-- A lap visits every node once and passes the end of the tree at most once. -/
def lookupN (ring : HashRing) (key : Str) (n : ℤ) : Option (List Str) :=
  let serverCount := ring.getServerCount
  let n := if n > serverCount then (serverCount : ℤ) else n
  let iter := ring.rbtree.upperBound (searchPoint o key)
  lookupNLoop ring.rbtree.root n iter.key (ring.rbtree.size + 2) iter [] .empty

end HashRing

inductive Op where
  | addServer (name : Str)
  | removeServer (name : Str)
  | addRemoveServers (serversToAdd serversToRemove : List Str)
deriving DecidableEq, Repr

def Op.apply (o : Options) (ring : HashRing) : Op → HashRing × List RingEvent
  | .addServer name => ring.addServer o name
  | .removeServer name => ring.removeServer o name
  | .addRemoveServers serversToAdd serversToRemove =>
    let (ring, events, _) := ring.addRemoveServers o serversToAdd serversToRemove
    (ring, events)

def step (o : Options) (state : HashRing × List RingEvent) (op : Op) :
    HashRing × List RingEvent :=
  let (ring, events) := op.apply o state.1
  (ring, state.2 ++ events)

/-- A ring after a sequence of calls, and the events it has emitted. -/
def run (o : Options) (ops : List Op) : HashRing × List RingEvent :=
  ops.foldl (step o) (.new, [])

end Ringpop.Ring
