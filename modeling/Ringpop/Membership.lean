import Ringpop.Member
import Ringpop.Dictionary

/-! `lib/membership/index.js` and `merge.js`. Member objects live in a heap, so
`members`, `membersByAddress` and `localMember` hold references to one object as
they do in the source. Events are returned in the order in which they are emitted. -/
namespace Ringpop.Members
open JsString Dictionary GreatestWins

/-- What one pass of the code reads from outside: clock, `uuid.v4` and `Math.random`. -/
structure Tick where
  now : ℤ
  uuid : Str
  random : ℕ
deriving DecidableEq

structure Membership where
  heap : ℕ → Member
  /-- the next unused reference -/
  next : ℕ
  members : List ℕ
  membersByAddress : Dict Address ℕ
  checksum : Option ℤ
  stashedUpdates : Option (List (List Update))
  localMember : Option ℕ

/-- `Object.keys`. -/
def objectKeys {ν : Type} (object : Dict Address ν) : List Address :=
  propertyOrder Address.name object.keys

theorem mem_objectKeys {ν : Type} {object : Dict Address ν} {a : Address} :
    a ∈ objectKeys object ↔ object.has a = true :=
  mem_propertyOrder.trans Dict.mem_keys

theorem nodup_objectKeys {ν : Type} (object : Dict Address ν) : (objectKeys object).Nodup :=
  nodup_propertyOrder object.nodup_keys

/-- One pass of the inner loop of `mergeMembershipChangesets`. -/
def mergeChange (whoami : Address) (mergeIndex : Dict Address Update) (change : Update) :
    Dict Address Update :=
  if change.address = whoami then mergeIndex
  else
    match mergeIndex.get change.address with
    | none => mergeIndex.set change.address change
    | some indexVal =>
      if indexVal.incarnationNumber < change.incarnationNumber then
        mergeIndex.set change.address change
      else mergeIndex

def mergeMembershipChangesets (whoami : Address) (changesets : List (List Update)) :
    List Update :=
  let mergeIndex := changesets.foldl (fun index changes => changes.foldl (mergeChange whoami) index)
    .empty
  (objectKeys mergeIndex).filterMap mergeIndex.get

namespace Membership

def new (env : Env) : Membership where
  -- no object is allocated; the value of an unused reference is arbitrary
  heap _ := .ofUpdate env ⟨env.whoami, .alive, 0, none, none, none⟩
  next := 0
  members := []
  membersByAddress := .empty
  checksum := none
  stashedUpdates := some []
  localMember := none

def findMemberByAddress (m : Membership) (address : Address) : Option Member :=
  (m.membersByAddress.get address).map m.heap

def localAddress (m : Membership) : Option Address := m.localMember.map fun r => (m.heap r).address

def write (m : Membership) (ref : ℕ) (member : Member) : Membership :=
  { m with heap := Function.update m.heap ref member }

/-- A new object, reachable through `membersByAddress` and at `position` of the array. -/
def insertMember (m : Membership) (position : ℕ) (member : Member) : Membership :=
  { m with
    heap := Function.update m.heap m.next member
    next := m.next + 1
    members := m.members.insertIdx position m.next
    membersByAddress := m.membersByAddress.set member.address m.next }

def checksumEntry (member : Member) : Str :=
  member.address.name ++ member.status.name ++ intString member.incarnationNumber ++ str ";"

def generateChecksumString (m : Membership) : Str :=
  let sortedMembers := (m.members.map m.heap).insertionSort fun a b => a.address ≤ b.address
  -- tombstones are left out, so that a full sync cannot bring them back
  let listed := sortedMembers.filter fun member => member.status ≠ .tombstone
  (listed.flatMap checksumEntry).dropLast

variable (env : Env)

def computeChecksum (m : Membership) : Membership × List MembershipEvent :=
  let checksum := env.hashFunc m.generateChecksumString
  ({ m with checksum := some checksum }, [.checksumComputed checksum m.checksum])

def reincarnate (tick : Tick) (m : Membership) (localMember : ℕ) : Membership × Update :=
  let m := m.write localMember { m.heap localMember with incarnationNumber := tick.now }
  (m, .new tick.uuid (m.heap localMember) (some (m.heap localMember)))

def getJoinPosition (tick : Tick) (m : Membership) : ℕ :=
  if m.members.length = 0 then 0 else tick.random % m.members.length

def postLocalUpdate (m : Membership) (update : Update) : Membership × List MembershipEvent :=
  let (m, events) := computeChecksum env m
  (m, events ++ [.updated [update]])

def setLocalStatus (tick : Tick) (m : Membership) (status : Status) :
    Membership × List MembershipEvent :=
  match m.localMember with
  | some ref =>
    let leaving := if status = .leave then [.localMemberLeave (m.heap ref).status] else []
    let m := m.write ref { m.heap ref with status := status }
    let (m, update) := reincarnate tick m ref
    let (m, events) := postLocalUpdate env m update
    (m, leaving ++ events)
  | none =>
    let ref := m.next
    let member := Member.ofUpdate env ⟨env.whoami, status, tick.now, some tick.uuid, none, none⟩
    let m := { m.insertMember m.members.length member with localMember := some ref }
    let (m, update) := reincarnate tick m ref
    postLocalUpdate env m update

def makeLocalAlive (tick : Tick) (m : Membership) : Membership × List MembershipEvent :=
  setLocalStatus env tick m .alive

/-- One pass of the loop of `update`, with the change that is pushed to `updates`. -/
def processChange (m : Membership) (change : Update) (tick : Tick) :
    Membership × Option Update × List MembershipEvent :=
  if shouldProcessGossip (m.findMemberByAddress change.address) change then
    match m.localMember with
    | some ref =>
      if change.address = (m.heap ref).address then
        let (m, change) := reincarnate tick m ref
        (m, some change, [])
      else applyOther m change tick
    -- `localMember.address` throws here; a node is not ready before it has a local member
    | none => applyOther m change tick
  else (m, none, [])
where
  applyOther (m : Membership) (change : Update) (tick : Tick) :
      Membership × Option Update × List MembershipEvent :=
    match m.membersByAddress.get change.address with
    | none =>
      (m.insertMember (getJoinPosition tick m) (.ofUpdate env change), some change, [])
    | some ref =>
      let (member, events) := (m.heap ref).applyUpdate env tick.now change
      (m.write ref member, some change, events)

def processChanges (m : Membership) :
    List (Update × Tick) → Membership × List Update × List MembershipEvent
  | [] => (m, [], [])
  | (change, tick) :: rest =>
    let (m, applied, events) := processChange env m change tick
    let (m, updates, more) := processChanges m rest
    (m, applied.toList ++ updates, events ++ more)

def update (isReady : Bool) (m : Membership) (changes : List (Update × Tick)) :
    Membership × List Update × List MembershipEvent :=
  if changes.length = 0 then (m, [], [])
  else if !isReady then
    ({ m with stashedUpdates := m.stashedUpdates.map (· ++ [changes.map Prod.fst]) }, [], [])
  else
    let (m, updates, events) := processChanges env m changes
    if updates.length > 0 then
      let (m, computed) := computeChecksum env m
      (m, updates, events ++ computed ++ [.updated updates])
    else (m, updates, events)

/-- `id` is the one that `new Update` draws for the change. -/
def makeChange (isReady : Bool) (m : Membership) (address : Address) (incarnationNumber : ℤ)
    (status : Status) (id : Str) (tick : Tick) :
    Membership × List Update × List MembershipEvent :=
  let source := m.localMember.map m.heap
  let change : Update :=
    { address := address
      status := status
      incarnationNumber := incarnationNumber
      id := some id
      source := source.map Member.address
      sourceIncarnationNumber := source.map Member.incarnationNumber }
  update env isReady m [(change, tick)]

def makeFaulty (isReady : Bool) (m : Membership) (address : Address) (incarnationNumber : ℤ) :=
  makeChange env isReady m address incarnationNumber .faulty

def makeSuspect (isReady : Bool) (m : Membership) (address : Address) (incarnationNumber : ℤ) :=
  makeChange env isReady m address incarnationNumber .suspect

def makeTombstone (isReady : Bool) (m : Membership) (address : Address) (incarnationNumber : ℤ) :=
  makeChange env isReady m address incarnationNumber .tombstone

def removeMember (m : Membership) (address : Address) : Membership × List MembershipEvent :=
  match m.membersByAddress.get address with
  | none => (m, [])
  | some memberToDelete =>
    computeChecksum env { m with
      membersByAddress := m.membersByAddress.delete address
      members := m.members.filter (· ≠ memberToDelete) }

def evict (m : Membership) (address : Address) : Membership × List MembershipEvent :=
  if m.localAddress = some address then (m, []) else removeMember env m address

/-- The loop of `set`; no member is created as a tombstone. -/
def createMember (m : Membership) (update : Update) : Membership :=
  if update.status = .tombstone then m
  else m.insertMember m.members.length (.ofUpdate env update)

def set (isReady : Bool) (m : Membership) : Membership × List MembershipEvent :=
  if isReady then (m, [])
  else
    match m.stashedUpdates with
    | none | some [] => (m, [])
    | some stashedUpdates =>
      let updates := mergeMembershipChangesets env.whoami stashedUpdates
      let m := { updates.foldl (createMember env) m with stashedUpdates := none }
      let (m, events) := computeChecksum env m
      (m, events ++ [.set updates])

/-- `Dissemination.membershipAsChanges`. -/
def membershipAsChanges (m : Membership) : List Update :=
  m.members.map fun ref =>
    { address := (m.heap ref).address
      status := (m.heap ref).status
      incarnationNumber := (m.heap ref).incarnationNumber
      id := none
      source := some env.whoami
      sourceIncarnationNumber := none }

end Membership
end Ringpop.Members
