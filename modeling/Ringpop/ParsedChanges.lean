import Ringpop.Member
import Mathlib.Data.Rat.Defs

/-! Parsed bodies, and the changes in them as `Membership.update` takes them: an element need
not describe a member, and a body need not hold a list. -/
namespace Ringpop.Members
open JsString

/-- A parsed JSON value; no object has a key twice. -/
inductive Json where
  | null
  | bool (value : Bool)
  | number (value : ℚ)
  | string (value : Str)
  | array (elements : List Json)
  | object (entries : List (Str × Json))

namespace Json

/-- Properties that are missing are undefined. -/
def field (name : Str) : Option Json → Option Json
  | some (object entries) => (entries.find? fun entry => entry.1 = name).map Prod.snd
  | _ => none

def truthy : Option Json → Bool
  | none | some null => false
  | some (bool value) => value
  | some (number value) => value ≠ 0
  | some (string value) => value ≠ []
  | some (array _) | some (object _) => true

def isFalse : Option Json → Bool
  | some (bool false) => true
  | _ => false

def isString (expected : Str) : Option Json → Bool
  | some (string value) => value = expected
  | _ => false

theorem truthy_of_isString {expected : Str} (nonempty : expected ≠ []) {value : Option Json}
    (h : isString expected value = true) : truthy value = true := by
  unfold isString at h
  split at h
  · simp only [decide_eq_true_eq] at h
    simpa [truthy, h] using nonempty
  · cases h

theorem truthy_of_isFalse {value : Option Json} (h : isFalse value = true) :
    truthy value = false := by
  unfold isFalse at h
  split at h
  · rfl
  · cases h

def asText : Option Json → Option Str
  | some (string value) => some value
  | _ => none

def asInteger : Option Json → Option ℤ
  | some (number value) => if value.den = 1 then some value.num else none
  | _ => none

def asAddress (value : Option Json) : Option Address :=
  (asText value).bind fun name =>
    if own : objectPrototype.contains name = false then some ⟨name, by simpa using own⟩ else none

def asStatus (value : Option Json) : Option Status :=
  (asText value).bind fun name =>
    [Status.alive, .faulty, .leave, .suspect, .tombstone].find? fun status => status.name = name

/-- A property that need not be there. -/
def optional {α : Type} (read : Option Json → Option α) : Option Json → Option (Option α)
  | none => some none
  | value => (read value).map some

/-- The member that an object describes. One with a damp score of its own is left out. -/
def asUpdate (value : Json) : Option Update := do
  let property (name : String) := field (str name) (some value)
  let address ← asAddress (property "address")
  let status ← asStatus (property "status")
  let incarnationNumber ← asInteger (property "incarnationNumber")
  let id ← optional asText (property "id")
  let source ← optional asAddress (property "source")
  let sourceIncarnationNumber ← optional asInteger (property "sourceIncarnationNumber")
  if (property "dampScore").isSome then none
  else some ⟨address, status, incarnationNumber, id, source, sourceIncarnationNumber⟩

end Json

/-- An element of `changes`. The address of one that is `null` or missing cannot be read; a
boolean, number or string has none; an object may not describe a member. -/
inductive Change where
  | missing
  | value (value : Json)
  | member (u : Update)
  | other (value : Json)

namespace Change

def isMissing : Change → Bool
  | missing => true
  | _ => false

def isOther : Change → Bool
  | other _ => true
  | _ => false

def update : Change → Option Update
  | member u => some u
  | _ => none

end Change

def Json.asChange : Json → Change
  | .null => .missing
  | .object entries =>
    match Json.asUpdate (.object entries) with
    | some u => .member u
    | none => .other (.object entries)
  | .array elements => .other (.array elements)
  | value => .value value

/-- A value that is no list stands for one change. -/
def Json.asChanges : Option Json → List Change
  | none => [.missing]
  | some (.array elements) => elements.map Json.asChange
  | some value => [value.asChange]

/-- The key of a member that has no address. -/
def undefinedAddress : Address := .of "undefined" (by decide)

/-- What `Membership.update` meets at a ready node: whether a member is listed under the key
`undefined`, whether all entries describe members, and what it does with objects that describe
none, or when such are listed. -/
structure ListedMembers where
  undefinedListed : Bool
  regular : Bool
  otherwise : Bool

namespace ListedMembers

/-- A value becomes a member under `undefined`, unless there is one, and then `recordChange`
cannot set its `piggybackCount`. -/
def records : Bool → List Change → Bool
  | _, [] => true
  | undefinedListed, .value _ :: changes => undefinedListed && records undefinedListed changes
  | undefinedListed, .member u :: changes =>
    records (undefinedListed || u.address = undefinedAddress && u.status ≠ .tombstone) changes
  | undefinedListed, _ :: changes => records undefinedListed changes

/-- `Membership.update` returns, and does not throw. -/
def returns (l : ListedMembers) (changes : List Change) : Bool :=
  if changes.any Change.isMissing then false
  else if changes.isEmpty then true
  else if l.regular && !changes.any Change.isOther then records l.undefinedListed changes
  else l.otherwise

theorem records_members (undefinedListed : Bool) (updates : List Update) :
    records undefinedListed (updates.map Change.member) = true := by
  induction updates generalizing undefinedListed with
  | nil => rfl
  | cons u updates ih => exact ih _

/-- Changes that describe members do no harm to a list of members. -/
theorem returns_members {l : ListedMembers} (regular : l.regular = true) (updates : List Update) :
    l.returns (updates.map Change.member) = true := by
  have present : (updates.map Change.member).any Change.isMissing = false := by
    simp [Change.isMissing]
  have described : (updates.map Change.member).any Change.isOther = false := by
    simp [Change.isOther]
  rw [returns, present, described, regular]
  simp only [Bool.false_eq_true, if_false, Bool.not_false, Bool.and_self, if_true,
    records_members, ite_self]

theorem returns_missing {l : ListedMembers} {changes : List Change}
    (missing : Change.missing ∈ changes) : l.returns changes = false := by
  rw [returns, if_pos (List.any_eq_true.mpr ⟨_, missing, rfl⟩)]

end ListedMembers
end Ringpop.Members
