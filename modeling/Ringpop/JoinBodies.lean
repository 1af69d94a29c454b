import Ringpop.Membership
import Ringpop.ParsedChanges

/-! `lib/gossip/join-response-merge.js`: one list of changes from the answers of several hosts,
as nodes send them, and as bodies that may hold anything. -/
namespace Ringpop.Members
open JsString Dictionary

structure JoinResponse where
  checksum : Option ℤ
  members : List Update

/-- The loop of `hasSameChecksums`. -/
def hasSameChecksums : ℤ → List JoinResponse → Bool
  | _, [] => true
  | lastChecksum, response :: rest =>
    match response.checksum with
    | none => false
    | some checksum =>
      if checksum = 0 ∨ lastChecksum ≠ -1 ∧ lastChecksum ≠ checksum then false
      else hasSameChecksums checksum rest

/-- `none` is the `null` of a finished join. -/
def mergeJoinResponses (whoami : Address) : Option (List JoinResponse) → List Update
  | none | some [] => []
  | some (first :: rest) =>
    if hasSameChecksums (-1) (first :: rest) then first.members
    else mergeMembershipChangesets whoami ((first :: rest).map JoinResponse.members)

/-- What a joiner keeps of a body. -/
structure JoinBody where
  checksum : Option Json
  members : Option Json

/-- `===`; two objects of different bodies are not the same. -/
def Json.strictEquals : Json → Json → Bool
  | .null, .null => true
  | .bool a, .bool b => a = b
  | .number a, .number b => a = b
  | .string a, .string b => a = b
  | _, _ => false

namespace Change

/-- The key of `mergeIndex`. -/
def key (change : Change) : Address :=
  match change.update with
  | some u => u.address
  | none => undefinedAddress

def truthy : Change → Bool
  | value v => Json.truthy (some v)
  | _ => true

/-- `<` of the incarnation numbers, false where one is undefined. -/
def isOlder : Change → Change → Bool
  | member u, member v => u.incarnationNumber < v.incarnationNumber
  | _, _ => false

/-- One pass of the inner loop of `mergeMembershipChangesets`. -/
def mergeChange (whoami : Address) (mergeIndex : Dict Address Change) (change : Change) :
    Dict Address Change :=
  if change.update.map Update.address = some whoami then mergeIndex
  else
    match mergeIndex.get change.key with
    | none => mergeIndex.set change.key change
    | some indexVal =>
      if !indexVal.truthy || indexVal.isOlder change then mergeIndex.set change.key change
      else mergeIndex

/-- `none` when it throws. What it comes to with objects that describe no member is left
open. -/
def mergeMembershipChangesets (whoami : Address) (otherwise : Option (List Change))
    (changesets : List (List Change)) : Option (List Change) :=
  let changes := changesets.flatten
  if changes.any isMissing then none
  else if changes.any isOther then otherwise
  else
    let mergeIndex := changes.foldl (mergeChange whoami) .empty
    some ((objectKeys mergeIndex).filterMap mergeIndex.get)

end Change

namespace JoinBody

/-- `members` as a list that is read by its `length`; reading that of `undefined` or `null`
throws, as reading the address of a missing element does. -/
def changeset (body : JoinBody) : List Change :=
  match body.members with
  | none | some .null => [.missing]
  | some (.bool _) | some (.number _) => []
  | some (.string s) => s.map fun c => .value (.string [c])
  | some (.array elements) => elements.map Json.asChange
  | some (.object entries) =>
    if (Json.field (str "length") (some (.object entries))).isNone then []
    else [.other (.object entries)]

/-- The loop of `hasSameChecksums`. -/
def hasSameChecksums : Json → List JoinBody → Bool
  | _, [] => true
  | lastChecksum, response :: rest =>
    match response.checksum with
    | none => false
    | some checksum =>
      if !Json.truthy (some checksum) ||
          (!lastChecksum.strictEquals (.number (-1)) && !lastChecksum.strictEquals checksum) then
        false
      else hasSameChecksums checksum rest

/-- `none` when it throws; a value that is no list is handed on as one change. -/
def mergeJoinResponses (whoami : Address) (otherwise : Option (List Change)) :
    Option (List JoinBody) → Option (List Change)
  | none | some [] => some []
  | some (first :: rest) =>
    if hasSameChecksums (.number (-1)) (first :: rest) then some (Json.asChanges first.members)
    else
      Change.mergeMembershipChangesets whoami otherwise ((first :: rest).map JoinBody.changeset)

/-- A body that a node sends. -/
structure Describes (body : JoinBody) (response : JoinResponse) : Prop where
  checksum : body.checksum = response.checksum.map fun checksum => .number checksum
  members : ∃ elements, body.members = some (.array elements) ∧
    elements.map Json.asChange = response.members.map Change.member

variable {whoami : Address} {otherwise : Option (List Change)} {bodies : List JoinBody}
  {responses : List JoinResponse}

theorem hasSameChecksums_of_describes (described : List.Forall₂ Describes bodies responses)
    (lastChecksum : ℤ) :
    hasSameChecksums (.number lastChecksum) bodies =
      Members.hasSameChecksums lastChecksum responses := by
  induction described generalizing lastChecksum with
  | nil => rfl
  | @cons body response bodies responses first _ ih =>
    rw [hasSameChecksums, Members.hasSameChecksums, first.checksum]
    cases response.checksum with
    | none => rfl
    | some checksum =>
      simp only [Option.map_some, ih checksum]
      have equal (a b : ℤ) : Json.strictEquals (.number a) (.number b) = decide (a = b) := by
        simp [Json.strictEquals]
      have unset : Json.strictEquals (.number lastChecksum) (.number (-1)) =
          decide (lastChecksum = -1) := by
        rw [← equal]
        norm_num
      have present : Json.truthy (some (.number checksum)) = !decide (checksum = 0) := by
        simp [Json.truthy]
      rw [present, unset, equal]
      by_cases zero : checksum = 0 <;> by_cases first : lastChecksum = -1 <;>
        by_cases same : lastChecksum = checksum <;> simp [zero, first, same]

/-- The two indices hold the same changes, by the same age. -/
structure SameIndex (mergeIndex : Dict Address Change) (known : Dict Address Update) : Prop where
  keys : mergeIndex.keys = known.keys
  get : ∀ a, mergeIndex.get a = (known.get a).map Change.member

theorem SameIndex.set {mergeIndex : Dict Address Change} {known : Dict Address Update}
    (same : SameIndex mergeIndex known) (a : Address) (u : Update) :
    SameIndex (mergeIndex.set a (.member u)) (known.set a u) where
  keys := by
    by_cases present : a ∈ known.keys
    · rw [Dict.keys_set_of_mem present, Dict.keys_set_of_mem (same.keys ▸ present), same.keys]
    · rw [Dict.keys_set_of_not_mem present, Dict.keys_set_of_not_mem (same.keys ▸ present),
        same.keys]
  get other := by
    rw [Dict.get_set, Dict.get_set, same.get]
    split <;> rfl

theorem SameIndex.mergeChange {mergeIndex : Dict Address Change} {known : Dict Address Update}
    (same : SameIndex mergeIndex known) (u : Update) :
    SameIndex (Change.mergeChange whoami mergeIndex (.member u))
      (Members.mergeChange whoami known u) := by
  rw [Change.mergeChange, Members.mergeChange]
  simp only [Change.update, Option.map_some, Option.some.injEq]
  split
  case isTrue => exact same
  case isFalse =>
    rw [Change.key, Change.update, same.get]
    cases known.get u.address with
    | none => exact same.set u.address u
    | some indexVal =>
      simp only [Option.map_some, Change.truthy, Change.isOlder, Bool.not_true, Bool.false_or,
        decide_eq_true_eq]
      split
      · exact same.set u.address u
      · exact same

theorem mergeMembershipChangesets_members (changesets : List (List Update)) :
    Change.mergeMembershipChangesets whoami otherwise
        (changesets.map fun changes => changes.map Change.member) =
      some ((Members.mergeMembershipChangesets whoami changesets).map Change.member) := by
  have flat : (changesets.map fun changes => changes.map Change.member).flatten =
      changesets.flatten.map Change.member := List.map_flatten.symm
  have present : (changesets.flatten.map Change.member).any Change.isMissing = false := by
    simp [Change.isMissing]
  have described : (changesets.flatten.map Change.member).any Change.isOther = false := by
    simp [Change.isOther]
  have merged (updates : List Update) {mergeIndex : Dict Address Change}
      {known : Dict Address Update} (same : SameIndex mergeIndex known) :
      SameIndex ((updates.map Change.member).foldl (Change.mergeChange whoami) mergeIndex)
        (updates.foldl (Members.mergeChange whoami) known) := by
    induction updates generalizing mergeIndex known with
    | nil => exact same
    | cons u updates ih => exact ih (same.mergeChange u)
  have none : SameIndex .empty .empty := ⟨rfl, fun _ => rfl⟩
  have same := merged changesets.flatten none
  rw [Change.mergeMembershipChangesets, flat, present, described, Members.mergeMembershipChangesets,
    ← List.foldl_flatten]
  simp only [Bool.false_eq_true, if_false, Option.some.injEq]
  have ordered : objectKeys ((changesets.flatten.map Change.member).foldl
      (Change.mergeChange whoami) .empty) =
      objectKeys (changesets.flatten.foldl (Members.mergeChange whoami) .empty) := by
    rw [objectKeys, objectKeys, same.keys]
  rw [ordered, List.map_filterMap]
  exact List.filterMap_congr fun a _ => same.get a

/-- Bodies that nodes have sent are merged as their answers are. -/
theorem mergeJoinResponses_of_describes (described : List.Forall₂ Describes bodies responses) :
    mergeJoinResponses whoami otherwise (some bodies) =
      some ((Members.mergeJoinResponses whoami (some responses)).map Change.member) := by
  have sums := hasSameChecksums_of_describes described (-1)
  cases described with
  | nil => rfl
  | @cons body response bodies responses first rest =>
    obtain ⟨elements, held, changes⟩ := first.members
    have number : ((-1 : ℤ) : ℚ) = -1 := by norm_num
    rw [number] at sums
    rw [mergeJoinResponses, Members.mergeJoinResponses, sums]
    split
    case isTrue =>
      rw [held]
      exact congrArg some changes
    case isFalse =>
      have changesets : (body :: bodies).map JoinBody.changeset =
          ((response :: responses).map JoinResponse.members).map
            fun changes => changes.map Change.member := by
        rw [List.map_map, ← List.forall₂_eq_eq_eq, List.forall₂_map_left_iff,
          List.forall₂_map_right_iff]
        refine List.Forall₂.imp (fun body response describes => ?_) (.cons first rest)
        obtain ⟨elements, held, changes⟩ := describes.members
        rw [JoinBody.changeset, held]
        exact changes
      rw [changesets]
      exact mergeMembershipChangesets_members _

/-- Where all objects describe members, the merge throws if and only if the checksums differ and
some body has no list or a list with a missing change. -/
theorem mergeJoinResponses_eq_none_iff
    (described : ∀ body ∈ bodies, ∀ change ∈ body.changeset, change.isOther = false) :
    mergeJoinResponses whoami otherwise (some bodies) = none ↔
      hasSameChecksums (.number (-1)) bodies = false ∧
        ∃ body ∈ bodies, Change.missing ∈ body.changeset := by
  cases bodies with
  | nil => simp [mergeJoinResponses, hasSameChecksums]
  | cons first rest =>
    rw [mergeJoinResponses]
    cases hasSameChecksums (.number (-1)) (first :: rest) with
    | true => simp
    | false =>
      generalize first :: rest = bodies at described ⊢
      have missing : (bodies.map JoinBody.changeset).flatten.any Change.isMissing = true ↔
          ∃ body ∈ bodies, Change.missing ∈ body.changeset := by
        simp only [List.any_flatten, List.any_map, List.any_eq_true, Function.comp_apply]
        refine exists_congr fun body => and_congr_right fun _ => ⟨?_, fun here => ⟨_, here, rfl⟩⟩
        rintro ⟨_ | _ | _ | _, here, ⟨⟩⟩
        exact here
      have known : (bodies.map JoinBody.changeset).flatten.any Change.isOther = false := by
        simpa only [List.any_flatten, List.any_map, List.any_eq_false, Function.comp_apply,
          Bool.not_eq_true] using described
      rw [if_neg Bool.false_ne_true, and_iff_right rfl, ← missing,
        Change.mergeMembershipChangesets, known]
      simp

end JoinBody
end Ringpop.Members
