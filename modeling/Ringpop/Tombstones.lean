import Ringpop.Middleware
import Ringpop.PingReqSender

/-! `lib/middleware/tombstone.js` and `transport.js`, with the stacks of `setupChannel`: on
its way between two nodes a tombstone is a faulty member with a flag. -/
namespace Ringpop.Members
open JsString Middlewares

namespace Json

/-- A property keeps its place when it is written again. -/
def setEntry (name : Str) (value : Json) : List (Str × Json) → List (Str × Json)
  | [] => [(name, value)]
  | entry :: rest =>
    if entry.1 = name then (name, value) :: rest else entry :: setEntry name value rest

def deleteEntry (name : Str) (entries : List (Str × Json)) : List (Str × Json) :=
  entries.filter fun entry => entry.1 ≠ name

theorem field_setEntry (name other : Str) (value : Json) (entries : List (Str × Json)) :
    field other (some (.object (setEntry name value entries))) =
      if other = name then some value else field other (some (.object entries)) := by
  induction entries with
  | nil =>
    by_cases same : name = other
    · simp [setEntry, field, same]
    · simp [setEntry, field, same, Ne.symm same]
  | cons entry rest ih =>
    simp only [field] at ih ⊢
    rw [setEntry]
    by_cases here : entry.1 = name
    · by_cases same : name = other
      · simp [here, same]
      · simp [here, same, Ne.symm same]
    · by_cases found : entry.1 = other
      · have differs : other ≠ name := fun same => here (found.trans same)
        simp [found, differs]
      · simp [here, found, ih]

theorem setEntry_setEntry (name : Str) (value other : Json) (entries : List (Str × Json)) :
    setEntry name value (setEntry name other entries) = setEntry name value entries := by
  induction entries with
  | nil => simp [setEntry]
  | cons entry rest ih => by_cases here : entry.1 = name <;> simp [setEntry, here, ih]

theorem setEntry_self {name : Str} {value : Json} {entries : List (Str × Json)}
    (h : field name (some (.object entries)) = some value) :
    setEntry name value entries = entries := by
  induction entries with
  | nil => cases h
  | cons entry rest ih =>
    simp only [field] at ih h
    by_cases here : entry.1 = name
    · simp only [List.find?_cons, here, decide_true, Option.map_some, Option.some.injEq] at h
      simp [setEntry, here, ← h, Prod.ext_iff]
    · simp only [List.find?_cons, here, decide_false] at h
      simp [setEntry, here, ih h]

theorem deleteEntry_setEntry_comm {name other : Str} (differs : other ≠ name) (value : Json)
    (entries : List (Str × Json)) :
    deleteEntry name (setEntry other value entries) =
      setEntry other value (deleteEntry name entries) := by
  induction entries with
  | nil => simp [setEntry, deleteEntry, differs]
  | cons entry rest ih =>
    simp only [deleteEntry, ne_eq, decide_not] at ih ⊢
    by_cases here : entry.1 = other
    · simp [setEntry, here, differs]
    · by_cases deleted : entry.1 = name
      · simp [setEntry, deleted, ih, Ne.symm differs]
      · simp [setEntry, here, deleted, ih]

theorem deleteEntry_setEntry {name : Str} {entries : List (Str × Json)}
    (missing : field name (some (.object entries)) = none) (value : Json) :
    deleteEntry name (setEntry name value entries) = entries := by
  induction entries with
  | nil => simp [setEntry, deleteEntry]
  | cons entry rest ih =>
    simp only [field, deleteEntry] at ih missing ⊢
    by_cases here : entry.1 = name
    · simp [here] at missing
    · simp only [List.find?_cons, here, decide_false] at missing
      simpa [setEntry, here] using ih missing

def status (change : Json) : Option Json := field (str "status") (some change)

def tombstone (change : Json) : Option Json := field (str "tombstone") (some change)

end Json

/-- An argument on the side of the server. -/
inductive Arg where
  | undefined
  | buffer (text : Str)
  | value (v : Json)

/-- The error of a request: the one that the server has sent, or the one that stands for an
error that does not parse. -/
inductive ServerError where
  | sent (err : Json)
  | serverError

/-- What JavaScript does with a value and its text. -/
structure JsonText where
  stringify : Json → Str
  parse : Str → Option Json
  toString : Json → Str

namespace JsonText

def Faithful (json : JsonText) (v : Json) : Prop := json.parse (json.stringify v) = some v

/-- `JSON.parse` throws when it is given `undefined`. -/
def safeParse (json : JsonText) (text : Option Str) : Json := (text.bind json.parse).getD .null

def text (json : JsonText) : Arg → Option Str
  | .undefined => none
  | .buffer text => some text
  | .value (.string text) => some text
  | .value v => some (json.toString v)

end JsonText

namespace Tombstones
open Json

/-- Reading a property of `null` throws. -/
def faultyAsTombstone : Json → Option Json
  | .null => none
  | .object change =>
    if isString Status.faulty.name (status (.object change)) ∧
        truthy (tombstone (.object change)) then
      some (.object (deleteEntry (str "tombstone")
        (setEntry (str "status") (.string Status.tombstone.name) change)))
    else some (.object change)
  | change => some change

def tombstoneAsFaulty : Json → Option Json
  | .null => none
  | .object change =>
    if isString Status.tombstone.name (status (.object change)) then
      some (.object (setEntry (str "tombstone") (.bool true)
        (setEntry (str "status") (.string Status.faulty.name) change)))
    else some (.object change)
  | change => some change

/-- `toPatch.forEach(patcher)` behind the test of `toPatch.length`; nothing but an array has
the method. -/
def forEach (patcher : Json → Option Json) : Json → Option Json
  | .array elements => (elements.mapM patcher).map .array
  | .string value => if value = [] then some (.string value) else none
  | .object entries =>
    if truthy (field (str "length") (some (.object entries))) then none
    else some (.object entries)
  | toPatch => some toPatch

def patchList (name : Option Str) (patcher : Json → Option Json) : Json → Option Json
  | .object entries =>
    match name with
    | none => some (.object entries)
    | some name =>
      match field name (some (.object entries)) with
      | none => some (.object entries)
      | some toPatch =>
        (forEach patcher toPatch).map fun patched => .object (setEntry name patched entries)
  | msg => some msg

def requestList (endpoint : Str) : Option Str :=
  if endpoint = str "/protocol/ping" ∨ endpoint = str "/protocol/ping-req" then
    some (str "changes")
  else none

def responseList (endpoint : Str) : Option Str :=
  if endpoint = str "/protocol/ping" ∨ endpoint = str "/protocol/ping-req" then
    some (str "changes")
  else if endpoint = str "/protocol/join" then some (str "membership")
  else none

def requestPatcher (endpoint : Str) (msg : Json) (patcher : Json → Option Json) : Option Json :=
  patchList (requestList endpoint) patcher msg

def responsePatcher (endpoint : Str) (msg : Json) (patcher : Json → Option Json) : Option Json :=
  patchList (responseList endpoint) patcher msg

/-- A buffer has neither `changes` nor `membership`. -/
def patchArg (patch : Json → Option Json) : Arg → Option Arg
  | .value msg => (patch msg).map .value
  | msg => some msg

def tombstonePatchServerMiddleware : Middleware Str Arg (Option Json) Arg where
  request := some fun endpoint arg2 arg3 =>
    (patchArg (requestPatcher endpoint · faultyAsTombstone) arg3).map fun arg3 => (arg2, arg3)
  response := some fun endpoint err res1 res2 =>
    (patchArg (responsePatcher endpoint · tombstoneAsFaulty) res2).map fun res2 =>
      (err, res1, res2)

def tombstonePatchClientMiddleware {Err : Type} : Middleware Str Json Err Json where
  request := some fun endpoint arg2 arg3 =>
    (requestPatcher endpoint arg3 tombstoneAsFaulty).map fun arg3 => (arg2, arg3)
  response := some fun endpoint err res1 res2 =>
    (responsePatcher endpoint res1 faultyAsTombstone).map fun res1 => (err, res1, res2)

/-- An argument that does not parse, or parses as `null`, stays as it is. -/
def parsed (json : JsonText) (arg : Arg) : Arg :=
  match json.safeParse (json.text arg) with
  | .null => arg
  | v => .value v

def stringified (json : JsonText) : Arg → Arg
  | .value (.string text) => .value (.string text)
  | .value v => .value (.string (json.stringify v))
  | arg => arg

def transportServerMiddleware (json : JsonText) : Middleware Str Arg (Option Json) Arg where
  request := some fun endpoint arg2 arg3 =>
    if endpoint = str "/proxy/req" then some (parsed json arg2, arg3)
    else some (arg2, parsed json arg3)
  response := some fun _ err res1 res2 => some (err, res1, stringified json res2)

/-- The stacks of `setupChannel`. -/
def clientStack : MiddlewareStack Str Json (Option ServerError) Json :=
  ⟨[tombstonePatchClientMiddleware]⟩

def serverStack (json : JsonText) : MiddlewareStack Str Arg (Option Json) Arg :=
  ⟨[transportServerMiddleware json, tombstonePatchServerMiddleware]⟩

inductive Reply where
  | ok (res2 : Arg)
  | notOk (res2 : Str)

/-- `RingpopServer`; every result but a buffer and `undefined` is text by now. -/
def reply (json : JsonText) : Option Json × Arg × Arg → Reply
  | (some err, _, _) => .notOk (json.stringify err)
  | (none, _, .value (.string text)) =>
    .ok (if text = [] then .value (.string text) else .buffer text)
  | (none, _, res2) => .ok res2

def serve (json : JsonText) (endpoint : Str)
    (handler : Arg → Arg → Option (Option Json × Arg × Arg)) (strHead strBody : Str) :
    Option Reply :=
  ((serverStack json).run endpoint (.buffer strHead) (.buffer strBody) handler).map (reply json)

/-- `onSend` in `ClientRequest.send`. -/
def onSend (json : JsonText) : Reply → Option ServerError × Json × Json
  | .ok res2 => (none, json.safeParse (json.text res2), .null)
  | .notOk res2 =>
    let err := json.safeParse (some res2)
    (some (if Json.truthy (some err) then .sent err else .serverError), .null, .null)

/-- A request between two nodes, up to the arguments of its callback. -/
def exchange (json : JsonText) (endpoint : Str) (head body : Json)
    (handler : Arg → Arg → Option (Option Json × Arg × Arg)) :
    Option (Option ServerError × Json × Json) :=
  clientStack.run endpoint head body fun arg2 arg3 =>
    (serve json endpoint handler (json.stringify arg2) (json.stringify arg3)).map (onSend json)

variable {change : List (Str × Json)}

/-- What an old node is shown of a change. -/
def shown (change : List (Str × Json)) : List (Str × Json) :=
  if isString Status.tombstone.name (status (.object change)) then
    setEntry (str "tombstone") (.bool true)
      (setEntry (str "status") (.string Status.faulty.name) change)
  else change

theorem tombstoneAsFaulty_object (change : List (Str × Json)) :
    tombstoneAsFaulty (.object change) = some (.object (shown change)) := by
  rw [tombstoneAsFaulty, shown]
  split <;> rfl

theorem isString_iff {expected : Str} {value : Option Json} :
    isString expected value = true ↔ value = some (.string expected) := by
  unfold isString
  split
  · simp
  · rename_i other
    exact iff_of_false Bool.false_ne_true fun same => other expected same

theorem status_shown_of_tombstone (h : status (.object change) =
    some (.string Status.tombstone.name)) :
    status (.object (shown change)) = some (.string Status.faulty.name) := by
  rw [shown, if_pos (isString_iff.mpr h), status, field_setEntry, field_setEntry,
    if_neg (by decide), if_pos rfl]

theorem shown_of_other (h : status (.object change) ≠ some (.string Status.tombstone.name)) :
    shown change = change := if_neg fun same => h (isString_iff.mp same)

theorem faultyAsTombstone_shown (untagged : tombstone (.object change) = none) :
    faultyAsTombstone (.object (shown change)) = some (.object change) := by
  by_cases dead : status (.object change) = some (.string Status.tombstone.name)
  case neg =>
    rw [shown_of_other dead, faultyAsTombstone, untagged]
    exact if_neg fun h => Bool.false_ne_true h.2
  case pos =>
    have faulty := status_shown_of_tombstone dead
    rw [shown, if_pos (isString_iff.mpr dead)] at faulty ⊢
    have flagged : tombstone (.object (setEntry (str "tombstone") (.bool true)
        (setEntry (str "status") (.string Status.faulty.name) change))) = some (.bool true) := by
      rw [tombstone, field_setEntry, if_pos rfl]
    have missing : field (str "tombstone")
        (some (.object (setEntry (str "status") (.string Status.faulty.name) change))) = none := by
      rw [field_setEntry, if_neg (by decide)]
      exact untagged
    rw [faultyAsTombstone, if_pos ⟨isString_iff.mpr faulty, by rw [flagged]; rfl⟩,
      deleteEntry_setEntry_comm (by decide), deleteEntry_setEntry missing, setEntry_setEntry,
      setEntry_self dead]

theorem forEach_objects {patcher : Json → Option Json} {changes : List (List (Str × Json))}
    (before after : List (Str × Json) → List (Str × Json))
    (h : ∀ c ∈ changes, patcher (.object (before c)) = some (.object (after c))) :
    forEach patcher (.array ((changes.map before).map .object)) =
      some (.array ((changes.map after).map .object)) := by
  have each : ((changes.map before).map Json.object).mapM patcher =
      some ((changes.map after).map Json.object) := by
    induction changes with
    | nil => rfl
    | cons change rest ih =>
      rw [List.map_cons, List.map_cons, List.mapM_cons, h change List.mem_cons_self,
        ih fun c hc => h c (List.mem_cons_of_mem _ hc)]
      rfl
  rw [forEach, each]
  rfl

/-- The list that is patched has these objects. -/
def Carries (list : Option Str) (msg : List (Str × Json)) (changes : List (List (Str × Json))) :
    Prop :=
  ∀ name ∈ list, field name (some (.object msg)) = some (.array (changes.map .object))

theorem patchList_shown {list : Option Str} {msg : List (Str × Json)}
    {changes : List (List (Str × Json))} (carries : Carries list msg changes)
    (untagged : ∀ c ∈ changes, tombstone (.object c) = none) :
    ∃ wire, patchList list tombstoneAsFaulty (.object msg) = some (.object wire) ∧
      Carries list wire (changes.map shown) ∧
      patchList list faultyAsTombstone (.object wire) = some (.object msg) := by
  cases list with
  | none => exact ⟨msg, rfl, fun name h => (by cases h), rfl⟩
  | some name =>
    have held := carries name rfl
    have there := forEach_objects id shown fun c (_ : c ∈ changes) => tombstoneAsFaulty_object c
    have back := forEach_objects shown id fun c hc => faultyAsTombstone_shown (untagged c hc)
    rw [List.map_id] at there back
    refine ⟨setEntry name (.array ((changes.map shown).map .object)) msg, ?_, ?_, ?_⟩
    · simp only [patchList, held, there, Option.map_some]
    · rintro _ ⟨⟩
      rw [field_setEntry, if_pos rfl]
    · simp only [patchList, field_setEntry, if_true, back, Option.map_some, setEntry_setEntry,
        setEntry_self held]

variable {json : JsonText} {endpoint : Str}

theorem parsed_object {arg : Arg} {entries : List (Str × Json)}
    (h : json.safeParse (json.text arg) = .object entries) :
    parsed json arg = .value (.object entries) := by
  rw [parsed, h]

theorem safeParse_stringify {v : Json} (faithful : json.Faithful v) :
    json.safeParse (some (json.stringify v)) = v := by
  rw [JsonText.safeParse, Option.bind_some, faithful]
  rfl

theorem request_sent (head : Json) {body wire : List (Str × Json)}
    (patch : requestPatcher endpoint (.object body) tombstoneAsFaulty = some (.object wire)) :
    MiddlewareStack.callRequestMiddleware endpoint clientStack.middlewares head
      (.object body) = some (head, .object wire) := by
  simp only [clientStack, MiddlewareStack.callRequestMiddleware, tombstonePatchClientMiddleware,
    patch, Option.map_some, Option.bind_some]

theorem request_received (remote : endpoint ≠ str "/proxy/req") (head : Arg)
    {body wire : List (Str × Json)} (faithful : json.Faithful (.object wire))
    (patch : requestPatcher endpoint (.object wire) faultyAsTombstone = some (.object body)) :
    MiddlewareStack.callRequestMiddleware endpoint (serverStack json).middlewares head
      (.buffer (json.stringify (.object wire))) = some (head, .value (.object body)) := by
  have decoded : parsed json (.buffer (json.stringify (.object wire))) = .value (.object wire) :=
    parsed_object (safeParse_stringify faithful)
  simp only [serverStack, MiddlewareStack.callRequestMiddleware, transportServerMiddleware,
    tombstonePatchServerMiddleware, if_neg remote, decoded, patchArg, patch, Option.map_some,
    Option.bind_some]

theorem response_sent {res1 : Arg} {answer wire : List (Str × Json)}
    (patch : responsePatcher endpoint (.object answer) tombstoneAsFaulty = some (.object wire)) :
    (serverStack json).callResponseMiddleware endpoint (serverStack json).middlewares.length none
      res1 (.value (.object answer)) =
      (0, some (none, res1, .value (.string (json.stringify (.object wire))))) := by
  simp [serverStack, MiddlewareStack.callResponseMiddleware, transportServerMiddleware,
    tombstonePatchServerMiddleware, patchArg, patch, stringified]

theorem response_received {answer wire : List (Str × Json)}
    (patch : responsePatcher endpoint (.object wire) faultyAsTombstone = some (.object answer)) :
    clientStack.callResponseMiddleware endpoint clientStack.middlewares.length none (.object wire)
      .null = (0, some (none, .object answer, .null)) := by
  simp [clientStack, MiddlewareStack.callResponseMiddleware, tombstonePatchClientMiddleware, patch]

/-- The text of a result is sent as a buffer, unless it is empty. -/
theorem onSend_reply {res1 : Arg} {v : Json} (faithful : json.Faithful v) :
    onSend json (reply json (none, res1, .value (.string (json.stringify v)))) =
      (none, v, .null) := by
  have text : json.safeParse (some (json.stringify v)) = v := safeParse_stringify faithful
  rw [reply]
  split <;> simp only [onSend, JsonText.text, text]

/-- A change and what is seen of it between two nodes. -/
def SeenAs (change seen : List (Str × Json)) : Prop :=
  (status (.object change) = some (.string Status.tombstone.name) →
    status (.object seen) = some (.string Status.faulty.name)) ∧
  (status (.object change) ≠ some (.string Status.tombstone.name) → seen = change)

theorem seenAs_shown (changes : List (List (Str × Json))) :
    List.Forall₂ SeenAs changes (changes.map shown) := by
  rw [List.forall₂_map_right_iff, List.forall₂_same]
  exact fun change _ => ⟨status_shown_of_tombstone, shown_of_other⟩

/-- No tombstone is shown. -/
theorem status_shown (change : List (Str × Json)) :
    status (.object (shown change)) ≠ some (.string Status.tombstone.name) := by
  by_cases dead : status (.object change) = some (.string Status.tombstone.name)
  case pos =>
    rw [status_shown_of_tombstone dead]
    exact fun same => absurd (Json.string.inj (Option.some.inj same)) (by decide)
  case neg => rwa [shown_of_other dead]

/-- Whatever a request and its response carry arrives as it was, and no tombstone is seen on
the way. -/
theorem exchange_tombstones (json : JsonText) (endpoint : Str) (head : Json)
    (body answer : List (Str × Json)) (changes membership : List (List (Str × Json)))
    (remote : endpoint ≠ str "/proxy/req") (asks : Carries (requestList endpoint) body changes)
    (answers : Carries (responseList endpoint) answer membership)
    (untagged : ∀ c ∈ changes ++ membership, tombstone (.object c) = none) :
    ∃ sent returned seen seen',
      Carries (requestList endpoint) sent seen ∧ List.Forall₂ SeenAs changes seen ∧
      Carries (responseList endpoint) returned seen' ∧ List.Forall₂ SeenAs membership seen' ∧
      (∀ c ∈ seen ++ seen', status (.object c) ≠ some (.string Status.tombstone.name)) ∧
      MiddlewareStack.callRequestMiddleware endpoint clientStack.middlewares head
        (.object body) = some (head, .object sent) ∧
      responsePatcher endpoint (.object answer) tombstoneAsFaulty = some (.object returned) ∧
      (∀ res1, (serverStack json).callResponseMiddleware endpoint
        (serverStack json).middlewares.length none res1 (.value (.object answer)) =
        (0, some (none, res1, .value (.string (json.stringify (.object returned)))))) ∧
      (json.Faithful (.object sent) → json.Faithful (.object returned) →
        MiddlewareStack.callRequestMiddleware endpoint (serverStack json).middlewares
          (.buffer (json.stringify head)) (.buffer (json.stringify (.object sent))) =
          some (.buffer (json.stringify head), .value (.object body)) ∧
        clientStack.callResponseMiddleware endpoint clientStack.middlewares.length none
          (json.safeParse (some (json.stringify (.object returned)))) .null =
          (0, some (none, .object answer, .null)) ∧
        ∀ handler res1, handler (.buffer (json.stringify head)) (.value (.object body)) =
            some (none, res1, .value (.object answer)) →
          exchange json endpoint head (.object body) handler =
            some (none, .object answer, .null)) := by
  obtain ⟨sent, there, seen, back⟩ := patchList_shown asks fun c hc =>
    untagged c (List.mem_append_left _ hc)
  obtain ⟨returned, there', seen', back'⟩ := patchList_shown answers fun c hc =>
    untagged c (List.mem_append_right _ hc)
  have request := request_sent head there
  refine ⟨sent, returned, changes.map shown, membership.map shown, seen, seenAs_shown changes,
    seen', seenAs_shown membership, fun c hc => ?_, request,
    there', fun res1 => response_sent there', fun faithful faithful' => ?_⟩
  · rw [← List.map_append] at hc
    obtain ⟨change, -, rfl⟩ := List.mem_map.mp hc
    exact status_shown change
  · have received := request_received remote (.buffer (json.stringify head)) faithful back
    have response := response_received back'
    refine ⟨received, ?_, fun handler res1 handled => ?_⟩
    · rw [safeParse_stringify faithful']
      exact response
    · have served : serve json endpoint handler (json.stringify head)
          (json.stringify (.object sent)) =
          some (reply json (none, res1, .value (.string (json.stringify (.object returned))))) := by
        rw [serve, MiddlewareStack.run_eq received handled, response_sent there']
        rfl
      rw [exchange, MiddlewareStack.run_eq request
        (by rw [served, Option.map_some, onSend_reply faithful']), response]

theorem exchange_tombstones_ping :
    let change (status : Status) (flag : List (Str × Json)) : Json :=
      .object ((str "address", .string (str "b:1")) :: (str "status", .string status.name) :: flag)
    let body (change : Json) : List (Str × Json) := [(str "changes", .array [change])]
    let sent : Json := .object (body (change .faulty [(str "tombstone", .bool true)]))
    let text : Str := str ("\x7b\"changes\":[\x7b\"address\":\"b:1\",\"status\":\"faulty\"," ++
      "\"tombstone\":true\x7d]\x7d")
    let json : JsonText := ⟨fun v => if truthy (some v) then text else str "null",
      fun s => some (if s = text then sent else .null), fun _ => str "[object Object]"⟩
    let message := body (change .tombstone [])
    exchange json (str "/protocol/ping") .null (.object message)
        (fun _ _ => some (none, .undefined, .value (.object message))) =
      some (none, .object message, .null) := by
  intro change body sent text json message
  let dead : List (Str × Json) :=
    [(str "address", .string (str "b:1")), (str "status", .string Status.tombstone.name)]
  have carries : Carries (some (str "changes")) message [dead] := by
    rintro _ ⟨⟩
    rfl
  have untagged : ∀ c ∈ [dead] ++ [dead], tombstone (.object c) = none := by
    intro c hc
    obtain rfl : c = dead := by simpa using hc
    rfl
  obtain ⟨wire, wire', -, -, -, -, -, -, -, request, patched, -, arrives⟩ :=
    exchange_tombstones json (str "/protocol/ping") .null message message _ _ (by decide) carries
      carries untagged
  have same : .object wire = sent :=
    congrArg Prod.snd (Option.some.inj (request.symm.trans (rfl : _ = some (Json.null, sent))))
  have same' : .object wire' = sent :=
    Option.some.inj (patched.symm.trans (rfl : _ = some sent))
  have faithful : json.Faithful sent := congrArg some (if_pos rfl)
  exact (arrives (same ▸ faithful) (same' ▸ faithful)).2.2 _ .undefined rfl

end Tombstones
end Ringpop.Members
