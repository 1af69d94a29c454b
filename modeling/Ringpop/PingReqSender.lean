import Ringpop.ParsedChanges
import Mathlib.Data.List.Perm.Basic

/-! `lib/gossip/ping-req-sender.js`: other members are asked to ping a member that did not
answer, and their answers decide whether it becomes a suspect. -/
namespace Ringpop.Members
open JsString

/-- What a request calls back with. -/
inductive Response where
  | error (message : Str)
  | body (res : Option Json)

/-- How the handler of an answer ends. -/
inductive Handled (ε : Type) where
  | throws
  | callsBack (err : Option ε)

inductive PingReqError where
  | ping (errMessage : Str)
  | badRespBody (selected target : Address) (body : Option Json)
  | badPingStatus (selected target : Address) (pingStatus : Option Json)

def PingReqError.type : PingReqError → Str
  | ping _ => str "ringpop.ping-req.ping"
  | badRespBody _ _ _ => str "ringpop.ping-req.bad-resp-body"
  | badPingStatus _ _ _ => str "ringpop.ping-req.bad-ping-status"

/-- The arguments of the callback of `sendPingReqs`. -/
inductive PingReqResult where
  | reachable (pingReqAddrs : List Address) (pingReqSuccess : Address)
  | unreachable (pingReqAddrs : List Address) (pingReqErrs : List PingReqError)
  | inconclusive

/-- The end of one request. The list and the incarnation number of the unreachable member
are those of that time. -/
structure PingReqAnswer where
  selected : Address
  response : Response
  listed : ListedMembers
  incarnationNumber : ℤ

/-- `PingReqSender.onPingReq`: what its callback is called with, and the changes that
`membership.update` is called with. -/
def PingReqSender.onPingReq (listed : ListedMembers) (selected target : Address) :
    Response → Handled PingReqError × Option Json
  | .error message => (.callsBack (some (.ping message)), none)
  | .body res =>
    let changes := Json.field (str "changes") res
    let pingStatus := Json.field (str "pingStatus") res
    if !Json.truthy res || !Json.truthy changes ||
        Json.isString (str "undefined") pingStatus then
      (.callsBack (some (.badRespBody selected target res)), none)
    else if !listed.returns (Json.asChanges changes) then (.throws, changes)
    else if !Json.truthy pingStatus then
      (.callsBack (some (.badPingStatus selected target pingStatus)), changes)
    else (.callsBack none, changes)

/-- The requests of one `sendPingReqs`, with the calls it has made. -/
structure PingReqs where
  unreachableMember : Address
  pingReqMembers : List Address
  errors : List PingReqError
  calledBack : Bool
  suspected : List (Address × ℤ)
  updates : List Json
  results : List PingReqResult

/-- With nobody to ask, the member is a suspect at once. -/
def sendPingReqs (unreachableMember : Address) (incarnationNumber : ℤ)
    (pingReqMembers : List Address) : PingReqs :=
  let reqs : PingReqs := ⟨unreachableMember, pingReqMembers, [], false, [], [], []⟩
  if pingReqMembers.length = 0 then
    { reqs with
      suspected := [(unreachableMember, incarnationNumber)]
      results := [.unreachable pingReqMembers []] }
  else reqs

namespace PingReqs

def onPingReqHandler (reqs : PingReqs) (selected : Address) (incarnationNumber : ℤ)
    (err : Option PingReqError) : PingReqs :=
  if reqs.calledBack then reqs
  else
    match err with
    | none =>
      { reqs with
        calledBack := true
        results := reqs.results ++ [.reachable reqs.pingReqMembers selected] }
    | some err =>
      let reqs := { reqs with errors := reqs.errors ++ [err] }
      if reqs.errors.length < reqs.pingReqMembers.length then reqs
      else
        let numPingReqStatusErrs := reqs.errors.countP fun error =>
          error.type = str "ringpop.ping-req.bad-ping-status"
        if numPingReqStatusErrs > 0 then
          { reqs with
            suspected := reqs.suspected ++ [(reqs.unreachableMember, incarnationNumber)]
            calledBack := true
            results := reqs.results ++ [.unreachable reqs.pingReqMembers reqs.errors] }
        else
          { reqs with
            calledBack := true
            results := reqs.results ++ [.inconclusive] }

def answer (reqs : PingReqs) (a : PingReqAnswer) : PingReqs :=
  let (handled, changes) :=
    PingReqSender.onPingReq a.listed a.selected reqs.unreachableMember a.response
  let reqs := { reqs with updates := reqs.updates ++ changes.toList }
  match handled with
  | .throws => reqs
  | .callsBack err => reqs.onPingReqHandler a.selected a.incarnationNumber err

/-- What the answer comes to. -/
def handled (target : Address) (a : PingReqAnswer) : Handled PingReqError :=
  (PingReqSender.onPingReq a.listed a.selected target a.response).1

/-- The member that answers has reached the other one. -/
def Reached (target : Address) (a : PingReqAnswer) : Bool :=
  match handled target a with
  | .callsBack none => true
  | _ => false

/-- The answer is an error for `onPingReq`. -/
def Failed (target : Address) (a : PingReqAnswer) : Bool :=
  match handled target a with
  | .callsBack (some _) => true
  | _ => false

/-- The changes of the answer make `membership.update` throw. -/
def Breaks (target : Address) (a : PingReqAnswer) : Bool :=
  match handled target a with
  | .throws => true
  | _ => false

end PingReqs

namespace Response

/-- A body with changes that says that the ping came back. -/
def confirms : Response → Bool
  | error _ => false
  | body res => Json.truthy res && Json.truthy (Json.field (str "changes") res) &&
      Json.truthy (Json.field (str "pingStatus") res) &&
      !Json.isString (str "undefined") (Json.field (str "pingStatus") res)

/-- A body with changes that says that the ping failed. -/
def denies : Response → Bool
  | error _ => false
  | body res => Json.truthy res && Json.truthy (Json.field (str "changes") res) &&
      Json.isFalse (Json.field (str "pingStatus") res)

/-- A body with changes whose `pingStatus` is missing, or is `null`, `0` or empty. -/
def silent : Response → Bool
  | error _ => false
  | body res => Json.truthy res && Json.truthy (Json.field (str "changes") res) &&
      !Json.truthy (Json.field (str "pingStatus") res) &&
      !Json.isFalse (Json.field (str "pingStatus") res)

end Response

/-- `membership.update` is called and throws. -/
def PingReqAnswer.breaks (a : PingReqAnswer) : Bool :=
  match a.response with
  | .error _ => false
  | .body res => Json.truthy res && Json.truthy (Json.field (str "changes") res) &&
      !Json.isString (str "undefined") (Json.field (str "pingStatus") res) &&
      !a.listed.returns (Json.asChanges (Json.field (str "changes") res))

namespace PingReqs
variable {reqs : PingReqs} {target : Address} {a : PingReqAnswer}

theorem breaks_eq (target : Address) (a : PingReqAnswer) : Breaks target a = a.breaks := by
  rw [Breaks, handled, PingReqAnswer.breaks]
  cases a.response with
  | error message => rfl
  | body res =>
    simp only [PingReqSender.onPingReq]
    cases Json.truthy res <;> cases Json.truthy (Json.field (str "changes") res) <;>
      cases Json.isString (str "undefined") (Json.field (str "pingStatus") res) <;>
      cases a.listed.returns _ <;>
      cases Json.truthy (Json.field (str "pingStatus") res) <;> rfl

theorem reached_eq (target : Address) (a : PingReqAnswer) :
    Reached target a = (a.response.confirms && !a.breaks) := by
  rw [Reached, handled, PingReqAnswer.breaks]
  cases a.response with
  | error message => rfl
  | body res =>
    simp only [PingReqSender.onPingReq, Response.confirms]
    cases Json.truthy res <;> cases Json.truthy (Json.field (str "changes") res) <;>
      cases Json.isString (str "undefined") (Json.field (str "pingStatus") res) <;>
      cases a.listed.returns _ <;>
      cases Json.truthy (Json.field (str "pingStatus") res) <;> rfl

/-- The error that counts against the unreachable member. -/
def accuses (target : Address) (a : PingReqAnswer) : Bool :=
  match handled target a with
  | .callsBack (some err) => err.type = str "ringpop.ping-req.bad-ping-status"
  | _ => false

theorem accuses_eq (failed : Failed target a = true) :
    accuses target a = (a.response.denies || a.response.silent) := by
  rw [Failed, handled] at failed
  rw [accuses, handled]
  cases response : a.response with
  | error message => rfl
  | body res =>
    rw [response] at failed
    simp only [PingReqSender.onPingReq, Response.denies, Response.silent] at failed ⊢
    generalize Json.field (str "pingStatus") res = status at failed ⊢
    generalize a.listed.returns _ = returns at failed ⊢
    generalize Json.truthy res = present, Json.truthy (Json.field (str "changes") res) = changed
      at failed ⊢
    have word (same : Json.isString (str "undefined") status = true) :=
      Json.truthy_of_isString (by decide) same
    have denied := @Json.truthy_of_isFalse status
    have apart : str "ringpop.ping-req.bad-resp-body" ≠
        str "ringpop.ping-req.bad-ping-status" := by decide
    revert failed
    cases present <;> cases changed
    case true.true =>
      cases stated : Json.truthy status with
      | true =>
        have other : Json.isFalse status = false :=
          Bool.eq_false_iff.mpr fun false => by cases stated.symm.trans (denied false)
        cases Json.isString (str "undefined") status <;> cases returns <;>
          simp [other, PingReqError.type, apart]
      | false =>
        have other : Json.isString (str "undefined") status = false :=
          Bool.eq_false_iff.mpr fun same => by cases stated.symm.trans (word same)
        cases returns <;> simp [other, PingReqError.type]
    all_goals exact fun _ => rfl

/-- An error that counts is among those that came so far. -/
def accused (reqs : PingReqs) : Bool :=
  reqs.errors.any fun error => error.type = str "ringpop.ping-req.bad-ping-status"

/-- No verdict yet. -/
structure Waiting (reqs : PingReqs) : Prop where
  calledBack : reqs.calledBack = false
  suspected : reqs.suspected = []
  results : reqs.results = []

theorem Waiting.heard (waiting : reqs.Waiting) (updates : List Json) :
    Waiting { reqs with updates := updates } :=
  ⟨waiting.calledBack, waiting.suspected, waiting.results⟩

/-- The callback has been called, once, after the suspicion of `suspects`. -/
structure Called (reqs : PingReqs) (suspects : List Address) : Prop where
  calledBack : reqs.calledBack = true
  suspected : reqs.suspected.map Prod.fst = suspects
  results : reqs.results.length = 1

/-- Only the record of the changes changes when the handler throws. -/
theorem answer_cases (reqs : PingReqs) (a : PingReqAnswer) :
    ∃ updates, reqs.answer a =
      match handled reqs.unreachableMember a with
      | .throws => { reqs with updates := updates }
      | .callsBack err => { reqs with updates := updates }.onPingReqHandler a.selected
          a.incarnationNumber err :=
  ⟨_, rfl⟩

theorem Called.answer {suspects : List Address} (called : reqs.Called suspects)
    (a : PingReqAnswer) : (reqs.answer a).Called suspects := by
  obtain ⟨updates, answered⟩ := reqs.answer_cases a
  rw [answered]
  split
  case h_1 => exact ⟨called.calledBack, called.suspected, called.results⟩
  case h_2 =>
    simp only [onPingReqHandler, called.calledBack, if_true]
    exact ⟨rfl, called.suspected, called.results⟩

theorem Waiting.reached (waiting : reqs.Waiting)
    (reached : Reached reqs.unreachableMember a = true) : (reqs.answer a).Called [] := by
  obtain ⟨updates, answered⟩ := reqs.answer_cases a
  rw [Reached] at reached
  split at reached
  case h_1 told =>
    rw [answered, told]
    simp only [onPingReqHandler, waiting.calledBack, Bool.false_eq_true, if_false]
    exact ⟨rfl, by simp [waiting.suspected], by simp [waiting.results]⟩
  case h_2 => cases reached

/-- An answer whose handler throws is heard, and not counted. -/
theorem answer_breaks (breaks : Breaks reqs.unreachableMember a = true) :
    ∃ updates, reqs.answer a = { reqs with updates := updates } := by
  obtain ⟨updates, answered⟩ := reqs.answer_cases a
  rw [Breaks] at breaks
  split at breaks
  case h_1 told =>
    rw [told] at answered
    exact ⟨updates, answered⟩
  case h_2 => cases breaks

/-- The three ways in which an answer can end. -/
theorem reached_or_failed_or_breaks (target : Address) (a : PingReqAnswer) :
    Reached target a = true ∨ Failed target a = true ∨ Breaks target a = true := by
  rw [Reached, Failed, Breaks]
  rcases handled target a with _ | _ | err
  · exact .inr (.inr rfl)
  · exact .inl rfl
  · exact .inr (.inl rfl)

theorem not_reached_of_failed (failed : Failed target a = true) : Reached target a = false := by
  rw [Failed] at failed
  rw [Reached]
  split at failed
  case h_1 told => rw [told]
  case h_2 => cases failed

theorem not_failed_of_breaks (breaks : Breaks target a = true) : Failed target a = false := by
  rw [Breaks] at breaks
  rw [Failed]
  split at breaks
  case h_1 told => rw [told]
  case h_2 => cases breaks

/-- The errors after one more. -/
structure Failing (reqs next : PingReqs) (a : PingReqAnswer) : Prop where
  waiting : next.Waiting
  unreachableMember : next.unreachableMember = reqs.unreachableMember
  pingReqMembers : next.pingReqMembers = reqs.pingReqMembers
  errors : next.errors.length = reqs.errors.length + 1
  accused : next.accused = (reqs.accused || accuses reqs.unreachableMember a)

/-- An answer that has failed is handled as an error. -/
theorem answer_failed (failed : Failed reqs.unreachableMember a = true) :
    ∃ err updates,
      reqs.answer a = { reqs with updates := updates }.onPingReqHandler a.selected
        a.incarnationNumber (some err) ∧
      accuses reqs.unreachableMember a =
        decide (err.type = str "ringpop.ping-req.bad-ping-status") := by
  obtain ⟨updates, answered⟩ := reqs.answer_cases a
  rw [Failed] at failed
  split at failed
  case h_1 err told =>
    refine ⟨err, updates, ?_, ?_⟩
    · rw [answered, told]
    · rw [accuses, told]
  case h_2 => cases failed

theorem Waiting.failed (waiting : reqs.Waiting) (failed : Failed reqs.unreachableMember a = true)
    (more : reqs.errors.length + 1 < reqs.pingReqMembers.length) :
    Failing reqs (reqs.answer a) a := by
  obtain ⟨err, updates, handled, accuses⟩ := answer_failed failed
  rw [handled]
  simp only [onPingReqHandler, waiting.calledBack, Bool.false_eq_true, if_false,
    List.length_append, List.length_singleton, more, if_true]
  refine ⟨⟨rfl, waiting.suspected, waiting.results⟩, rfl, rfl, ?_, ?_⟩
  · simp
  · simp [PingReqs.accused, accuses]

theorem Waiting.last (waiting : reqs.Waiting) (failed : Failed reqs.unreachableMember a = true)
    (last : reqs.pingReqMembers.length ≤ reqs.errors.length + 1) :
    (reqs.answer a).Called
      (if reqs.accused || accuses reqs.unreachableMember a then [reqs.unreachableMember]
        else []) := by
  obtain ⟨err, updates, handled, accuses⟩ := answer_failed failed
  rw [handled, accuses]
  simp only [onPingReqHandler, waiting.calledBack, Bool.false_eq_true, if_false,
    List.length_append, List.length_singleton, Nat.not_lt.mpr last]
  have counted : (0 < (reqs.errors ++ [err]).countP fun error =>
      error.type = str "ringpop.ping-req.bad-ping-status") ↔
      (reqs.accused || decide (err.type = str "ringpop.ping-req.bad-ping-status")) = true := by
    rw [List.countP_pos_iff]
    simp [PingReqs.accused]
  split
  case isTrue found =>
    rw [if_pos (counted.mp found)]
    exact ⟨rfl, by simp [waiting.suspected], by simp [waiting.results]⟩
  case isFalse missing =>
    rw [if_neg fun found => missing (counted.mpr found)]
    exact ⟨rfl, by simp [waiting.suspected], by simp [waiting.results]⟩

theorem Called.foldl {suspects : List Address} (called : reqs.Called suspects)
    (answers : List PingReqAnswer) : (answers.foldl PingReqs.answer reqs).Called suspects := by
  induction answers generalizing reqs with
  | nil => exact called
  | cons a answers ih => exact ih (called.answer a)

/-- A single member that reaches the other one clears it. -/
theorem Waiting.foldl_reached (waiting : reqs.Waiting) {answers : List PingReqAnswer}
    (count : reqs.errors.length + answers.length ≤ reqs.pingReqMembers.length)
    (reached : ∃ a ∈ answers, Reached reqs.unreachableMember a = true) :
    (answers.foldl answer reqs).Called [] := by
  induction answers generalizing reqs with
  | nil =>
    obtain ⟨a, none, -⟩ := reached
    cases none
  | cons a answers ih =>
    rw [List.foldl_cons]
    rw [List.length_cons] at count
    cases first : Reached reqs.unreachableMember a with
    | true => exact (waiting.reached first).foldl answers
    | false =>
      obtain ⟨b, hb, later⟩ : ∃ b ∈ answers, Reached reqs.unreachableMember b = true := by
        obtain ⟨b, hb, later⟩ := reached
        rcases List.mem_cons.mp hb with rfl | hb
        · cases first.symm.trans later
        · exact ⟨b, hb, later⟩
      have more := List.length_pos_of_mem hb
      rcases reached_or_failed_or_breaks reqs.unreachableMember a with now | failed | breaks
      · cases first.symm.trans now
      · have next := waiting.failed failed (by omega)
        refine ih next.waiting ?_ ⟨b, hb, by rwa [next.unreachableMember]⟩
        rw [next.errors, next.pingReqMembers]
        omega
      · obtain ⟨updates, heard⟩ := answer_breaks breaks
        rw [heard]
        refine ih (waiting.heard updates) ?_ ⟨b, hb, later⟩
        dsimp only
        omega

/-- With fewer errors than members that were asked, and nobody reached, there is no verdict. -/
theorem Waiting.foldl_stuck (waiting : reqs.Waiting) {answers : List PingReqAnswer}
    (unreached : ∀ a ∈ answers, Reached reqs.unreachableMember a = false)
    (few : reqs.errors.length + answers.countP (Failed reqs.unreachableMember) <
      reqs.pingReqMembers.length) : (answers.foldl answer reqs).Waiting := by
  induction answers generalizing reqs with
  | nil => exact waiting
  | cons a answers ih =>
    rw [List.foldl_cons]
    rw [List.countP_cons] at few
    have later (b : PingReqAnswer) (hb : b ∈ answers) :=
      unreached b (List.mem_cons_of_mem a hb)
    rcases reached_or_failed_or_breaks reqs.unreachableMember a with now | failed | breaks
    · cases (unreached a List.mem_cons_self).symm.trans now
    · rw [if_pos failed] at few
      have next := waiting.failed failed (by omega)
      refine ih next.waiting ?_ ?_
      · simpa only [next.unreachableMember] using later
      · rw [next.errors, next.pingReqMembers, next.unreachableMember]
        omega
    · obtain ⟨updates, heard⟩ := answer_breaks breaks
      rw [heard]
      refine ih (waiting.heard updates) later ?_
      dsimp only
      omega

/-- After an error from everybody. -/
theorem Waiting.foldl_failed (waiting : reqs.Waiting) {answers : List PingReqAnswer}
    (some : answers ≠ [])
    (all : reqs.errors.length + answers.length = reqs.pingReqMembers.length)
    (failed : ∀ a ∈ answers, Failed reqs.unreachableMember a = true) :
    (answers.foldl answer reqs).Called
      (if reqs.accused || answers.any (accuses reqs.unreachableMember) then
        [reqs.unreachableMember] else []) := by
  induction answers generalizing reqs with
  | nil => exact absurd rfl some
  | cons a answers ih =>
    rw [List.foldl_cons, List.any_cons]
    rw [List.length_cons] at all
    have first := failed a List.mem_cons_self
    cases answers with
    | nil => simpa using waiting.last first (by simpa using all.ge)
    | cons b answers =>
      have next := waiting.failed first (by rw [List.length_cons] at all; omega)
      have rest := ih next.waiting (List.cons_ne_nil b answers)
        (by rw [next.errors, next.pingReqMembers]; omega)
        (fun c hc => by
          rw [next.unreachableMember]
          exact failed c (List.mem_cons_of_mem a hc))
      rw [next.unreachableMember, next.accused] at rest
      simpa only [Bool.or_assoc] using rest

/-- A verdict still to come. Answers whose handler throws leave members that count as
neither errors nor outstanding. -/
structure Pending (reqs : PingReqs) (outstanding : List Address) : Prop where
  waiting : reqs.Waiting
  count : reqs.errors.length + outstanding.length ≤ reqs.pingReqMembers.length
  undecided : reqs.errors.length < reqs.pingReqMembers.length

theorem Pending.answer {outstanding : List Address} (pending : reqs.Pending outstanding)
    (asked : a.selected ∈ outstanding) :
    (reqs.answer a).Pending (outstanding.erase a.selected) ∨
      ∃ suspects, (reqs.answer a).Called suspects := by
  have left := List.length_erase_of_mem asked
  have count := pending.count
  rcases reached_or_failed_or_breaks reqs.unreachableMember a with reached | failed | breaks
  · exact .inr ⟨_, pending.waiting.reached reached⟩
  · rcases Nat.lt_or_ge (reqs.errors.length + 1) reqs.pingReqMembers.length with more | last
    · have next := pending.waiting.failed failed more
      refine .inl ⟨next.waiting, ?_, ?_⟩
      · rw [next.errors, next.pingReqMembers]
        have positive := List.length_pos_of_mem asked
        omega
      · rwa [next.errors, next.pingReqMembers]
    · exact .inr ⟨_, pending.waiting.last failed last⟩
  · obtain ⟨updates, heard⟩ := answer_breaks breaks
    rw [heard]
    refine .inl ⟨pending.waiting.heard updates, ?_, pending.undecided⟩
    dsimp only
    omega

/-- When the last member has answered there is a verdict, unless its handler or an earlier one
threw. -/
theorem Waiting.decided_iff (waiting : reqs.Waiting)
    (undecided : reqs.errors.length < reqs.pingReqMembers.length) :
    (∃ suspects, (reqs.answer a).Called suspects) ↔
      a.breaks = false ∧ (a.response.confirms = true ∨
        reqs.errors.length + 1 = reqs.pingReqMembers.length) := by
  have uncalled {next : PingReqs} (still : next.Waiting) : ¬ ∃ suspects, next.Called suspects :=
    fun ⟨_, called⟩ => by cases still.calledBack.symm.trans called.calledBack
  cases breaks : a.breaks with
  | true =>
    obtain ⟨updates, heard⟩ := answer_breaks ((breaks_eq reqs.unreachableMember a).trans breaks)
    rw [heard]
    exact iff_of_false (uncalled (waiting.heard updates)) fun ⟨whole, _⟩ => by cases whole
  | false =>
    have reached := reached_eq reqs.unreachableMember a
    rw [breaks, Bool.not_false, Bool.and_true] at reached
    rw [and_iff_right rfl, ← reached]
    rcases reached_or_failed_or_breaks reqs.unreachableMember a with now | failed | broke
    · exact iff_of_true ⟨_, waiting.reached now⟩ (.inl now)
    · rw [not_reached_of_failed failed, or_iff_right Bool.false_ne_true]
      rcases Nat.lt_or_ge (reqs.errors.length + 1) reqs.pingReqMembers.length with more | last
      · exact iff_of_false (uncalled (waiting.failed failed more).waiting) more.ne
      · exact iff_of_true ⟨_, waiting.last failed last⟩ (by omega)
    · cases breaks.symm.trans ((breaks_eq reqs.unreachableMember a).symm.trans broke)

theorem waiting_sendPingReqs (unreachableMember : Address) (incarnationNumber : ℤ)
    {pingReqMembers : List Address} (some : pingReqMembers ≠ []) :
    let reqs := sendPingReqs unreachableMember incarnationNumber pingReqMembers
    reqs.Waiting ∧ reqs.unreachableMember = unreachableMember ∧
      reqs.pingReqMembers = pingReqMembers ∧ reqs.errors = [] := by
  have asked : ¬ pingReqMembers.length = 0 := fun none => some (List.length_eq_zero_iff.mp none)
  simp only [sendPingReqs, if_neg asked]
  exact ⟨⟨rfl, rfl, rfl⟩, trivial, trivial, trivial⟩

section Verdict
variable {unreachableMember : Address} {incarnationNumber : ℤ} {pingReqMembers : List Address}
  {answers : List PingReqAnswer}

/-- A member that reaches the other one decides. -/
theorem called_of_reached (some : pingReqMembers ≠ [])
    (all : (answers.map PingReqAnswer.selected).Perm pingReqMembers)
    (reached : ∃ a ∈ answers, Reached unreachableMember a = true) :
    (answers.foldl answer
      (sendPingReqs unreachableMember incarnationNumber pingReqMembers)).Called [] := by
  obtain ⟨waiting, target, members, fresh⟩ :=
    waiting_sendPingReqs unreachableMember incarnationNumber some
  have count := all.length_eq
  rw [List.length_map] at count
  exact waiting.foldl_reached (by rw [fresh, members, count]; exact (Nat.zero_add _).le)
    (by rwa [target])

/-- An answer whose handler throws is missed at the end. -/
theorem waiting_of_breaks (some : pingReqMembers ≠ [])
    (all : (answers.map PingReqAnswer.selected).Perm pingReqMembers)
    (unreached : ∀ a ∈ answers, Reached unreachableMember a = false)
    (broken : ∃ a ∈ answers, a.breaks = true) :
    (answers.foldl answer
      (sendPingReqs unreachableMember incarnationNumber pingReqMembers)).Waiting := by
  obtain ⟨waiting, target, members, fresh⟩ :=
    waiting_sendPingReqs unreachableMember incarnationNumber some
  have count := all.length_eq
  rw [List.length_map] at count
  have few : answers.countP (Failed unreachableMember) < answers.length := by
    obtain ⟨a, ha, breaks⟩ := broken
    refine lt_of_le_of_ne List.countP_le_length fun failed => ?_
    have counted := not_failed_of_breaks ((breaks_eq unreachableMember a).trans breaks)
    cases counted.symm.trans (List.countP_eq_length.mp failed a ha)
  refine waiting.foldl_stuck (by rwa [target]) ?_
  rw [fresh, members, target, ← count, List.length_nil]
  omega

/-- After errors only, the member is suspected if one of them says or leaves out that the ping
failed. -/
theorem called_of_failed (some : pingReqMembers ≠ [])
    (all : (answers.map PingReqAnswer.selected).Perm pingReqMembers)
    (failed : ∀ a ∈ answers, Failed unreachableMember a = true) :
    ∃ suspects, (answers.foldl answer
        (sendPingReqs unreachableMember incarnationNumber pingReqMembers)).Called suspects ∧
      (unreachableMember ∈ suspects ↔
        ∃ a ∈ answers, a.response.denies = true ∨ a.response.silent = true) := by
  obtain ⟨waiting, target, members, fresh⟩ :=
    waiting_sendPingReqs unreachableMember incarnationNumber some
  have count := all.length_eq
  rw [List.length_map] at count
  have asked : answers ≠ [] := by
    rintro rfl
    exact some (List.length_eq_zero_iff.mp count.symm)
  have called := waiting.foldl_failed asked (by rw [fresh, members]; simpa using count)
    (by rwa [target])
  rw [target, PingReqs.accused, fresh, List.any_nil, Bool.false_or] at called
  have counts : answers.any (accuses unreachableMember) = true ↔
      ∃ a ∈ answers, a.response.denies = true ∨ a.response.silent = true := by
    rw [List.any_eq_true]
    refine exists_congr fun a => and_congr_right fun ha => ?_
    rw [accuses_eq (failed a ha), Bool.or_eq_true]
  refine ⟨_, called, ?_⟩
  rw [← counts]
  split
  case isTrue h => exact iff_of_true List.mem_cons_self h
  case isFalse h => exact iff_of_false List.not_mem_nil h

end Verdict

/-- Without a verdict the claim about it fails; with one, it holds unless all answers are
errors, none says that the ping failed, and one leaves the status of the ping out. -/
theorem sendPingReqs_accuses_iff (unreachableMember : Address) (incarnationNumber : ℤ)
    {pingReqMembers : List Address} (some : pingReqMembers ≠ []) {answers : List PingReqAnswer}
    (all : (answers.map PingReqAnswer.selected).Perm pingReqMembers) :
    let reqs :=
      answers.foldl answer (sendPingReqs unreachableMember incarnationNumber pingReqMembers)
    (reqs.results.length = 1 ∧
      (unreachableMember ∈ reqs.suspected.map Prod.fst ↔
        (∀ a ∈ answers, Failed unreachableMember a = true) ∧
          ∃ a ∈ answers, a.response.denies = true)) ↔
    (∃ a ∈ answers, a.response.confirms = true ∧ a.breaks = false) ∨
      (∀ a ∈ answers, a.breaks = false) ∧
        ¬ ((∃ a ∈ answers, a.response.silent = true) ∧
          ∀ a ∈ answers, a.response.denies = false) := by
  intro reqs
  have reaches : (∃ a ∈ answers, a.response.confirms = true ∧ a.breaks = false) ↔
      ∃ a ∈ answers, Reached unreachableMember a = true := by
    simp only [reached_eq, Bool.and_eq_true, Bool.not_eq_true']
  rw [reaches]
  by_cases reached : ∃ a ∈ answers, Reached unreachableMember a = true
  case pos =>
    have called : reqs.Called [] := called_of_reached some all reached
    refine iff_of_true ⟨called.results, ?_⟩ (.inl reached)
    rw [called.suspected]
    refine iff_of_false List.not_mem_nil fun ⟨failed, _⟩ => ?_
    obtain ⟨a, ha, first⟩ := reached
    cases first.symm.trans (not_reached_of_failed (failed a ha))
  case neg =>
    have unreached (a : PingReqAnswer) (ha : a ∈ answers) : Reached unreachableMember a = false :=
      Bool.eq_false_iff.mpr fun first => reached ⟨a, ha, first⟩
    rw [or_iff_right reached]
    by_cases broken : ∃ a ∈ answers, a.breaks = true
    case pos =>
      have stuck : reqs.Waiting := waiting_of_breaks some all unreached broken
      refine iff_of_false (fun ⟨once, _⟩ => ?_) fun ⟨whole, _⟩ => ?_
      · rw [stuck.results] at once
        cases once
      · obtain ⟨a, ha, breaks⟩ := broken
        cases breaks.symm.trans (whole a ha)
    case neg =>
      have whole (a : PingReqAnswer) (ha : a ∈ answers) : a.breaks = false :=
        Bool.eq_false_iff.mpr fun breaks => broken ⟨a, ha, breaks⟩
      have failed (a : PingReqAnswer) (ha : a ∈ answers) : Failed unreachableMember a = true := by
        rcases reached_or_failed_or_breaks unreachableMember a with reached | failed | breaks
        · cases (unreached a ha).symm.trans reached
        · exact failed
        · cases (whole a ha).symm.trans ((breaks_eq unreachableMember a).symm.trans breaks)
      obtain ⟨suspects, called, suspected⟩ : ∃ suspects, reqs.Called suspects ∧ _ :=
        called_of_failed some all failed
      rw [and_iff_right called.results, called.suspected, suspected, and_iff_right failed,
        and_iff_right whole]
      constructor
      · rintro same ⟨⟨a, ha, silent⟩, none⟩
        obtain ⟨b, hb, denies⟩ := same.mp ⟨a, ha, .inr silent⟩
        cases denies.symm.trans (none b hb)
      · intro clear
        constructor
        · rintro ⟨a, ha, denies | silent⟩
          · exact ⟨a, ha, denies⟩
          · by_contra none
            refine clear ⟨⟨a, ha, silent⟩, fun b hb => Bool.eq_false_iff.mpr fun denies => ?_⟩
            exact none ⟨b, hb, denies⟩
        · rintro ⟨a, ha, denies⟩
          exact ⟨a, ha, .inl denies⟩

theorem sendPingReqs_accuses_two :
    let b := Address.of "b:1" (by decide)
    let c := Address.of "c:1" (by decide)
    let body : Json := .object [(str "changes", .array []), (str "pingStatus", .bool false)]
    let d := Address.of "d:1" (by decide)
    let listed : ListedMembers := ⟨false, true, true⟩
    let answers : List PingReqAnswer :=
      [⟨c, .body (some body), listed, 3⟩, ⟨b, .error (str "timeout"), listed, 3⟩]
    let reqs := answers.foldl answer (sendPingReqs d 3 [b, c])
    reqs.results.length = 1 ∧ d ∈ reqs.suspected.map Prod.fst := by
  intro b c body d listed answers reqs
  have all : (answers.map PingReqAnswer.selected).Perm [b, c] := List.Perm.swap b c []
  obtain ⟨once, accuses⟩ :=
    (sendPingReqs_accuses_iff d 3 (List.cons_ne_nil b [c]) all).mpr (.inr (by decide))
  exact ⟨once, accuses.mpr (by decide)⟩

/-- A body without a `pingStatus` makes its target a suspect. -/
theorem sendPingReqs_accuses_silent :
    let b := Address.of "b:1" (by decide)
    let d := Address.of "d:1" (by decide)
    let body : Json := .object [(str "changes", .array [])]
    let answers : List PingReqAnswer := [⟨b, .body (some body), ⟨false, true, true⟩, 3⟩]
    let reqs := answers.foldl answer (sendPingReqs d 3 [b])
    ¬ (reqs.results.length = 1 ∧ (d ∈ reqs.suspected.map Prod.fst ↔
      (∀ a ∈ answers, Failed d a = true) ∧ ∃ a ∈ answers, a.response.denies = true)) := by
  decide

/-- Nobody calls back after a body whose `changes` is a number. -/
example :
    let b := Address.of "b:1" (by decide)
    let d := Address.of "d:1" (by decide)
    let body : Json := .object [(str "changes", .number 5), (str "pingStatus", .bool true)]
    let answers : List PingReqAnswer := [⟨b, .body (some body), ⟨false, true, true⟩, 3⟩]
    (answers.foldl answer (sendPingReqs d 3 [b])).results.length = 0 := by decide

end PingReqs
end Ringpop.Members
