import Ringpop.Damper
import Mathlib.Data.List.Induction

/-! The quorum of damping. A fan-out of damp-reqs ends with the first r responses, or with
the first error after which r of them cannot come any more; and a member is damped when
each of the r targets scores it above the limit. -/
namespace Ringpop.Members
open JsString Dictionary

/-- The targets that have succeeded, with their responses. -/
def succeeded (answers : List (Address × Option DampReqResult)) :
    List (Address × DampReqResult) :=
  answers.filterMap fun answer => answer.2.map fun res => (answer.1, res)

theorem succeeded_append (answers more : List (Address × Option DampReqResult)) :
    succeeded (answers ++ more) = succeeded answers ++ succeeded more :=
  List.filterMap_append

theorem length_succeeded_le (answers : List (Address × Option DampReqResult)) :
    (succeeded answers).length ≤ answers.length :=
  List.length_filterMap_le _ _

theorem succeeded_cons (addr : Address) (res : Option DampReqResult)
    (answers : List (Address × Option DampReqResult)) :
    (succeeded ((addr, res) :: answers)).map Prod.snd =
      res.toList ++ (succeeded answers).map Prod.snd := by
  cases res <;> rfl

theorem length_succeeded_cons (addr : Address) (res : Option DampReqResult)
    (answers : List (Address × Option DampReqResult)) :
    (succeeded ((addr, res) :: answers)).length =
      res.toList.length + (succeeded answers).length := by
  have values := congrArg List.length (succeeded_cons addr res answers)
  rwa [List.length_append, List.length_map, List.length_map] at values

theorem succeeded_sublist (answers : List (Address × Option DampReqResult)) :
    ((succeeded answers).map Prod.fst).Sublist (answers.map Prod.fst) := by
  induction answers with
  | nil => exact .slnil
  | cons answer answers ih =>
    obtain ⟨addr, _ | res⟩ := answer
    · exact ih.cons addr
    · exact ih.cons_cons addr

/-- The scores of a response. -/
def DampReqResult.scored (res : DampReqResult) : List DampScore := res.scores.getD []

/-- A response that scores a member at or above the limit. -/
def DampReqResult.scoresAbove (limit : ℤ) (a : Address) (res : DampReqResult) : Prop :=
  ∃ score ∈ res.scored, score.member = a ∧ ∃ dampScore ∈ score.dampScore, limit ≤ dampScore

section
variable {scores : List DampScore} {rs : List DampReqResult} {a : Address}

def scoresAbout (a : Address) (scores : List DampScore) : List DampScore :=
  scores.filter fun score => score.member = a

/-- The inner loop of `groupDampScoresByFlapper`. -/
def pushScore (grouped : Dict Address (List (Option ℤ))) (score : DampScore) :
    Dict Address (List (Option ℤ)) :=
  grouped.set score.member ((grouped.get score.member).getD [] ++ [score.dampScore])

theorem get_pushScores (scores : List DampScore) (a : Address) :
    (scores.foldl pushScore .empty).get a =
      if scoresAbout a scores = [] then none
      else some ((scoresAbout a scores).map DampScore.dampScore) := by
  induction scores using List.reverseRecOn with
  | nil => rfl
  | append_singleton scores score ih =>
    rw [List.foldl_concat, pushScore, Dict.get_set, scoresAbout, List.filter_append,
      ← scoresAbout]
    by_cases same : score.member = a
    · rw [if_pos same.symm, same, ih]
      by_cases none : scoresAbout a scores = [] <;> simp [none, same]
    · rw [if_neg (Ne.symm same), ih]
      simp [same]

theorem mem_getMembersToDamp (rVal : ℤ) (config : DamperConfig) :
    a ∈ getMembersToDamp rs rVal config ↔
      scoresAbout a (rs.flatMap DampReqResult.scored) ≠ [] ∧
      (scoresAbout a (rs.flatMap DampReqResult.scored)).length ≥ rVal ∧
      ∀ score ∈ scoresAbout a (rs.flatMap DampReqResult.scored),
        ∃ dampScore ∈ score.dampScore, config.dampScoringSuppressLimit ≤ dampScore := by
  have grouped : (groupDampScoresByFlapper rs).get a = _ :=
    get_pushScores (rs.flatMap DampReqResult.scored) a
  rw [getMembersToDamp, findFlappersToDamp, List.mem_filter, mem_objectKeys, Dict.has, grouped]
  split
  case isTrue none => simp [none]
  case isFalse some =>
    simp [some, haveAllScoresExceededLimit, Option.any_eq_true]

/-- Each response scores a member at most once, so r scores are one of each of r responses. -/
theorem scoresAbout_all (once : ∀ res ∈ rs, (res.scored.map DampScore.member).Nodup) :
    (scoresAbout a (rs.flatMap DampReqResult.scored)).length ≤ rs.length ∧
    (rs.length ≤ (scoresAbout a (rs.flatMap DampReqResult.scored)).length ↔
      ∀ res ∈ rs, ∃ score ∈ res.scored, score.member = a) := by
  induction rs with
  | nil => simp [scoresAbout]
  | cons res rs ih =>
    obtain ⟨once, others⟩ := List.forall_mem_cons.mp once
    obtain ⟨bound, all⟩ := ih others
    have single : (scoresAbout a res.scored).length ≤ 1 := by
      have count := List.nodup_iff_count_le_one.mp once a
      rw [List.count, List.countP_map, List.countP_eq_length_filter] at count
      exact count
    have some : 1 ≤ (scoresAbout a res.scored).length ↔ ∃ score ∈ res.scored, score.member = a := by
      simp [scoresAbout, Nat.one_le_iff_ne_zero]
    have split : scoresAbout a ((res :: rs).flatMap DampReqResult.scored) =
        scoresAbout a res.scored ++ scoresAbout a (rs.flatMap DampReqResult.scored) := by
      simp [scoresAbout]
    rw [split, List.length_append, List.length_cons, List.forall_mem_cons, ← some, ← all]
    omega

/-- With one response from each of r targets, only unanimous scores damp a member. -/
theorem mem_getMembersToDamp_iff {r : ℕ} (config : DamperConfig) (one : 1 ≤ r)
    (length : rs.length = r) (once : ∀ res ∈ rs, (res.scored.map DampScore.member).Nodup) :
    a ∈ getMembersToDamp rs r config ↔
      ∀ res ∈ rs, res.scoresAbove config.dampScoringSuppressLimit a := by
  obtain ⟨bound, all⟩ := scoresAbout_all (a := a) once
  rw [mem_getMembersToDamp]
  constructor
  · rintro ⟨-, enough, above⟩ res hr
    obtain ⟨score, hs, about⟩ := all.mp (by omega) res hr
    have listed : score ∈ scoresAbout a (rs.flatMap DampReqResult.scored) :=
      List.mem_filter.mpr ⟨List.mem_flatMap.mpr ⟨res, hr, hs⟩, by simpa using about⟩
    exact ⟨score, hs, about, above score listed⟩
  · intro above
    have enough := all.mpr fun res hr => by
      obtain ⟨score, hs, about, -⟩ := above res hr
      exact ⟨score, hs, about⟩
    refine ⟨List.ne_nil_of_length_pos (by omega), by omega, fun score listed => ?_⟩
    obtain ⟨member, about⟩ := List.mem_filter.mp listed
    obtain ⟨res, hr, hs⟩ := List.mem_flatMap.mp member
    obtain ⟨score', hs', about', exceeds⟩ := above res hr
    have same : score = score' := List.inj_on_of_nodup_map (once res hr) hs hs'
      ((by simpa using about : score.member = a).trans about'.symm)
    rw [same]
    exact exceeds

end

namespace Damper

/-- `_fanoutDampReqs` when it has sent its requests. -/
def fanoutDampReqs (flapperAddrs dampReqMembers : List Address) (rVal : ℤ) : Fanout where
  flapperAddrs := flapperAddrs
  rVal := rVal
  outstanding := dampReqMembers
  numPendingReqs := dampReqMembers.length
  results := []
  calledBack := false

/-- It is what `initiateSubprotocol` starts, unless it skips the subprotocol. -/
theorem initiateSubprotocol_fanout (config : DamperConfig) (m : Membership)
    (dampReqMembers : List Address) (d : Damper)
    (limits : d.validateDampedClusterLimits config m = true)
    (some_ : min config.dampReqRVal dampReqMembers.length ≠ 0) :
    (d.initiateSubprotocol config m dampReqMembers).fanouts.get d.nextFanout =
      some (fanoutDampReqs d.getFlapperAddrs dampReqMembers
        (min config.dampReqRVal dampReqMembers.length)) := by
  simp only [initiateSubprotocol, limits, Bool.not_true, Bool.false_eq_true, if_false, some_,
    Dict.get_set, if_true, fanoutDampReqs]

/-- What each answer makes a fan-out call its callback with. -/
def fanoutCalls : Fanout → List (Address × Option DampReqResult) →
    List (Option (Option (List DampReqResult)))
  | _, [] => []
  | fanout, answer :: rest =>
    let told := onDampReq fanout answer.1 answer.2
    told.2 :: fanoutCalls told.1 rest

/-- A single call, after `before` answers and before `after` more. -/
def callOnce (before after : ℕ) (result : Option (List DampReqResult)) :
    List (Option (Option (List DampReqResult))) :=
  List.replicate before none ++ some result :: List.replicate after none

theorem fanoutCalls_calledBack {fanout : Fanout} (called : fanout.calledBack = true)
    (answers : List (Address × Option DampReqResult)) :
    fanoutCalls fanout answers = List.replicate answers.length none := by
  induction answers generalizing fanout with
  | nil => rfl
  | cons answer answers ih =>
    have silent : onDampReq fanout answer.1 answer.2 =
        ({ fanout with outstanding := fanout.outstanding.erase answer.1 }, none) := by
      simp only [onDampReq, called, if_true]
    simp only [fanoutCalls, silent]
    rw [List.length_cons, List.replicate_succ, ih]
    exact called

/-- A fan-out that waits for `pending` answers and can still attain its r-value. -/
structure Waiting (r : ℕ) (pending : ℕ) (fanout : Fanout) : Prop where
  rVal : fanout.rVal = r
  open_ : fanout.calledBack = false
  counted : fanout.numPendingReqs = pending
  short : fanout.results.length < r
  possible : r ≤ fanout.results.length + pending

/-- An answer attains the r-value, makes it unattainable, or neither. -/
theorem Waiting.onDampReq {r pending : ℕ} {fanout : Fanout} (w : Waiting r (pending + 1) fanout)
    (addr : Address) (res : Option DampReqResult) :
    let results := fanout.results ++ res.toList
    let told := Damper.onDampReq fanout addr res
    results.length = r ∧ told.2 = some (some results) ∧ told.1.calledBack = true ∨
    results.length + pending < r ∧ told.2 = some none ∧ told.1.calledBack = true ∨
    told.2 = none ∧ told.1.results = results ∧ Waiting r pending told.1 := by
  intro results told
  have few : res.toList.length ≤ 1 := by cases res <;> simp
  have length : results.length = fanout.results.length + res.toList.length := List.length_append
  have short := w.short
  have rVal := w.rVal
  have counted := w.counted
  by_cases attained : r ≤ results.length
  · refine .inl ⟨by omega, ?_⟩
    have done : (results.length : ℤ) ≥ fanout.rVal := by omega
    simp only [told, Damper.onDampReq, w.open_, Bool.false_eq_true, if_false]
    rw [if_pos done]
    exact ⟨rfl, rfl⟩
  · refine .inr ?_
    have missing : ¬ (results.length : ℤ) ≥ fanout.rVal := by omega
    simp only [told, Damper.onDampReq, w.open_, Bool.false_eq_true, if_false]
    rw [if_neg missing]
    by_cases hopeless : results.length + pending < r
    · have unattainable : fanout.numPendingReqs - 1 < fanout.rVal - results.length := by omega
      rw [if_pos unattainable]
      exact .inl ⟨hopeless, rfl, rfl⟩
    · have attainable : ¬ fanout.numPendingReqs - 1 < fanout.rVal - results.length := by omega
      rw [if_neg attainable]
      have pending_ : fanout.numPendingReqs - 1 = pending := by omega
      exact .inr ⟨rfl, rfl, rVal, rfl, pending_, Nat.lt_of_not_le attained,
        Nat.le_of_not_lt hopeless⟩

/-- A fan-out calls back once: with r responses, or when it cannot get them any more. -/
theorem Waiting.calls {r : ℕ} {fanout : Fanout}
    {answers : List (Address × Option DampReqResult)} (w : Waiting r answers.length fanout) :
    ∃ before answer after result, answers = before ++ answer :: after ∧
      fanoutCalls fanout answers = callOnce before.length after.length result ∧
      fanout.results.length + (succeeded before).length < r ∧
      r ≤ fanout.results.length + (succeeded before).length + (after.length + 1) ∧
      (fanout.results.length + (succeeded (before ++ [answer])).length = r ∧
          result = some (fanout.results ++ (succeeded (before ++ [answer])).map Prod.snd) ∨
        fanout.results.length + (succeeded (before ++ [answer])).length + after.length < r ∧
          result = none) := by
  induction answers generalizing fanout with
  | nil =>
    have short := w.short
    have possible := w.possible
    rw [List.length_nil] at possible
    omega
  | cons answer answers ih =>
    obtain ⟨addr, res⟩ := answer
    have first : (succeeded [(addr, res)]).map Prod.snd = res.toList := by
      rw [succeeded_cons, succeeded, List.filterMap_nil, List.map_nil, List.append_nil]
    have count : (succeeded [(addr, res)]).length = res.toList.length :=
      length_succeeded_cons addr res []
    have short := w.short
    have possible := w.possible
    rw [List.length_cons] at possible
    rcases w.onDampReq addr res with ⟨attained, call, called⟩ | ⟨hopeless, call, called⟩ |
      ⟨call, results, waiting⟩
    · rw [List.length_append] at attained
      refine ⟨[], (addr, res), answers, _, rfl, ?_, short, possible, .inl ⟨?_, rfl⟩⟩
      · simp only [fanoutCalls, call, fanoutCalls_calledBack called, List.nil_append, first]
        rfl
      · rw [List.nil_append, count, attained]
    · rw [List.length_append] at hopeless
      refine ⟨[], (addr, res), answers, _, rfl, ?_, short, possible, .inr ⟨?_, rfl⟩⟩
      · simp only [fanoutCalls, call, fanoutCalls_calledBack called]
        rfl
      · rw [List.nil_append, count]
        exact hopeless
    · obtain ⟨before, answer, after, result, rfl, calls, missing, attainable, outcome⟩ := ih waiting
      simp only [results, List.length_append] at missing attainable outcome
      refine ⟨(addr, res) :: before, answer, after, result, rfl, ?_, ?_, ?_, ?_⟩
      · simp only [fanoutCalls, call, calls]
        rfl
      · rw [length_succeeded_cons]
        omega
      · rw [length_succeeded_cons]
        omega
      · rw [List.cons_append, length_succeeded_cons, succeeded_cons, ← List.append_assoc]
        refine outcome.imp ?_ ?_
        · rintro ⟨length, value⟩
          exact ⟨by omega, value⟩
        · rintro ⟨length, value⟩
          exact ⟨by omega, value⟩

theorem waiting_fanoutDampReqs (flapperAddrs : List Address) {targets : List Address} {r : ℕ}
    (one : 1 ≤ r) (enough : r ≤ targets.length) :
    Waiting r targets.length (fanoutDampReqs flapperAddrs targets r) where
  rVal := rfl
  open_ := rfl
  counted := rfl
  short := one
  possible := by
    rw [fanoutDampReqs, List.length_nil, Nat.zero_add]
    exact enough

/-- Answers that have not come yet may all be successes. -/
theorem possible_of_prefix {r rest : ℕ} {earlier before : List (Address × Option DampReqResult)}
    (h : earlier <+: before) (possible : r ≤ (succeeded before).length + rest) :
    r ≤ (succeeded earlier).length + (before.length - earlier.length + rest) := by
  obtain ⟨more, rfl⟩ := h
  have bound := length_succeeded_le more
  rw [succeeded_append, List.length_append] at possible
  rw [List.length_append]
  omega

/-- Damping needs a quorum: one call, and a member is picked by all of r targets. -/
theorem fanout_quorum (config : DamperConfig) (flapperAddrs : List Address)
    {targets : List Address} {r : ℕ} (one : 1 ≤ r) (enough : r ≤ targets.length)
    (distinct : targets.Nodup) {answers : List (Address × Option DampReqResult)}
    (each : (answers.map Prod.fst).Perm targets)
    (once : ∀ answer ∈ answers, ∀ res ∈ answer.2, (res.scored.map DampScore.member).Nodup) :
    ∃ before answer after result, answers = before ++ answer :: after ∧
      fanoutCalls (fanoutDampReqs flapperAddrs targets r) answers =
        callOnce before.length after.length result ∧
      (r ≤ (succeeded answers).length →
        (succeeded before).length < r ∧
        succeeded (before ++ [answer]) = (succeeded answers).take r ∧
        result = some (((succeeded answers).take r).map Prod.snd) ∧
        ((succeeded answers).take r).length = r ∧
        (((succeeded answers).take r).map Prod.fst).Nodup ∧
        ∀ a, a ∈ getMembersToDamp (((succeeded answers).take r).map Prod.snd) r config ↔
          ∀ target ∈ (succeeded answers).take r,
            target.2.scoresAbove config.dampScoringSuppressLimit a) ∧
      ((succeeded answers).length < r →
        result = none ∧ (succeeded (before ++ [answer])).length + after.length < r ∧
        ∀ earlier, earlier <+: before →
          r ≤ (succeeded earlier).length + (answers.length - earlier.length)) := by
  have length : answers.length = targets.length := by rw [← each.length_eq, List.length_map]
  have waiting := waiting_fanoutDampReqs flapperAddrs one enough
  rw [← length] at waiting
  obtain ⟨before, answer, after, result, split, calls, short, possible, outcome⟩ := waiting.calls
  have whole : succeeded answers = succeeded (before ++ [answer]) ++ succeeded after := by
    rw [← succeeded_append, List.append_assoc, List.singleton_append, ← split]
  have bound := length_succeeded_le after
  have total : (succeeded answers).length =
      (succeeded (before ++ [answer])).length + (succeeded after).length := by
    rw [whole, List.length_append]
  simp only [fanoutDampReqs, List.length_nil, Nat.zero_add, List.nil_append]
    at short possible outcome
  refine ⟨before, answer, after, result, split, calls, fun many => ?_, fun few => ?_⟩
  · rcases outcome with ⟨attained, value⟩ | ⟨hopeless, -⟩
    · have first : (succeeded answers).take r = succeeded (before ++ [answer]) := by
        rw [whole, ← attained, List.take_left]
      have nodup : ((succeeded answers).map Prod.fst).Nodup :=
        (succeeded_sublist answers).nodup (each.nodup_iff.mpr distinct)
      rw [first]
      have once' : ∀ res ∈ (succeeded (before ++ [answer])).map Prod.snd,
          (res.scored.map DampScore.member).Nodup := by
        intro res hr
        obtain ⟨target, ht, rfl⟩ := List.mem_map.mp hr
        obtain ⟨told, member, some⟩ := List.mem_filterMap.mp ht
        obtain ⟨res, given, rfl⟩ := Option.map_eq_some_iff.mp some
        exact once told (by rw [split]; simp at member ⊢; tauto) res given
      refine ⟨short, rfl, value, attained, ?_, fun a => ?_⟩
      · rw [← first, List.map_take]
        exact (List.take_sublist r _).nodup nodup
      · rw [mem_getMembersToDamp_iff config one (by rw [List.length_map, attained]) once',
          List.forall_mem_map]
    · omega
  · rcases outcome with ⟨attained, -⟩ | ⟨hopeless, value⟩
    · omega
    · refine ⟨value, hopeless, fun earlier h => ?_⟩
      have waits := possible_of_prefix h possible
      have inside := h.length_le
      rw [split, List.length_append, List.length_cons]
      omega

/-- One target fails, and the other two agree about one of two flappers. -/
theorem fanout_quorum_two_of_three :
    let a := Address.of "a:1" (by decide)
    let b := Address.of "b:1" (by decide)
    let c := Address.of "c:1" (by decide)
    let x := Address.of "x:1" (by decide)
    let y := Address.of "y:1" (by decide)
    let config : DamperConfig := ⟨10, 2, 60000, 5000⟩
    let answers : List (Address × Option DampReqResult) :=
      [(b, some ⟨some [⟨x, some 7000⟩, ⟨y, some 5000⟩]⟩), (a, none),
        (c, some ⟨some [⟨y, some 100⟩, ⟨x, some 5000⟩]⟩)]
    ∃ before answer after result, answers = before ++ answer :: after ∧
      fanoutCalls (fanoutDampReqs [x, y] [a, b, c] 2) answers =
        callOnce before.length after.length result ∧
      ∃ results, result = some results ∧ getMembersToDamp results 2 config = [x] := by
  intro a b c x y config answers
  have each : (answers.map Prod.fst).Perm [a, b, c] := by decide
  have once : ∀ answer ∈ answers, ∀ res ∈ answer.2, (res.scored.map DampScore.member).Nodup := by
    simp only [answers, List.forall_mem_cons, Option.mem_def, Option.some.injEq, forall_eq']
    decide
  obtain ⟨before, answer, after, result, split, calls, many, -⟩ := fanout_quorum config [x, y]
    (r := 2) (by decide) (by decide) (by decide) each once
  exact ⟨before, answer, after, result, split, calls, _, (many (by decide)).2.2.1, by decide⟩

end Damper
end Ringpop.Members
