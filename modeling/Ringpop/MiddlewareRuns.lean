import Ringpop.Middleware
import Mathlib.Algebra.Order.Group.Int
import Mathlib.Logic.Function.Iterate

/-! `MiddlewareStack.run` with methods that call back when they please: one index counts up
through the requests and down through the responses, from one callback to the next. -/
namespace Ringpop.Middlewares

/-- Either method may be missing. A method calls back once, with what it returns here; `W` is
all else that it reads and changes, the request object included. -/
structure CallbackMiddleware (W Req Arg Err Res : Type) where
  request : Option (Req → Arg → Arg → StateM W (Arg × Arg))
  response : Option (Req → Err → Res → Res → StateM W (Err × Res × Res))

inductive Callee where
  | request (i : ℕ)
  | handler
  | response (i : ℕ)
  | callback
deriving DecidableEq

/-- What a function is called with, after the request. -/
inductive Passed (Arg Err Res : Type) where
  | arguments (arg2 arg3 : Arg)
  | results (err : Err) (res1 res2 : Res)

/-- A method or a handler that has been called, under the name of its callback. -/
inductive Pending (W Arg Err Res : Type) where
  | callRequestMiddleware (called : StateM W (Arg × Arg))
  | callResponseMiddleware (called : StateM W (Err × Res × Res))

/-- The last two fields are a history: the calls, and what was called back with. -/
structure StackRun (W Arg Err Res : Type) where
  i : ℤ
  world : W
  pending : Option (Pending W Arg Err Res)
  calls : List (Callee × Passed Arg Err Res)
  replies : List (Passed Arg Err Res)

variable {W Req Arg Err Res : Type}

section
variable (middlewares : List (CallbackMiddleware W Req Arg Err Res)) (req : Req)
  (handler : Req → Arg → Arg → StateM W (Err × Res × Res))

namespace StackRun

def callRequestMiddleware (s : StackRun W Arg Err Res) (arg2 arg3 : Arg) :
    StackRun W Arg Err Res :=
  let i := s.i + 1
  if _ : i < middlewares.length then
    match middlewares[i.toNat]?.bind CallbackMiddleware.request with
    | some next =>
      { s with
        i := i
        pending := some (.callRequestMiddleware (next req arg2 arg3))
        calls := s.calls ++ [(.request i.toNat, .arguments arg2 arg3)] }
    | none => callRequestMiddleware { s with i := i } arg2 arg3
  else
    { s with
      i := i
      pending := some (.callResponseMiddleware (handler req arg2 arg3))
      calls := s.calls ++ [(.handler, .arguments arg2 arg3)] }
termination_by (middlewares.length - s.i).toNat

def callResponseMiddleware (s : StackRun W Arg Err Res) (err : Err) (res1 res2 : Res) :
    StackRun W Arg Err Res :=
  let i := s.i - 1
  if _ : i ≥ 0 then
    match middlewares[i.toNat]?.bind CallbackMiddleware.response with
    | some next =>
      { s with
        i := i
        pending := some (.callResponseMiddleware (next req err res1 res2))
        calls := s.calls ++ [(.response i.toNat, .results err res1 res2)] }
    | none => callResponseMiddleware { s with i := i } err res1 res2
  else
    { s with
      i := i
      pending := none
      calls := s.calls ++ [(.callback, .results err res1 res2)] }
termination_by s.i.toNat

/-- What has been called calls back. -/
def callBack (s : StackRun W Arg Err Res) : StackRun W Arg Err Res :=
  match s.pending with
  | none => s
  | some (.callRequestMiddleware called) =>
    let ((arg2, arg3), world) := called.run s.world
    callRequestMiddleware middlewares req handler
      { s with world := world, replies := s.replies ++ [.arguments arg2 arg3] } arg2 arg3
  | some (.callResponseMiddleware called) =>
    let ((err, res1, res2), world) := called.run s.world
    callResponseMiddleware middlewares req
      { s with world := world, replies := s.replies ++ [.results err res1 res2] } err res1 res2

/-- `run`, up to the first function that is called. -/
def start (world : W) (arg2 arg3 : Arg) : StackRun W Arg Err Res :=
  callRequestMiddleware middlewares req handler ⟨-1, world, none, [], []⟩ arg2 arg3

/-- A run after `n` callbacks. -/
def after (world : W) (arg2 arg3 : Arg) (n : ℕ) : StackRun W Arg Err Res :=
  (callBack middlewares req handler)^[n] (start middlewares req handler world arg2 arg3)

end StackRun
end

namespace CallbackMiddleware

/-- A missing method passes on what it is given. -/
def onRequest (m : CallbackMiddleware W Req Arg Err Res) (req : Req) (arg2 arg3 : Arg) :
    StateM W (Arg × Arg) :=
  match m.request with
  | none => pure (arg2, arg3)
  | some next => next req arg2 arg3

def onResponse (m : CallbackMiddleware W Req Arg Err Res) (req : Req) (out : Err × Res × Res) :
    StateM W (Err × Res × Res) :=
  match m.response with
  | none => pure out
  | some next => next req out.1 out.2.1 out.2.2

/-- A middleware around what is inside of it. -/
def around (req : Req) (m : CallbackMiddleware W Req Arg Err Res)
    (inner : Arg → Arg → StateM W (Err × Res × Res)) (arg2 arg3 : Arg) :
    StateM W (Err × Res × Res) := do
  let passed ← m.onRequest req arg2 arg3
  let out ← inner passed.1 passed.2
  m.onResponse req out

/-- The composition of a stack with a handler inside. -/
def compose (req : Req) (middlewares : List (CallbackMiddleware W Req Arg Err Res))
    (inner : Arg → Arg → StateM W (Err × Res × Res)) : Arg → Arg → StateM W (Err × Res × Res) :=
  middlewares.foldr (around req) inner

end CallbackMiddleware

/-- The calls of a run: the request methods, the handler, the response methods in the opposite
order, the callback. -/
def order (middlewares : List (CallbackMiddleware W Req Arg Err Res)) : List Callee :=
  (middlewares.zipIdx.filterMap fun m => m.1.request.map fun _ => .request m.2) ++ [.handler] ++
    (middlewares.zipIdx.filterMap fun m => m.1.response.map fun _ => .response m.2).reverse ++
    [.callback]

namespace StackRun
open CallbackMiddleware
variable (middlewares : List (CallbackMiddleware W Req Arg Err Res)) (req : Req)
  (handler : Req → Arg → Arg → StateM W (Err × Res × Res))

/-- The request methods from `k` on, in the order of the stack. -/
def requestsFrom (k : ℕ) : List Callee :=
  ((middlewares.drop k).zipIdx k).filterMap fun m => m.1.request.map fun _ => .request m.2

/-- The response methods before `k`, in the opposite order. -/
def responsesBelow (k : ℕ) : List Callee :=
  ((middlewares.take k).zipIdx.filterMap fun m =>
    m.1.response.map fun _ => Callee.response m.2).reverse

/-- The response methods before `k`, one after the other. -/
def unwind : ℕ → Err × Res × Res → StateM W (Err × Res × Res)
  | 0, out => pure out
  | k + 1, out =>
    match middlewares[k]? with
    | none => unwind k out
    | some m => do
      let out ← m.onResponse req out
      unwind k out

/-- Where a run stands: the calls that are left, and what the callback will be called with. -/
inductive At (s : StackRun W Arg Err Res) : List Callee → (Err × Res × Res) × W → Prop
  | request {k : ℕ} {called : StateM W (Arg × Arg)} (index : s.i = k)
      (inside : k < middlewares.length)
      (pending : s.pending = some (.callRequestMiddleware called)) :
      At s (requestsFrom middlewares (k + 1) ++ .handler ::
          (responsesBelow middlewares middlewares.length ++ [.callback]))
        ((do
          let passed ← called
          let out ← compose req (middlewares.drop (k + 1)) (handler req) passed.1 passed.2
          unwind middlewares req (k + 1) out : StateM W (Err × Res × Res)).run s.world)
  | response {k : ℕ} {called : StateM W (Err × Res × Res)} (index : s.i = k)
      (inside : k ≤ middlewares.length)
      (pending : s.pending = some (.callResponseMiddleware called)) :
      At s (responsesBelow middlewares k ++ [.callback])
        ((called >>= unwind middlewares req k).run s.world)
  | done {err : Err} {res1 res2 : Res} (pending : s.pending = none)
      (last : s.calls.getLast? = some (.callback, .results err res1 res2)) :
      At s [] ((err, res1, res2), s.world)

variable {middlewares req handler} {s : StackRun W Arg Err Res}

theorem requestsFrom_of_lt {k : ℕ} (h : k < middlewares.length) :
    requestsFrom middlewares k =
      (middlewares[k].request.map fun _ => Callee.request k).toList ++
        requestsFrom middlewares (k + 1) := by
  rw [requestsFrom, List.drop_eq_getElem_cons h, List.zipIdx_cons, List.filterMap_cons]
  cases middlewares[k].request <;> rfl

theorem responsesBelow_of_lt {k : ℕ} (h : k < middlewares.length) :
    responsesBelow middlewares (k + 1) =
      (middlewares[k].response.map fun _ => Callee.response k).toList ++
        responsesBelow middlewares k := by
  rw [responsesBelow, List.take_succ_eq_append_getElem h, List.zipIdx_append,
    List.filterMap_append, List.reverse_append]
  have length : (middlewares.take k).length = k := List.length_take_of_le h.le
  simp only [List.zipIdx_singleton, length, Nat.zero_add]
  cases response : middlewares[k].response <;> simp [response, responsesBelow]

theorem compose_of_lt {k : ℕ} (h : k < middlewares.length) (arg2 arg3 : Arg) :
    compose req (middlewares.drop k) (handler req) arg2 arg3 >>= unwind middlewares req k =
      (do
        let passed ← middlewares[k].onRequest req arg2 arg3
        let out ← compose req (middlewares.drop (k + 1)) (handler req) passed.1 passed.2
        unwind middlewares req (k + 1) out) := by
  rw [List.drop_eq_getElem_cons h, compose, List.foldr_cons, around]
  simp only [bind_assoc, unwind, List.getElem?_eq_getElem h]
  rfl

theorem compose_all (arg2 arg3 : Arg) :
    compose req (middlewares.drop middlewares.length) (handler req) arg2 arg3 =
      handler req arg2 arg3 := by
  rw [List.drop_length]
  rfl

theorem callRequestMiddleware_over (ended : s.i + 1 = middlewares.length) (arg2 arg3 : Arg) :
    callRequestMiddleware middlewares req handler s arg2 arg3 =
      { s with
        i := middlewares.length
        pending := some (.callResponseMiddleware (handler req arg2 arg3))
        calls := s.calls ++ [(.handler, .arguments arg2 arg3)] } := by
  rw [callRequestMiddleware]
  simp only [ended, lt_self_iff_false, dite_false]

theorem callRequestMiddleware_of_lt {k : ℕ} (here : k < middlewares.length) (index : s.i + 1 = k)
    (arg2 arg3 : Arg) :
    callRequestMiddleware middlewares req handler s arg2 arg3 =
      match middlewares[k].request with
      | some next =>
        { s with
          i := k
          pending := some (.callRequestMiddleware (next req arg2 arg3))
          calls := s.calls ++ [(.request k, .arguments arg2 arg3)] }
      | none => callRequestMiddleware middlewares req handler { s with i := k } arg2 arg3 := by
  have within : (k : ℤ) < middlewares.length := by omega
  rw [callRequestMiddleware]
  simp only [index, within, dite_true, Int.toNat_natCast, List.getElem?_eq_getElem here,
    Option.bind_some]

variable (req handler) in
/-- The next call of a run that goes inwards, from the index before `k`. -/
theorem at_callRequestMiddleware {k : ℕ} (inside : k ≤ middlewares.length) (index : s.i + 1 = k)
    (arg2 arg3 : Arg) :
    let s' := callRequestMiddleware middlewares req handler s arg2 arg3
    ∃ callee left, requestsFrom middlewares k ++ .handler ::
        (responsesBelow middlewares middlewares.length ++ [.callback]) = callee :: left ∧
      s'.calls = s.calls ++ [(callee, .arguments arg2 arg3)] ∧ s'.replies = s.replies ∧
      At middlewares req handler s' left
        ((compose req (middlewares.drop k) (handler req) arg2 arg3 >>=
          unwind middlewares req k).run s.world) := by
  induction left : middlewares.length - k generalizing k s with
  | zero =>
    obtain rfl : k = middlewares.length := by omega
    have none : requestsFrom middlewares middlewares.length = [] := by
      rw [requestsFrom, List.drop_length]
      rfl
    rw [none, callRequestMiddleware_over index, compose_all]
    exact ⟨.handler, _, rfl, rfl, rfl, .response rfl (Nat.le_refl _) rfl⟩
  | succ n ih =>
    have here : k < middlewares.length := by omega
    rw [compose_of_lt here, requestsFrom_of_lt here, callRequestMiddleware_of_lt here index]
    cases request : middlewares[k].request with
    | none =>
      have pass : middlewares[k].onRequest req arg2 arg3 = pure (arg2, arg3) := by
        rw [onRequest, request]
      rw [pass, pure_bind]
      exact ih (k := k + 1) (s := { s with i := k }) here rfl (by omega)
    | some next =>
      have pass : middlewares[k].onRequest req arg2 arg3 = next req arg2 arg3 := by
        rw [onRequest, request]
      rw [pass]
      exact ⟨.request k, _, rfl, rfl, rfl, .request rfl here rfl⟩

theorem callResponseMiddleware_over (ended : s.i = 0) (err : Err) (res1 res2 : Res) :
    callResponseMiddleware middlewares req s err res1 res2 =
      { s with
        i := -1
        pending := none
        calls := s.calls ++ [(.callback, .results err res1 res2)] } := by
  rw [callResponseMiddleware]
  simp [ended]

theorem callResponseMiddleware_of_lt {k : ℕ} (here : k < middlewares.length) (index : s.i = k + 1)
    (err : Err) (res1 res2 : Res) :
    callResponseMiddleware middlewares req s err res1 res2 =
      match middlewares[k].response with
      | some next =>
        { s with
          i := k
          pending := some (.callResponseMiddleware (next req err res1 res2))
          calls := s.calls ++ [(.response k, .results err res1 res2)] }
      | none => callResponseMiddleware middlewares req { s with i := k } err res1 res2 := by
  have before : s.i - 1 = k := by omega
  rw [callResponseMiddleware]
  simp only [before, ge_iff_le, Int.natCast_nonneg, dite_true, Int.toNat_natCast,
    List.getElem?_eq_getElem here, Option.bind_some]

variable (req handler) in
/-- The next call of a run that goes outwards, from the index `k`. -/
theorem at_callResponseMiddleware {k : ℕ} (inside : k ≤ middlewares.length) (index : s.i = k)
    (err : Err) (res1 res2 : Res) :
    let s' := callResponseMiddleware middlewares req s err res1 res2
    ∃ callee left, responsesBelow middlewares k ++ [.callback] = callee :: left ∧
      s'.calls = s.calls ++ [(callee, .results err res1 res2)] ∧ s'.replies = s.replies ∧
      At middlewares req handler s' left
        ((unwind middlewares req k (err, res1, res2)).run s.world) := by
  induction k generalizing s with
  | zero =>
    rw [callResponseMiddleware_over index]
    exact ⟨.callback, [], rfl, rfl, rfl, .done rfl (List.getLast?_concat ..)⟩
  | succ k ih =>
    rw [responsesBelow_of_lt inside, callResponseMiddleware_of_lt inside index]
    simp only [unwind, List.getElem?_eq_getElem inside]
    cases response : middlewares[k].response with
    | none =>
      have pass : middlewares[k].onResponse req (err, res1, res2) = pure (err, res1, res2) := by
        rw [onResponse, response]
      rw [pass, pure_bind]
      exact ih (s := { s with i := k }) (Nat.le_of_succ_le inside) rfl
    | some next =>
      have pass : middlewares[k].onResponse req (err, res1, res2) = next req err res1 res2 := by
        rw [onResponse, response]
      rw [pass]
      exact ⟨.response k, _, rfl, rfl, rfl, .response rfl (Nat.le_of_succ_le inside) rfl⟩

theorem callBack_request {called : StateM W (Arg × Arg)}
    (pending : s.pending = some (.callRequestMiddleware called)) :
    callBack middlewares req handler s =
      let told := called.run s.world
      callRequestMiddleware middlewares req handler
        { s with
          world := told.2
          replies := s.replies ++ [.arguments told.1.1 told.1.2] } told.1.1 told.1.2 := by
  obtain ⟨i, world, waiting, calls, replies⟩ := s
  subst pending
  rfl

theorem callBack_response {called : StateM W (Err × Res × Res)}
    (pending : s.pending = some (.callResponseMiddleware called)) :
    callBack middlewares req handler s =
      let told := called.run s.world
      callResponseMiddleware middlewares req
        { s with
          world := told.2
          replies := s.replies ++ [.results told.1.1 told.1.2.1 told.1.2.2] }
        told.1.1 told.1.2.1 told.1.2.2 := by
  obtain ⟨i, world, waiting, calls, replies⟩ := s
  subst pending
  rfl

/-- A callback makes the next call, with what was called back with. -/
theorem At.callBack {callee : Callee} {left : List Callee} {outcome : (Err × Res × Res) × W}
    (at_ : At middlewares req handler s (callee :: left) outcome) :
    let s' := callBack middlewares req handler s
    s.pending.isSome ∧ ∃ passed, s'.calls = s.calls ++ [(callee, passed)] ∧
      s'.replies = s.replies ++ [passed] ∧ At middlewares req handler s' left outcome := by
  generalize whole : callee :: left = all at at_
  cases at_ with
  | @request k called index inside pending =>
    rw [callBack_request pending]
    generalize waiting : ({ s with
      world := (called.run s.world).2
      replies := s.replies ++ [.arguments (called.run s.world).1.1 (called.run s.world).1.2] } :
      StackRun W Arg Err Res) = s₁
    have next : s₁.i + 1 = (k + 1 : ℕ) := by
      rw [← waiting]
      simp [index]
    obtain ⟨callee', left', split, calls, replies, at_'⟩ := at_callRequestMiddleware req handler
      (s := s₁) (k := k + 1) inside next
      (called.run s.world).1.1 (called.run s.world).1.2
    obtain ⟨rfl, rfl⟩ := List.cons.inj (whole.trans split)
    subst waiting
    exact ⟨by rw [pending]; rfl, _, calls, replies, at_'⟩
  | @response k called index inside pending =>
    rw [callBack_response pending]
    obtain ⟨callee', left', split, calls, replies, at_'⟩ := at_callResponseMiddleware req handler
      (s := { s with
        world := (called.run s.world).2
        replies := s.replies ++ [.results (called.run s.world).1.1 (called.run s.world).1.2.1
          (called.run s.world).1.2.2] })
      inside index (called.run s.world).1.1
      (called.run s.world).1.2.1 (called.run s.world).1.2.2
    obtain ⟨rfl, rfl⟩ := List.cons.inj (whole.trans split)
    exact ⟨by rw [pending]; rfl, _, calls, replies, at_'⟩
  | done => cases whole

/-- With no call left, the callback has been called. -/
theorem At.finished {outcome : (Err × Res × Res) × W}
    (at_ : At middlewares req handler s [] outcome) :
    s.pending = none ∧ ∃ err res1 res2,
      s.calls.getLast? = some (.callback, .results err res1 res2) ∧
        ((err, res1, res2), s.world) = outcome := by
  generalize none : ([] : List Callee) = all at at_
  cases at_ with
  | request => simp at none
  | response => simp at none
  | done pending last => exact ⟨pending, _, _, _, last, rfl⟩

/-- After `n` callbacks the first `n + 1` calls have been made. -/
theorem At.iterate {first : Callee} {passed : Passed Arg Err Res} {left : List Callee}
    {outcome : (Err × Res × Res) × W} (at_ : At middlewares req handler s left outcome)
    (calls : s.calls = [(first, passed)]) (replies : s.replies = []) {n : ℕ}
    (h : n ≤ left.length) :
    let s' := (StackRun.callBack middlewares req handler)^[n] s
    s'.calls.map Prod.fst = (first :: left).take (n + 1) ∧
      s'.calls.map Prod.snd = passed :: s'.replies ∧
      At middlewares req handler s' (left.drop n) outcome := by
  induction n with
  | zero =>
    refine ⟨?_, ?_, at_⟩
    · simp [calls]
    · simp [calls, replies]
  | succ n ih =>
    obtain ⟨callees, values, here⟩ := ih (Nat.le_of_succ_le h)
    rw [List.drop_eq_getElem_cons h] at here
    obtain ⟨-, passed', calls', replies', next⟩ := here.callBack
    simp only [Function.iterate_succ', Function.comp_apply] at calls' replies' next ⊢
    refine ⟨?_, ?_, next⟩
    · rw [calls', List.map_append, callees, List.take_succ_cons, List.take_succ_cons,
        List.take_succ_eq_append_getElem h]
      rfl
    · rw [calls', replies', List.map_append, values]
      rfl

end StackRun

namespace CallbackMiddleware
variable {req : Req} {inner : Arg → Arg → StateM W (Err × Res × Res)}

/-- A middleware with the identity for each method that is missing. -/
def filled (m : CallbackMiddleware W Req Arg Err Res) : CallbackMiddleware W Req Arg Err Res where
  request := some fun req arg2 arg3 => m.onRequest req arg2 arg3
  response := some fun req err res1 res2 => m.onResponse req (err, res1, res2)

theorem compose_filled (middlewares : List (CallbackMiddleware W Req Arg Err Res)) :
    compose req (middlewares.map filled) inner = compose req middlewares inner := by
  rw [compose, List.foldr_map]
  rfl

/-- A stack inside of another one. -/
theorem compose_append (outer inside : List (CallbackMiddleware W Req Arg Err Res)) :
    compose req (outer ++ inside) inner = compose req outer (compose req inside inner) :=
  List.foldr_append

end CallbackMiddleware

open CallbackMiddleware

/-- A stack is the composition of its methods around the handler: each of them is called once,
in order, with what the call before it has passed on. -/
theorem run_composes (middlewares : List (CallbackMiddleware W Req Arg Err Res)) (req : Req)
    (handler : Req → Arg → Arg → StateM W (Err × Res × Res)) (world : W) (arg2 arg3 : Arg) :
    let after := StackRun.after middlewares req handler world arg2 arg3
    let last := (order middlewares).length - 1
    (∀ n ≤ last, (after n).calls.map Prod.fst = (order middlewares).take (n + 1) ∧
      (after n).calls.map Prod.snd = .arguments arg2 arg3 :: (after n).replies ∧
      ((after n).pending.isSome ↔ n < last)) ∧
    (∃ err res1 res2, (after last).calls.getLast? = some (.callback, .results err res1 res2) ∧
      ((err, res1, res2), (after last).world) =
        (compose req middlewares (handler req) arg2 arg3).run world) ∧
    compose req (middlewares.map filled) (handler req) =
      compose req middlewares (handler req) ∧
    ∀ outer inside, middlewares = outer ++ inside → compose req middlewares (handler req) =
      compose req outer (compose req inside (handler req)) := by
  intro after last
  obtain ⟨first, left, whole, calls, replies, at_⟩ := StackRun.at_callRequestMiddleware req handler
    (s := ⟨-1, world, none, [], []⟩) (k := 0) (Nat.zero_le middlewares.length) rfl arg2 arg3
  have all : order middlewares = first :: left := by
    rw [← whole, order, StackRun.requestsFrom, StackRun.responsesBelow, List.drop_zero,
      List.take_length, List.append_assoc, List.append_assoc]
    rfl
  have length : last = left.length := by
    change (order middlewares).length - 1 = _
    rw [all, List.length_cons, Nat.add_sub_cancel]
  have outcome (arg2 arg3 : Arg) :
      compose req (middlewares.drop 0) (handler req) arg2 arg3 >>=
        StackRun.unwind middlewares req 0 = compose req middlewares (handler req) arg2 arg3 := by
    rw [List.drop_zero]
    exact bind_pure _
  rw [outcome] at at_
  rw [all, length]
  refine ⟨fun n hn => ?_, ?_, compose_filled middlewares, fun outer inside split => ?_⟩
  · obtain ⟨callees, values, here⟩ := at_.iterate calls replies hn
    refine ⟨callees, values, ?_⟩
    rcases hn.lt_or_eq with before | rfl
    · rw [List.drop_eq_getElem_cons before] at here
      exact iff_of_true here.callBack.1 before
    · rw [List.drop_length] at here
      have idle : (after left.length).pending = none := here.finished.1
      exact iff_of_false (by rw [idle]; exact Bool.false_ne_true) (Nat.lt_irrefl _)
  · obtain ⟨-, -, here⟩ := at_.iterate calls replies (Nat.le_refl left.length)
    rw [List.drop_length] at here
    exact here.finished.2
  · rw [split, compose_append]

/-! Methods that share nothing: the run is the one of `MiddlewareStack.run`. -/

namespace CallbackMiddleware
variable {req : Req}

/-- The middleware as one that calls back at once. -/
def atOnce (m : CallbackMiddleware Unit Req Arg Err Res) : Middleware Req Arg Err Res where
  request := m.request.map fun next req arg2 arg3 => some ((next req arg2 arg3).run ()).1
  response := m.response.map fun next req err res1 res2 =>
    some ((next req err res1 res2).run ()).1

/-- The request methods, one after the other. -/
def inwards (req : Req) (middlewares : List (CallbackMiddleware W Req Arg Err Res))
    (passed : Arg × Arg) : StateM W (Arg × Arg) :=
  match middlewares with
  | [] => pure passed
  | m :: rest => do
    let passed ← m.onRequest req passed.1 passed.2
    inwards req rest passed

variable (req) in
theorem compose_drop (middlewares : List (CallbackMiddleware W Req Arg Err Res))
    (handler : Req → Arg → Arg → StateM W (Err × Res × Res)) {k : ℕ}
    (inside : k ≤ middlewares.length) (arg2 arg3 : Arg) :
    compose req (middlewares.drop k) (handler req) arg2 arg3 >>=
        StackRun.unwind middlewares req k =
      (do
        let passed ← inwards req (middlewares.drop k) (arg2, arg3)
        let out ← handler req passed.1 passed.2
        StackRun.unwind middlewares req middlewares.length out) := by
  induction left : middlewares.length - k generalizing k arg2 arg3 with
  | zero =>
    obtain rfl : k = middlewares.length := by omega
    rw [StackRun.compose_all, List.drop_length, inwards, pure_bind]
  | succ n ih =>
    have here : k < middlewares.length := by omega
    rw [StackRun.compose_of_lt here, List.drop_eq_getElem_cons here, inwards, bind_assoc]
    exact bind_congr fun passed => ih here passed.1 passed.2 (by omega)

theorem callRequestMiddleware_atOnce
    (middlewares : List (CallbackMiddleware Unit Req Arg Err Res)) (arg2 arg3 : Arg) :
    MiddlewareStack.callRequestMiddleware req (middlewares.map atOnce) arg2 arg3 =
      some ((inwards req middlewares (arg2, arg3)).run ()).1 := by
  induction middlewares generalizing arg2 arg3 with
  | nil => rfl
  | cons m rest ih =>
    obtain ⟨_ | request, response⟩ := m
    · exact ih arg2 arg3
    · exact ih _ _

theorem callResponseMiddleware_atOnce
    (middlewares : List (CallbackMiddleware Unit Req Arg Err Res)) (k : ℕ) (err : Err)
    (res1 res2 : Res) :
    (MiddlewareStack.callResponseMiddleware ⟨middlewares.map atOnce⟩ req k err res1 res2).2 =
      some ((StackRun.unwind middlewares req k (err, res1, res2)).run ()).1 := by
  induction k generalizing err res1 res2 with
  | zero => rfl
  | succ k ih =>
    rw [MiddlewareStack.callResponseMiddleware, StackRun.unwind, List.getElem?_map]
    rcases middlewares[k]? with _ | ⟨request, _ | response⟩
    · exact ih err res1 res2
    · exact ih err res1 res2
    · exact ih _ _ _

/-- With methods and a handler that call back at once, `run` is the composition. -/
theorem run_atOnce (middlewares : List (CallbackMiddleware Unit Req Arg Err Res))
    (handler : Req → Arg → Arg → StateM Unit (Err × Res × Res)) (arg2 arg3 : Arg) :
    MiddlewareStack.run ⟨middlewares.map atOnce⟩ req arg2 arg3
        (fun arg2 arg3 => some ((handler req arg2 arg3).run ()).1) =
      some ((compose req middlewares (handler req) arg2 arg3).run ()).1 := by
  have whole := compose_drop req middlewares handler (Nat.zero_le _) arg2 arg3
  rw [List.drop_zero] at whole
  have outcome : compose req middlewares (handler req) arg2 arg3 =
      compose req middlewares (handler req) arg2 arg3 >>= StackRun.unwind middlewares req 0 :=
    (bind_pure _).symm
  rw [outcome, whole, MiddlewareStack.run_eq (callRequestMiddleware_atOnce middlewares arg2 arg3)
    rfl, callResponseMiddleware_atOnce, List.length_map]
  rfl

end CallbackMiddleware
end Ringpop.Middlewares
