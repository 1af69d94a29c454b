import Mathlib.Tactic.Common

/-! `lib/middleware/stack.js`: a request goes through the middlewares in the order of the
stack, and the response in the opposite one. -/
namespace Ringpop.Middlewares

/-- Either method may be missing. A middleware calls back once with what it returns here, or
throws and does not call back. -/
structure Middleware (Req Arg Err Res : Type) where
  request : Option (Req → Arg → Arg → Option (Arg × Arg))
  response : Option (Req → Err → Res → Res → Option (Err × Res × Res))

structure MiddlewareStack (Req Arg Err Res : Type) where
  middlewares : List (Middleware Req Arg Err Res)

namespace MiddlewareStack
variable {Req Arg Err Res : Type}

/-- The middlewares that are left for a request. -/
def callRequestMiddleware (req : Req) :
    List (Middleware Req Arg Err Res) → Arg → Arg → Option (Arg × Arg)
  | [], arg2, arg3 => some (arg2, arg3)
  | middleware :: rest, arg2, arg3 =>
    match middleware.request with
    | none => callRequestMiddleware req rest arg2 arg3
    | some next =>
      (next req arg2 arg3).bind fun (arg2, arg3) => callRequestMiddleware req rest arg2 arg3

/-- The number of middlewares that are left for a response, which the closure keeps, and what
the callback of `run` is called with. -/
def callResponseMiddleware (stack : MiddlewareStack Req Arg Err Res) (req : Req) :
    ℕ → Err → Res → Res → ℕ × Option (Err × Res × Res)
  | 0, err, res1, res2 => (0, some (err, res1, res2))
  | i + 1, err, res1, res2 =>
    match stack.middlewares[i]?.bind Middleware.response with
    | none => stack.callResponseMiddleware req i err res1 res2
    | some next =>
      match next req err res1 res2 with
      | none => (i, none)
      | some (err, res1, res2) => stack.callResponseMiddleware req i err res1 res2

/-- One of the middlewares throws, which come in the order in which a response meets them. -/
def throws (req : Req) : List (Middleware Req Arg Err Res) → Err → Res → Res → Bool
  | [], _, _, _ => false
  | middleware :: rest, err, res1, res2 =>
    match middleware.response with
    | none => throws req rest err res1 res2
    | some next =>
      match next req err res1 res2 with
      | none => true
      | some (err, res1, res2) => throws req rest err res1 res2

def run (stack : MiddlewareStack Req Arg Err Res) (req : Req) (arg2 arg3 : Arg)
    (handler : Arg → Arg → Option (Err × Res × Res)) : Option (Err × Res × Res) := do
  let (arg2, arg3) ← callRequestMiddleware req stack.middlewares arg2 arg3
  let (err, res1, res2) ← handler arg2 arg3
  (stack.callResponseMiddleware req stack.middlewares.length err res1 res2).2

variable {stack : MiddlewareStack Req Arg Err Res} {req : Req}

theorem run_eq {arg2 arg3 arg2' arg3' : Arg} {err : Err} {res1 res2 : Res}
    {handler : Arg → Arg → Option (Err × Res × Res)}
    (request : callRequestMiddleware req stack.middlewares arg2 arg3 = some (arg2', arg3'))
    (handled : handler arg2' arg3' = some (err, res1, res2)) :
    stack.run req arg2 arg3 handler =
      (stack.callResponseMiddleware req stack.middlewares.length err res1 res2).2 := by
  rw [run, request, Option.bind_eq_bind, Option.bind_some]
  simp only [handled, Option.bind_eq_bind, Option.bind_some]

/-- Nothing comes of a response when a middleware that it meets throws. -/
theorem callResponseMiddleware_eq_none (stack : MiddlewareStack Req Arg Err Res) (req : Req)
    (i : ℕ) (err : Err) (res1 res2 : Res) :
    (stack.callResponseMiddleware req i err res1 res2).2 = none ↔
      throws req (stack.middlewares.take i).reverse err res1 res2 = true := by
  induction i generalizing err res1 res2 with
  | zero => exact iff_of_false (fun h => by cases h) Bool.false_ne_true
  | succ i ih =>
    rw [callResponseMiddleware, List.take_add_one, List.reverse_append]
    cases here : stack.middlewares[i]? with
    | none => exact ih err res1 res2
    | some middleware =>
      cases response : middleware.response with
      | none => simpa [throws, response] using ih err res1 res2
      | some next =>
        cases returned : next req err res1 res2 with
        | none => simp [throws, response, returned]
        | some results => simpa [throws, response, returned] using ih _ _ _

end MiddlewareStack
end Ringpop.Middlewares
