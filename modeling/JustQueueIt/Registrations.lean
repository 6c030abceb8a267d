/-
Any sequence of calls of `AddRouteImpl`, failing ones included.  The calls work
on the table in place, one assignment after the other; what they leave behind
is what the successful ones registered.
-/
import JustQueueIt.LastWrite
import JustQueueIt.RouteTables

namespace JustQueueIt

namespace Rest

variable {m : Type → Type}

/-- A default-constructed `RouteInfo`; an empty `std::regex` matches nothing. -/
def RouteInfo.initial : RouteInfo m :=
  ⟨⟨.set ⟨false, []⟩, 0⟩, [], ∅⟩

/-- `m_routes.try_emplace(path)`. -/
def Router.tryEmplace (router : Router m) (path : Str) : Router m :=
  match router.routes.lookup path with
  | some _ => router
  | none => ⟨router.routes.insert path RouteInfo.initial⟩

/-- An assignment through the reference `info` to the entry of a path. -/
def Router.update (router : Router m) (path : Str)
    (change : RouteInfo m → RouteInfo m) : Router m :=
  match router.routes.lookup path with
  | some info => ⟨router.routes.insert path (change info)⟩
  | none => router

/-- A computation on a router that may throw; what was changed before the
exception stays. -/
abbrev InPlace (m : Type → Type) := ExceptT StdException (StateM (Router m))

/-- `AddRouteImpl` as it works on `m_routes`. -/
def addRouteInPlace (path : Str) (method : Method)
    (handler : Option (HandlerWithParams m)) : InPlace m Unit := do
  if path = [] ∨ path.head? ≠ some '/' then
    throw ⟨.invalidArgument, "Path must start with '/'".toList⟩
  match handler with
  | none => throw ⟨.invalidArgument, "Handler cannot be null".toList⟩
  | some handler =>
      let paramRegex ← ExceptT.mk (pure (regex paramRegexText))
      let regexPath := paramRegex.regexReplace path placeholderGroup
      let fullRegex ← ExceptT.mk (pure (regex ('^' :: regexPath ++ ['$'])))
      let parameterNames :=
        (paramRegex.regexIterator path).map fun found => found.get 1
      modify fun router => router.tryEmplace path
      modify fun router => router.update path fun info =>
        { info with pattern := fullRegex }
      modify fun router => router.update path fun info =>
        { info with parameterNames := parameterNames }
      modify fun router => router.update path fun info =>
        { info with handlers := info.handlers.assign method handler }

/-- A call of `AddRouteImpl`; a null handler is `none`. -/
structure RouteCall (m : Type → Type) where
  path : Str
  method : Method
  handler : Option (HandlerWithParams m)

/-- A call that is caught if it throws: its outcome and the router it leaves. -/
def RouteCall.perform (call : RouteCall m) (router : Router m) :
    Except StdException Unit × Router m :=
  StateT.run
    (ExceptT.run (addRouteInPlace call.path call.method call.handler)) router

/-- A router with the calls made on it and how each ended. -/
structure CallLog (m : Type → Type) where
  router : Router m
  history : List (RouteCall m × Except StdException Unit)

def CallLog.perform (log : CallLog m) (call : RouteCall m) : CallLog m :=
  ⟨(call.perform log.router).2,
    log.history ++ [(call, (call.perform log.router).1)]⟩

end Rest

end JustQueueIt
