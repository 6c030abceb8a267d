/-
The vocabulary of the REST layer: strings, exceptions, content types, requests
and responses.  A C++ string is a list of characters; the model never depends
on a character being a single byte.
-/
import JustQueueIt.RegexSyntax

namespace JustQueueIt

abbrev Str := List Char

/-- The exception classes the code throws or lets through. -/
inductive ExceptionKind where
  | invalidArgument
  | outOfRange
  | runtimeError
  | regexError (code : Regex.ErrorCode)
deriving Repr, DecidableEq

/-- A `std::exception` with its `what()`. -/
structure StdException where
  kind : ExceptionKind
  what : Str
deriving Repr, DecidableEq

namespace Rest

/-- `rest::None`, the body of requests and answers that have none. -/
structure None where
deriving Repr, DecidableEq

inductive ContentType where
  | textPlain
  | applicationJson
deriving Repr, DecidableEq

/-- `ParseContentType(ContentType)`: the name on the wire. -/
def ContentType.parseContentType : ContentType → Str
  | .textPlain => "text/plain".toList
  | .applicationJson => "application/json".toList

/-- `rfl::get_enumerator_array<ContentType>()`. -/
def ContentType.enumerators : List ContentType :=
  [.textPlain, .applicationJson]

/-- `ParseContentType(std::string_view)`: the first enumerator with this
name. -/
def parseContentType (text : Str) : Option ContentType :=
  ContentType.enumerators.find? fun type => type.parseContentType = text

/-- A content type has no name but its own. -/
theorem parseContentType_eq_some {text : Str} {type : ContentType} :
    parseContentType text = some type ↔ text = type.parseContentType := by
  constructor
  · intro hfind
    have hname := List.find?_some hfind
    rw [decide_eq_true_eq] at hname
    exact hname.symm
  · rintro rfl
    cases type <;> decide

inductive Method where
  | get
  | post
  | put
  | delete
  | patch
  | head
  | options
deriving Repr, DecidableEq

/-- `rest::Request`. -/
structure Request where
  method : Method
  path : Str := []
  body : Str := []
  contentType : ContentType
  acceptContentType : ContentType := contentType
deriving Repr, DecidableEq

/-- `rest::Response::Status`. -/
inductive Status where
  | continue | switchingProtocols | processing | earlyHints
  | ok | created | accepted | nonAuthoritativeInformation | noContent
  | resetContent | partialContent | multiStatus | alreadyReported | imUsed
  | multipleChoices | movedPermanently | found | seeOther | notModified
  | useProxy | temporaryRedirect | permanentRedirect
  | badRequest | unauthorized | paymentRequired | forbidden | notFound
  | methodNotAllowed | notAcceptable | proxyAuthenticationRequired
  | requestTimeout | conflict | gone | lengthRequired | preconditionFailed
  | payloadTooLarge | uriTooLong | unsupportedMediaType | rangeNotSatisfiable
  | expectationFailed | imaTeapot | misdirectedRequest | unprocessableEntity
  | locked | failedDependency | tooEarly | upgradeRequired
  | preconditionRequired | tooManyRequests | requestHeaderFieldsTooLarge
  | unavailableForLegalReasons
  | internalServerError | notImplemented | badGateway | serviceUnavailable
  | gatewayTimeout | httpVersionNotSupported | variantAlsoNegotiates
  | insufficientStorage | loopDetected | notExtended
  | networkAuthenticationRequired
deriving Repr, DecidableEq

def Status.code : Status → Nat
  | .continue => 100
  | .switchingProtocols => 101
  | .processing => 102
  | .earlyHints => 103
  | .ok => 200
  | .created => 201
  | .accepted => 202
  | .nonAuthoritativeInformation => 203
  | .noContent => 204
  | .resetContent => 205
  | .partialContent => 206
  | .multiStatus => 207
  | .alreadyReported => 208
  | .imUsed => 226
  | .multipleChoices => 300
  | .movedPermanently => 301
  | .found => 302
  | .seeOther => 303
  | .notModified => 304
  | .useProxy => 305
  | .temporaryRedirect => 307
  | .permanentRedirect => 308
  | .badRequest => 400
  | .unauthorized => 401
  | .paymentRequired => 402
  | .forbidden => 403
  | .notFound => 404
  | .methodNotAllowed => 405
  | .notAcceptable => 406
  | .proxyAuthenticationRequired => 407
  | .requestTimeout => 408
  | .conflict => 409
  | .gone => 410
  | .lengthRequired => 411
  | .preconditionFailed => 412
  | .payloadTooLarge => 413
  | .uriTooLong => 414
  | .unsupportedMediaType => 415
  | .rangeNotSatisfiable => 416
  | .expectationFailed => 417
  | .imaTeapot => 418
  | .misdirectedRequest => 421
  | .unprocessableEntity => 422
  | .locked => 423
  | .failedDependency => 424
  | .tooEarly => 425
  | .upgradeRequired => 426
  | .preconditionRequired => 428
  | .tooManyRequests => 429
  | .requestHeaderFieldsTooLarge => 431
  | .unavailableForLegalReasons => 451
  | .internalServerError => 500
  | .notImplemented => 501
  | .badGateway => 502
  | .serviceUnavailable => 503
  | .gatewayTimeout => 504
  | .httpVersionNotSupported => 505
  | .variantAlsoNegotiates => 506
  | .insufficientStorage => 507
  | .loopDetected => 508
  | .notExtended => 510
  | .networkAuthenticationRequired => 511

/-- A 4xx status. -/
def Status.IsClientError (status : Status) : Prop :=
  400 ≤ status.code ∧ status.code < 500

/-- A 4xx or 5xx status. -/
def Status.IsError (status : Status) : Prop :=
  400 ≤ status.code ∧ status.code < 600

/-- The statuses whose messages HTTP does not give a body. -/
def Status.IsBodiless (status : Status) : Prop :=
  status.code < 200 ∨ status = .noContent ∨ status = .notModified

instance (status : Status) : Decidable status.IsClientError :=
  inferInstanceAs (Decidable (_ ∧ _))

instance (status : Status) : Decidable status.IsError :=
  inferInstanceAs (Decidable (_ ∧ _))

instance (status : Status) : Decidable status.IsBodiless :=
  inferInstanceAs (Decidable (_ ∨ _))

/-- `rest::Response`. -/
structure Response where
  statusCode : Status
  body : Str := []
  contentType : ContentType
deriving Repr, DecidableEq

end Rest

end JustQueueIt
