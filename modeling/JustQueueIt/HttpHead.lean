/-
The head of a response on the wire.  Framing relies on one property of the
message library: a head is found again in front of any bytes.
-/
import JustQueueIt.RestServer
import JustQueueIt.TextReader

namespace JustQueueIt

namespace Rest

open TextReader

/-- All of a response but its body. -/
structure Head where
  result : Nat
  server : Str
  contentType : Str
  contentLength : Nat
  keepAlive : Bool
deriving Repr, DecidableEq

def HttpResponse.head (response : HttpResponse) : Head where
  result := response.result
  server := response.server
  contentType := response.contentType
  contentLength := response.contentLength
  keepAlive := response.keepAlive

/-- The field values stay on their lines. -/
def Head.WellFormed (head : Head) : Prop :=
  '\r' ∉ head.server ∧ '\r' ∉ head.contentType

/-- How heads are written, and how a client reads them. -/
structure HeadCodec where
  write : Head → Str
  read : Reader Head
  read_write : ∀ head rest, head.WellFormed →
    read (write head ++ rest) = some (head, rest)

def crlf : Str :=
  ['\r', '\n']

def versionText : Str :=
  "HTTP/1.1 ".toList

def serverText : Str :=
  "Server: ".toList

def contentTypeText : Str :=
  "Content-Type: ".toList

def contentLengthText : Str :=
  "Content-Length: ".toList

def closeText : Str :=
  "Connection: close\r\n".toList

/-- The reason phrases of the statuses the server answers with. -/
def reason : Nat → Str
  | 200 => "OK".toList
  | 204 => "No Content".toList
  | 400 => "Bad Request".toList
  | 404 => "Not Found".toList
  | 405 => "Method Not Allowed".toList
  | 500 => "Internal Server Error".toList
  | _ => "Unknown".toList

/-- The fields stand in the order in which `CreateResponse` sets them. -/
def writeHead (head : Head) : Str :=
  versionText ++ Stoull.numeral head.result ++ [' '] ++ reason head.result ++
    crlf ++ serverText ++ head.server ++ crlf ++ contentTypeText ++
    head.contentType ++ crlf ++ contentLengthText ++
    Stoull.numeral head.contentLength ++ crlf ++
    (if head.keepAlive then crlf else closeText ++ crlf)

/-- The text up to the end of the line. -/
def readLine : Reader Str := fun text =>
  (expect crlf (text.dropWhile (· ≠ '\r'))).map
    (text.takeWhile (· ≠ '\r'), ·)

/-- The lines after `Content-Length`. -/
def readKeepAlive : Reader Bool := fun text =>
  match expect crlf text with
  | some rest => some (true, rest)
  | none => (expect (closeText ++ crlf) text).map (false, ·)

def readHead : Reader Head := fun text => do
  let text ← expect versionText text
  let (result, text) ← readNumeral text
  let text ← expect [' '] text
  let (_, text) ← readLine text
  let text ← expect serverText text
  let (server, text) ← readLine text
  let text ← expect contentTypeText text
  let (contentType, text) ← readLine text
  let text ← expect contentLengthText text
  let (contentLength, text) ← readNumeral text
  let text ← expect crlf text
  let (keepAlive, text) ← readKeepAlive text
  some (⟨result, server, contentType, contentLength, keepAlive⟩, text)

theorem readLine_append {value : Str} (hvalue : '\r' ∉ value) (rest : Str) :
    readLine (value ++ (crlf ++ rest)) = some (value, rest) := by
  have hall : ∀ c ∈ value, decide (c ≠ '\r') = true := fun c hc =>
    decide_eq_true (ne_of_mem_of_not_mem hc hvalue)
  rw [readLine, List.takeWhile_append_of_pos hall,
    List.dropWhile_append_of_pos hall]
  simp [crlf, expect]

theorem readKeepAlive_append (keepAlive : Bool) (rest : Str) :
    readKeepAlive ((if keepAlive then crlf else closeText ++ crlf) ++ rest) =
      some (keepAlive, rest) := by
  cases keepAlive with
  | true =>
      rw [if_pos rfl, readKeepAlive, expect_append]
  | false =>
      have hclose : ∀ text, expect crlf (closeText ++ text) = none := by
        intro text
        rw [expect, if_neg]
        rintro ⟨tail, htail⟩
        have hhead : some '\r' = some 'C' := congrArg List.head? htail
        exact absurd hhead (by decide)
      rw [if_neg Bool.false_ne_true, readKeepAlive, List.append_assoc, hclose,
        ← List.append_assoc, expect_append]
      rfl

theorem notMem_reason (code : Nat) : '\r' ∉ reason code := by
  unfold reason
  split <;> decide

theorem readHead_writeHead (head : Head) (rest : Str)
    (hhead : head.WellFormed) :
    readHead (writeHead head ++ rest) = some (head, rest) := by
  have hresult : ∀ n tail, readNumeral (Stoull.numeral n ++ ([' '] ++ tail)) =
      some (n, [' '] ++ tail) := fun n tail =>
    readNumeral_append n fun c hc => by
      obtain rfl : ' ' = c := Option.some.inj hc
      decide
  have hlength : ∀ n tail, readNumeral (Stoull.numeral n ++ (crlf ++ tail)) =
      some (n, crlf ++ tail) := fun n tail =>
    readNumeral_append n fun c hc => by
      obtain rfl : '\r' = c := Option.some.inj hc
      decide
  simp only [readHead, writeHead, List.append_assoc, expect_append, hresult,
    hlength, readLine_append (notMem_reason _), readLine_append hhead.1,
    readLine_append hhead.2, readKeepAlive_append, bind, Option.bind]

/-- The heads of the message library. -/
def messageHeads : HeadCodec where
  write := writeHead
  read := readHead
  read_write := readHead_writeHead

end Rest

end JustQueueIt
