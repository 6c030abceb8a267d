/-
Regular expressions in the ECMAScript grammar of the C++ standard library:
the syntax tree, the scanner and the parser.  The scanner walks the text once
and the parser folds over its tokens, so both are structural recursions.
Characters are classified as in the "C" locale.
-/
import Mathlib.Data.List.Basic

namespace Regex

/-- The `std::regex_constants::error_type` values the grammar can raise. -/
inductive ErrorCode where
  | collate
  | ctype
  | escape
  | backref
  | brack
  | paren
  | brace
  | badbrace
  | range
  | badrepeat
deriving Repr, DecidableEq

/-- The named character classes of `std::regex_traits`. -/
inductive CType where
  | alnum | alpha | blank | cntrl | digit | graph
  | lower | print | punct | space | upper | xdigit | word
deriving Repr, DecidableEq

def isSpace (c : Char) : Bool :=
  c = ' ' || (9 ≤ c.toNat && c.toNat ≤ 13)

def isXDigit (c : Char) : Bool :=
  c.isDigit || ('a' ≤ c && c ≤ 'f') || ('A' ≤ c && c ≤ 'F')

def isWordChar (c : Char) : Bool :=
  c.isAlphanum || c = '_'

def CType.test : CType → Char → Bool
  | .alnum, c => c.isAlphanum
  | .alpha, c => c.isAlpha
  | .blank, c => c = ' ' || c = '\t'
  | .cntrl, c => c.toNat < 32 || c.toNat = 127
  | .digit, c => c.isDigit
  | .graph, c => 32 < c.toNat && c.toNat < 127
  | .lower, c => c.isLower
  | .print, c => 32 ≤ c.toNat && c.toNat < 127
  | .punct, c => 32 < c.toNat && c.toNat < 127 && !c.isAlphanum
  | .space, c => isSpace c
  | .upper, c => c.isUpper
  | .xdigit, c => isXDigit c
  | .word, c => isWordChar c

/-- `regex_traits::lookup_classname`; names are compared without case. -/
def CType.ofName (name : List Char) : Option CType :=
  match String.ofList (name.map Char.toLower) with
  | "alnum" => some .alnum
  | "alpha" => some .alpha
  | "blank" => some .blank
  | "cntrl" => some .cntrl
  | "d" | "digit" => some .digit
  | "graph" => some .graph
  | "lower" => some .lower
  | "print" => some .print
  | "punct" => some .punct
  | "s" | "space" => some .space
  | "upper" => some .upper
  | "w" => some .word
  | "xdigit" => some .xdigit
  | _ => none

/-- One member of a bracket expression. -/
inductive ClassItem where
  | char (c : Char)
  | range (first last : Char)
  | ctype (class_ : CType) (negated : Bool)
deriving Repr, DecidableEq

def ClassItem.test : ClassItem → Char → Bool
  | .char a, c => a = c
  | .range first last, c => first ≤ c && c ≤ last
  | .ctype class_ negated, c => class_.test c != negated

/-- A single-character matcher: an ordinary character, `.`, a class escape or
a bracket expression. -/
structure CharSet where
  negated : Bool
  items : List ClassItem
deriving Repr, DecidableEq

def CharSet.test (set : CharSet) (c : Char) : Bool :=
  set.items.any (·.test c) != set.negated

def CharSet.single (c : Char) : CharSet :=
  ⟨false, [.char c]⟩

/-- `.` matches everything but a line terminator. -/
def CharSet.dot : CharSet :=
  ⟨true, [.char '\n', .char '\r']⟩

/-- The syntax tree.  A `group` carries its capture index, counted by opening
parentheses from one. -/
inductive Ast where
  | empty
  | set (chars : CharSet)
  | lineBegin
  | lineEnd
  | wordBoundary (negated : Bool)
  | backref (index : Nat)
  | seq (first second : Ast)
  | alt (first second : Ast)
  | group (index : Nat) (body : Ast)
  | rep (min : Nat) (max : Option Nat) (greedy : Bool) (body : Ast)
  | look (negated : Bool) (body : Ast)
deriving Repr, DecidableEq

/-- The tokens of a pattern.  Atoms and assertions are already trees; only the
former may be followed by a quantifier. -/
inductive Token where
  | atom (tree : Ast)
  | assertion (tree : Ast)
  | quantifier (min : Nat) (max : Option Nat) (greedy : Bool)
  | bar
  | openCapture
  | openPlain
  | openLook (negated : Bool)
  | close
deriving Repr, DecidableEq

def hexValue (digits : List Char) : Nat :=
  digits.foldl (fun value c => 16 * value +
    (if c.isDigit then c.toNat - '0'.toNat
     else c.toLower.toNat - 'a'.toNat + 10)) 0

/-- `\xHH` and `\uHHHH`: exactly `count` hexadecimal digits. -/
def lexHex (count : Nat) (rest : List Char) :
    Except ErrorCode (Char × Nat) :=
  let digits := rest.take count
  if digits.length = count && digits.all isXDigit then
    .ok (Char.ofNat (hexValue digits), count)
  else .error .escape

/-- The escapes that stand for one character, after the backslash: the
character and how many more characters were read. -/
def lexCharEscape (c : Char) (rest : List Char) :
    Except ErrorCode (Char × Nat) :=
  match c with
  | '0' => .ok (Char.ofNat 0, 0)
  | 'f' => .ok (Char.ofNat 12, 0)
  | 'n' => .ok ('\n', 0)
  | 'r' => .ok ('\r', 0)
  | 't' => .ok ('\t', 0)
  | 'v' => .ok (Char.ofNat 11, 0)
  | 'c' =>
      match rest with
      | letter :: _ =>
          if letter.isAlpha then .ok (Char.ofNat (letter.toNat % 32), 1)
          else .error .escape
      | [] => .error .escape
  | 'x' => lexHex 2 rest
  | 'u' => lexHex 4 rest
  | c => .ok (c, 0)

/-- `\d`, `\s`, `\w` and their complements. -/
def lexClassEscape : Char → Option ClassItem
  | 'd' => some (.ctype .digit false)
  | 'D' => some (.ctype .digit true)
  | 's' => some (.ctype .space false)
  | 'S' => some (.ctype .space true)
  | 'w' => some (.ctype .word false)
  | 'W' => some (.ctype .word true)
  | _ => none

/-- An escape outside a bracket expression, after the backslash. -/
def lexEscape : List Char → Except ErrorCode (Token × Nat)
  | [] => .error .escape
  | 'b' :: _ => .ok (.assertion (.wordBoundary false), 1)
  | 'B' :: _ => .ok (.assertion (.wordBoundary true), 1)
  | c :: rest =>
      match lexClassEscape c with
      | some item => .ok (.atom (.set ⟨false, [item]⟩), 1)
      | none =>
          if c.isDigit && c ≠ '0' then
            let digits := c :: rest.takeWhile Char.isDigit
            .ok (.atom (.backref (Nat.ofDigitChars 10 digits 0)),
              digits.length)
          else do
            let (value, used) ← lexCharEscape c rest
            .ok (.atom (.set (.single value)), used + 1)

/-- A quantifier may be followed by `?`, which makes it lazy. -/
def lexQuantifier (min : Nat) (max : Option Nat) (used : Nat)
    (rest : List Char) : Token × Nat :=
  match rest with
  | '?' :: _ => (.quantifier min max false, used + 1)
  | _ => (.quantifier min max true, used)

/-- `{n}`, `{n,}` and `{n,m}`, after the opening brace. -/
def lexBraces (text : List Char) : Except ErrorCode (Token × Nat) :=
  let first := text.takeWhile Char.isDigit
  let min := Nat.ofDigitChars 10 first 0
  if first = [] then .error .badbrace
  else
    match text.drop first.length with
    | '}' :: rest =>
        .ok (lexQuantifier min (some min) (first.length + 1) rest)
    | ',' :: '}' :: rest =>
        .ok (lexQuantifier min none (first.length + 2) rest)
    | ',' :: tail =>
        let second := tail.takeWhile Char.isDigit
        let max := Nat.ofDigitChars 10 second 0
        match second, tail.drop second.length with
        | _ :: _, '}' :: rest =>
            if min ≤ max then
              .ok (lexQuantifier min (some max)
                (first.length + second.length + 2) rest)
            else .error .badbrace
        | _, [] => .error .brace
        | _, _ => .error .badbrace
    | [] => .error .brace
    | _ => .error .badbrace

/-- What stands between the brackets, before ranges are put together. -/
inductive ClassElem where
  | char (c : Char)
  | item (item : ClassItem)
  | dash
deriving Repr, DecidableEq

/-- `[:name:]`, `[.x.]` and `[=x=]` inside a bracket expression, after the
inner `[` and its mark.  Collating elements of more than one character are
not known. -/
def lexNamed (mark : Char) (text : List Char) :
    Except ErrorCode (ClassElem × Nat) :=
  let name := text.takeWhile (· ≠ mark)
  match text.drop name.length with
  | _ :: ']' :: _ =>
      if mark = ':' then
        match CType.ofName name with
        | some class_ => .ok (.item (.ctype class_ false), name.length + 3)
        | none => .error .ctype
      else
        match name with
        | [c] => .ok (.char c, name.length + 3)
        | _ => .error .collate
  | _ => .error (if mark = ':' then .ctype else .collate)

def lexClassElem (c : Char) (rest : List Char) :
    Except ErrorCode (ClassElem × Nat) :=
  match c, rest with
  | '-', _ => .ok (.dash, 0)
  | '[', ':' :: tail => lexNamed ':' tail
  | '[', '.' :: tail => lexNamed '.' tail
  | '[', '=' :: tail => lexNamed '=' tail
  | '\\', [] => .error .escape
  | '\\', 'b' :: _ => .ok (.char (Char.ofNat 8), 1)
  | '\\', c :: tail =>
      match lexClassEscape c with
      | some item => .ok (.item item, 1)
      | none => do
          let (value, used) ← lexCharEscape c tail
          .ok (.char value, used + 1)
  | c, _ => .ok (.char c, 0)

/-- The elements up to the closing bracket, and how many characters they and
the bracket take.  `skip` counts characters that belong to the last element
already. -/
def lexClass : Nat → List Char → Except ErrorCode (List ClassElem × Nat)
  | _, [] => .error .brack
  | skip + 1, _ :: rest => do
      let (elems, used) ← lexClass skip rest
      .ok (elems, used + 1)
  | 0, c :: rest =>
      if c = ']' then .ok ([], 1)
      else do
        let (elem, skip) ← lexClassElem c rest
        let (elems, used) ← lexClass skip rest
        .ok (elem :: elems, used + 1)

def ClassElem.toItem : ClassElem → ClassItem
  | .char c => .char c
  | .item member => member
  | .dash => .char '-'

/-- A range needs two single characters in order. -/
def classRange : ClassElem → ClassElem → Except ErrorCode ClassItem
  | .item .., _ => .error .range
  | _, .item .. => .error .range
  | first, last =>
      match first.toItem, last.toItem with
      | .char a, .char b => if a ≤ b then .ok (.range a b) else .error .range
      | _, _ => .error .range

/-- A dash between two elements makes a range; elsewhere it is a character. -/
def classItems : List ClassElem → Except ErrorCode (List ClassItem)
  | first :: .dash :: last :: rest => do
      let range ← classRange first last
      let items ← classItems rest
      .ok (range :: items)
  | elem :: rest => do
      let items ← classItems rest
      .ok (elem.toItem :: items)
  | [] => .ok []

/-- A bracket expression, after the opening bracket. -/
def lexBracket (text : List Char) : Except ErrorCode (Token × Nat) := do
  let negated := text.head? = some '^'
  let body := if negated then text.tail else text
  let (elems, used) ← lexClass 0 body
  let items ← classItems elems
  .ok (.atom (.set ⟨negated, items⟩), if negated then used + 1 else used)

/-- The token that starts with `c`, and how many characters of `rest` belong
to it. -/
def lexToken (c : Char) (rest : List Char) : Except ErrorCode (Token × Nat) :=
  match c with
  | '^' => .ok (.assertion .lineBegin, 0)
  | '$' => .ok (.assertion .lineEnd, 0)
  | '.' => .ok (.atom (.set .dot), 0)
  | '|' => .ok (.bar, 0)
  | '*' => .ok (lexQuantifier 0 none 0 rest)
  | '+' => .ok (lexQuantifier 1 none 0 rest)
  | '?' => .ok (lexQuantifier 0 (some 1) 0 rest)
  | '{' => lexBraces rest
  | '}' => .error .brace
  | '[' => lexBracket rest
  | ']' => .error .brack
  | '\\' => lexEscape rest
  | ')' => .ok (.close, 0)
  | '(' =>
      match rest with
      | '?' :: ':' :: _ => .ok (.openPlain, 2)
      | '?' :: '=' :: _ => .ok (.openLook false, 2)
      | '?' :: '!' :: _ => .ok (.openLook true, 2)
      | '?' :: _ => .error .paren
      | _ => .ok (.openCapture, 0)
  | c => .ok (.atom (.set (.single c)), 0)

/-- The tokens of a pattern.  `skip` counts characters that belong to the last
token already. -/
def lex : Nat → List Char → Except ErrorCode (List Token)
  | _, [] => .ok []
  | skip + 1, _ :: rest => lex skip rest
  | 0, c :: rest => do
      let (token, skip) ← lexToken c rest
      let tokens ← lex skip rest
      .ok (token :: tokens)

theorem lex_of_lexToken {c : Char} {rest : List Char} {token : Token}
    {skip : Nat} (htoken : lexToken c rest = .ok (token, skip)) :
    lex 0 (c :: rest) = (lex skip rest).map (token :: ·) := by
  rw [lex, htoken]
  change (lex skip rest >>= fun tokens => _) = _
  cases lex skip rest with
  | error e => rfl
  | ok tokens => rfl

/-- The characters that do not stand for themselves outside a bracket
expression. -/
def syntaxCharacters : List Char :=
  ['^', '$', '\\', '.', '*', '+', '?', '(', ')', '[', ']', '{', '}', '|']

theorem lexToken_plain {c : Char} (hc : c ∉ syntaxCharacters)
    (rest : List Char) :
    lexToken c rest = .ok (.atom (.set (.single c)), 0) := by
  unfold lexToken
  split
  all_goals first | rfl | exact absurd (by decide) hc

/-- What an open parenthesis will turn its disjunction into. -/
inductive GroupKind where
  | capture (index : Nat)
  | plain
  | look (negated : Bool)
deriving Repr, DecidableEq

/-- A disjunction being read: the alternatives before the last bar and the
terms after it, both with the latest first. -/
structure Level where
  alts : List Ast
  terms : List Ast
deriving Repr, DecidableEq

def Level.alternative (level : Level) : Ast :=
  level.terms.foldl (fun tail term => .seq term tail) .empty

def Level.disjunction (level : Level) : Ast :=
  level.alts.foldl (fun tail alternative => .alt alternative tail)
    level.alternative

/-- The parser's state: the innermost disjunction, the enclosing ones, how
many capture groups were opened, and whether the last term may be
quantified. -/
structure ParseState where
  level : Level
  enclosing : List (GroupKind × Level)
  groups : Nat
  quantifiable : Bool
deriving Repr, DecidableEq

def ParseState.initial : ParseState :=
  ⟨⟨[], []⟩, [], 0, false⟩

def ParseState.push (state : ParseState) (term : Ast) (quantifiable : Bool) :
    ParseState :=
  { state with
    level := { state.level with terms := term :: state.level.terms }
    quantifiable := quantifiable }

def ParseState.open (state : ParseState) (kind : GroupKind) : ParseState :=
  { state with
    level := ⟨[], []⟩
    enclosing := (kind, state.level) :: state.enclosing
    quantifiable := false }

/-- A back reference must name a group that was opened and closed before. -/
def ParseState.validBackref (state : ParseState) (index : Nat) : Bool :=
  index ≤ state.groups &&
    state.enclosing.all fun frame => frame.1 ≠ .capture index

def ParseState.step (state : ParseState) :
    Token → Except ErrorCode ParseState
  | .atom (.backref index) =>
      if state.validBackref index then .ok (state.push (.backref index) true)
      else .error .backref
  | .atom tree => .ok (state.push tree true)
  | .assertion tree => .ok (state.push tree false)
  | .quantifier min max greedy =>
      match state.quantifiable, state.level.terms with
      | true, term :: terms =>
          .ok { state with
            level := { state.level with
              terms := .rep min max greedy term :: terms }
            quantifiable := false }
      | _, _ => .error .badrepeat
  | .bar =>
      .ok { state with
        level := ⟨state.level.alternative :: state.level.alts, []⟩
        quantifiable := false }
  | .openCapture =>
      .ok { state.open (.capture (state.groups + 1)) with
        groups := state.groups + 1 }
  | .openPlain => .ok (state.open .plain)
  | .openLook negated => .ok (state.open (.look negated))
  | .close =>
      match state.enclosing with
      | [] => .error .paren
      | (kind, outer) :: enclosing =>
          let body := state.level.disjunction
          let outside := { state with level := outer, enclosing := enclosing }
          match kind with
          | .capture index => .ok (outside.push (.group index body) true)
          | .plain => .ok (outside.push body true)
          | .look negated => .ok (outside.push (.look negated body) false)

/-- A compiled pattern: its tree and `mark_count`. -/
structure Compiled where
  ast : Ast
  markCount : Nat
deriving Repr, DecidableEq

/-- The end of the pattern must close every group. -/
def ParseState.finish (state : ParseState) : Except ErrorCode Compiled :=
  if state.enclosing = [] then
    .ok ⟨state.level.disjunction, state.groups⟩
  else .error .paren

/-- `std::regex(pattern)` with the default flags. -/
def compile (pattern : List Char) : Except ErrorCode Compiled := do
  let tokens ← lex 0 pattern
  let state ← tokens.foldlM ParseState.step .initial
  state.finish

end Regex
