/-
JSON texts of strings and lists.
-/
import JustQueueIt.TextReader

namespace JsonText

open TextReader

universe u

def hexDigits : List Char :=
  "0123456789ABCDEF".toList

def hexDigit (n : Nat) : Char :=
  hexDigits.getD n '0'

def hexValue (c : Char) : Option Nat :=
  hexDigits.idxOf? c

theorem hexValue_hexDigit : ∀ n < 16, hexValue (hexDigit n) = some n := by
  decide

/-- How a character is written between quotes. -/
def escape (c : Char) : List Char :=
  if c = '"' then ['\\', '"']
  else if c = '\\' then ['\\', '\\']
  else if c = '\n' then ['\\', 'n']
  else if c = '\r' then ['\\', 'r']
  else if c = '\t' then ['\\', 't']
  else if c = '\x08' then ['\\', 'b']
  else if c = '\x0c' then ['\\', 'f']
  else if c.toNat < 32 then
    ['\\', 'u', '0', '0', hexDigit (c.toNat / 16), hexDigit (c.toNat % 16)]
  else [c]

def writeString (value : List Char) : List Char :=
  '"' :: value.flatMap escape ++ ['"']

/-- The characters that a backslash followed by one letter stands for. -/
def unescape : Char → Option Char
  | '"' => some '"'
  | '\\' => some '\\'
  | '/' => some '/'
  | 'n' => some '\n'
  | 'r' => some '\r'
  | 't' => some '\t'
  | 'b' => some '\x08'
  | 'f' => some '\x0c'
  | _ => none

/-- The code point that four hexadecimal digits name. -/
def unicode (a b c d : Char) : Option Char := do
  let a ← hexValue a
  let b ← hexValue b
  let c ← hexValue c
  let d ← hexValue d
  some (Char.ofNat (((a * 16 + b) * 16 + c) * 16 + d))

/-- The characters up to the closing quote. -/
def readChars : Reader (List Char)
  | [] => none
  | '"' :: rest => some ([], rest)
  | '\\' :: 'u' :: a :: b :: c :: d :: rest =>
      match unicode a b c d, readChars rest with
      | some head, some (tail, rest) => some (head :: tail, rest)
      | _, _ => none
  | '\\' :: letter :: rest =>
      match unescape letter, readChars rest with
      | some head, some (tail, rest) => some (head :: tail, rest)
      | _, _ => none
  | head :: rest =>
      if head.toNat < 32 then none
      else (readChars rest).map fun found => (head :: found.1, found.2)

theorem unicode_hexDigit {c : Char} (hc : c.toNat < 32) :
    unicode '0' '0' (hexDigit (c.toNat / 16)) (hexDigit (c.toNat % 16)) =
      some c := by
  have hzero : hexValue '0' = some 0 := by decide
  have hcode : ((0 * 16 + 0) * 16 + c.toNat / 16) * 16 + c.toNat % 16 =
      c.toNat := by omega
  simp only [unicode, hzero, hexValue_hexDigit _ (by omega : c.toNat / 16 < 16),
    hexValue_hexDigit _ (by omega : c.toNat % 16 < 16), bind, Option.bind,
    hcode, Char.ofNat_toNat]

theorem readChars_escape (c : Char) {text tail rest : List Char}
    (hread : readChars text = some (tail, rest)) :
    readChars (escape c ++ text) = some (c :: tail, rest) := by
  unfold escape
  split_ifs with hquote hback hn hr ht hb hf hcontrol
  iterate 7
    · subst c
      simp [readChars, unescape, hread]
  · simp only [List.cons_append, List.nil_append]
    rw [readChars, unicode_hexDigit hcontrol, hread]
  · rw [List.singleton_append, readChars, if_neg hcontrol, hread]
    · rfl
    · exact fun h => hquote h
    all_goals
      intros
      simp_all

theorem readChars_flatMap (value rest : List Char) :
    readChars (value.flatMap escape ++ '"' :: rest) = some (value, rest) := by
  induction value with
  | nil => rfl
  | cons head tail ih =>
      rw [List.flatMap_cons, List.append_assoc]
      exact readChars_escape head ih

def readString : Reader (List Char) := fun text =>
  (expect ['"'] text).bind readChars

theorem readString_inverts : Inverts readString writeString := by
  intro value rest
  have hopen : expect ['"'] (writeString value ++ rest) =
      some (value.flatMap escape ++ '"' :: rest) := by
    simp [expect, writeString]
  rw [readString, hopen, Option.bind_some, readChars_flatMap]

/-- Items separated by commas, up to the closing bracket. -/
def writeItems {α : Type u} (write : α → List Char) : List α → List Char
  | [] => [']']
  | [item] => write item ++ [']']
  | item :: items => write item ++ ',' :: writeItems write items

def writeList {α : Type u} (write : α → List Char) (items : List α) :
    List Char :=
  '[' :: writeItems write items

/-- At most `fuel` items. -/
def readItems {α : Type u} (read : Reader α) : Nat → Reader (List α)
  | 0, _ => none
  | fuel + 1, text =>
      match read text with
      | some (item, ']' :: rest) => some ([item], rest)
      | some (item, ',' :: rest) =>
          (readItems read fuel rest).map fun found =>
            (item :: found.1, found.2)
      | _ => none

def readList {α : Type u} (read : Reader α) : Reader (List α)
  | '[' :: ']' :: rest => some ([], rest)
  | '[' :: text => readItems read text.length text
  | _ => none

theorem length_le_writeItems {α : Type u} (write : α → List Char)
    (items : List α) : items.length ≤ (writeItems write items).length := by
  induction items with
  | nil => simp
  | cons item items ih =>
      cases items with
      | nil => simp [writeItems]
      | cons next items =>
          simp only [writeItems, List.length_append, List.length_cons] at ih ⊢
          omega

theorem readItems_writeItems {α : Type u} {read : Reader α}
    {write : α → List Char} (hinv : Inverts read write) (items : List α)
    (hne : items ≠ []) (rest : List Char) {fuel : Nat}
    (hfuel : items.length ≤ fuel) :
    readItems read fuel (writeItems write items ++ rest) =
      some (items, rest) := by
  induction items generalizing fuel with
  | nil => contradiction
  | cons item items ih =>
      cases fuel with
      | zero => simp at hfuel
      | succ fuel =>
          have hfuel : items.length ≤ fuel := by simpa using hfuel
          cases items with
          | nil => simp [writeItems, readItems, hinv item]
          | cons next items =>
              rw [writeItems, List.append_assoc, readItems, hinv item]
              · simp only [List.cons_append]
                rw [ih (by simp) hfuel]
                rfl
              · simp

/-- A list is read back when no item begins like the end of a list. -/
theorem readList_inverts {α : Type u} {read : Reader α}
    {write : α → List Char} (hinv : Inverts read write)
    (hopen : ∀ item, ∃ c text, c ≠ ']' ∧ write item = c :: text) :
    Inverts (readList read) (writeList write) := by
  intro items rest
  cases items with
  | nil => rfl
  | cons item items =>
      obtain ⟨c, text, hc, htext⟩ := hopen item
      obtain ⟨tail, htail⟩ :
          ∃ tail, writeItems write (item :: items) = c :: tail := by
        cases items <;> simp only [writeItems, htext, List.cons_append] <;>
          exact ⟨_, rfl⟩
      have hlength := length_le_writeItems write (item :: items)
      have hitems := readItems_writeItems hinv (item :: items) (by simp) rest
        (hlength.trans (List.length_append ▸ Nat.le_add_right _ rest.length))
      rw [writeList, List.cons_append]
      rw [htail, List.cons_append] at hitems ⊢
      rw [readList, hitems]
      simpa using hc

end JsonText
