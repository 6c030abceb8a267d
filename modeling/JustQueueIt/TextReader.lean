/-
Readers that take a value off the front of a text.  A reader inverts a writer
when it finds the value before any text, so readers of composite values
inherit this from those of their parts.
-/
import JustQueueIt.Stoull

namespace TextReader

universe u

/-- A reader returns a value and the text after it. -/
abbrev Reader (α : Type u) := List Char → Option (α × List Char)

/-- Reading finds what was written, whatever comes after it. -/
def Inverts {α : Type u} (read : Reader α) (write : α → List Char) : Prop :=
  ∀ value rest, read (write value ++ rest) = some (value, rest)

/-- Skip a fixed text. -/
def expect (word : List Char) (text : List Char) : Option (List Char) :=
  if word <+: text then some (text.drop word.length) else none

@[simp] theorem expect_append (word rest : List Char) :
    expect word (word ++ rest) = some rest := by
  simp [expect]

/-- The value a whole text stands for. -/
def readWhole {α : Type u} (read : Reader α) (text : List Char) : Option α :=
  match read text with
  | some (value, []) => some value
  | _ => none

theorem Inverts.readWhole {α : Type u} {read : Reader α}
    {write : α → List Char} (hinv : Inverts read write) (value : α) :
    readWhole read (write value) = some value := by
  have hread := hinv value []
  rw [List.append_nil] at hread
  rw [TextReader.readWhole, hread]

def readNumeral : Reader Nat := fun text =>
  let digits := text.takeWhile Char.isDigit
  if digits = [] then none
  else some (Stoull.numeralValue digits, text.dropWhile Char.isDigit)

/-- A numeral ends where the digits end. -/
theorem readNumeral_append (n : Nat) {rest : List Char}
    (hrest : ∀ c ∈ rest.head?, c.isDigit = false) :
    readNumeral (Stoull.numeral n ++ rest) = some (n, rest) := by
  obtain ⟨hne, hdigits⟩ := Stoull.numeral_isNumeral n
  rw [readNumeral, List.takeWhile_append_of_pos hdigits,
    List.dropWhile_append_of_pos hdigits]
  cases rest with
  | nil => simp [hne]
  | cons c rest => simp [hrest c rfl, hne]

end TextReader
