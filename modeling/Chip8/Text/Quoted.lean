import Chip8.Text.Radix
import Chip8.Text.Units

/-!
# Quoted text

How a text is shown inside a message: between quotes, with control characters, backslashes and
quotes of the kind around it escaped. The quotes are single ones, unless the text holds a single
quote and either no double quote or nothing that would end a text between backticks. A long text is
shown line by line, each line between quotes of its own. Of a text longer than `textUnits` only the
beginning is looked at, and what is shown is cut off behind `shownUnits` units.
-/

namespace Chip8.Text

/-- The units of a text that are looked at. -/
def textUnits : Nat := 10000

/-- The units of a text up to which it is shown in one piece. -/
def pieceUnits : Nat := 76

/-- The units of a quoted text that a message shows. -/
def shownUnits : Nat := 128

def singleQuote : Char := '\x27'

def doubleQuote : Char := '\x22'

def backtick : Char := '\x60'

/-- The quote that a text is shown between. -/
def quoteFor (s : List Char) : Char :=
  if !s.contains singleQuote then singleQuote
  else if !s.contains doubleQuote then doubleQuote
  else if !s.contains backtick && !(s.zip s.tail).contains ('$', '\x7b') then backtick
  else singleQuote

/-- A character between quotes. -/
def escape (quote c : Char) : List Char :=
  if c = quote || c = '\\' then ['\\', c]
  else if c = '\n' then ['\\', 'n']
  else if c = '\t' then ['\\', 't']
  else if c = '\r' then ['\\', 'r']
  else if c = '\x08' then ['\\', 'b']
  else if c = '\x0c' then ['\\', 'f']
  else if c < ' ' || '\x7f' ≤ c && c ≤ '\u009f' then '\\' :: 'x' :: (hexUpper 2 c.toNat).toList
  else
    match half? c with
    | some unit => '\\' :: 'u' :: (hexLower 4 unit).toList
    | none => [c]

/-- A group of characters between quotes. A pair of halves is shown as it is. -/
def escapeGroup (quote : Char) : List Char → List Char
  | [c] => escape quote c
  | group => group

/-- A piece of text between quotes. -/
def quotePiece (s : List Char) : List Char :=
  let quote := quoteFor s
  quote :: ((groups s).flatMap (escapeGroup quote) ++ [quote])

/-- The lines of a text, each with the line end behind it. -/
def linesWithEnds : List Char → List (List Char)
  | [] => []
  | c :: rest =>
    if c = '\n' then [c] :: linesWithEnds rest
    else
      match linesWithEnds rest with
      | [] => [[c]]
      | line :: lines => (c :: line) :: lines

/-- A text between quotes, a long one as a sum of its lines. -/
def quote (s : List Char) : List Char :=
  let s := takeUnits textUnits s
  if (s.flatMap charUnits).length ≤ pieceUnits then quotePiece s
  else [' ', '+', '\n', ' ', ' '].intercalate ((linesWithEnds s).map quotePiece)

def shown (s : String) : String :=
  let quoted := quote s.toList
  if (quoted.flatMap charUnits).length ≤ shownUnits then String.ofList quoted
  else String.ofList (takeUnits shownUnits quoted ++ ['.', '.', '.'])

theorem flatten_linesWithEnds (s : List Char) : (linesWithEnds s).flatten = s := by
  induction s with
  | nil => rfl
  | cons c rest ih =>
    unfold linesWithEnds
    split
    · simp [ih]
    · split <;> simp_all

end Chip8.Text
