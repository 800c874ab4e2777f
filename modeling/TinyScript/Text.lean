namespace TinyScript

abbrev Byte := UInt8

/-- Text is a list of bytes: lengths, columns and positions count bytes, and no encoding is assumed. -/
abbrev Text := List Byte

/-- The byte of a character below 256. Literals in this library are ASCII. -/
def ascii (c : Char) : Byte := c.toNat.toUInt8

/-- The text of a literal whose characters are all below 256. -/
def Text.ofString (s : String) : Text := s.toList.map ascii

instance : Coe String Text := ⟨Text.ofString⟩

def newline : Byte := ascii '\n'

def isDigit (b : Byte) : Bool := ascii '0' ≤ b && b ≤ ascii '9'

/-- Letters may start a name. The underscore is one of them, bytes outside ASCII are not. -/
def isLetter (b : Byte) : Bool :=
  ascii 'a' ≤ b && b ≤ ascii 'z' || ascii 'A' ≤ b && b ≤ ascii 'Z' || b = ascii '_'

def isWordByte (b : Byte) : Bool := isLetter b || isDigit b

/-- Blanks separate tokens. -/
def isBlank (b : Byte) : Bool :=
  b = ascii ' ' || b = ascii '\t' || b = newline || b = ascii '\r'

namespace Text

/-- Decimal digits, without leading zeros. -/
def ofNat (n : Nat) : Text := (Nat.toDigits 10 n).map ascii

/-- The number that a run of digits stands for. -/
def digitsValue (digits : Text) : Nat :=
  digits.foldl (fun n b => 10 * n + (b.toNat - (ascii '0').toNat)) 0

def join (separator : Text) (parts : List Text) : Text := separator.intercalate parts

def quote (t : Text) : Text := ascii '"' :: t ++ [ascii '"']

/-- How many line breaks the text holds. -/
def breaks (t : Text) : Nat := t.count newline

/-- The text without the bytes of a class at either end. -/
def trim (drop : Byte → Bool) (t : Text) : Text :=
  ((t.dropWhile drop).reverse.dropWhile drop).reverse

/-- Lines end at a line break. Bytes after the last break are a line of their own, nothing after it is none. -/
def lines : Text → List Text
  | [] => []
  | b :: rest =>
    if b = newline then [] :: lines rest
    else match lines rest with
      | [] => [[b]]
      | line :: more => (b :: line) :: more

end Text

end TinyScript
