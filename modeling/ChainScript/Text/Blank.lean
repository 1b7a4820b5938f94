/-! # Blank characters, trimming and lines

Text is read as a list of characters.

* `isBlank`: the 25 code points with the Unicode property White_Space.
* `trim`: a text without the blanks at either end.
* `lines`: the lines of a text. A line ends at a line feed, loses one carriage return before it, and
  an empty rest after the last line feed is no line.
-/

namespace ChainScript.Text
set_option autoImplicit false

/-! ## Blanks -/

/-- The code points with the property White_Space. Zero-width spaces and the separators U+001C to
U+001F are not among them. -/
def isBlank (c : Char) : Bool :=
  let n := c.toNat
  (9 ≤ n && n ≤ 13) || n == 0x20 || n == 0x85 || n == 0xA0 || n == 0x1680 ||
    (0x2000 ≤ n && n ≤ 0x200A) || n == 0x2028 || n == 0x2029 || n == 0x202F || n == 0x205F ||
    n == 0x3000

/-- The characters without the blanks at either end. -/
def trimChars (cs : List Char) : List Char :=
  ((cs.dropWhile isBlank).reverse.dropWhile isBlank).reverse

/-- The text without the blanks at either end. -/
def trim (text : String) : String :=
  String.ofList (trimChars text.toList)

/-! ## Lines -/

/-- A line whose characters were collected last first, without the carriage return that stood before
its line feed. -/
def endLine : List Char → List Char
  | '\r' :: line => line.reverse
  | line => line.reverse

/-- The lines of a text whose first characters, last first, are already in `line`. -/
def linesFrom (line : List Char) : List Char → List (List Char)
  | [] => if line.isEmpty then [] else [line.reverse]
  | c :: rest => if c = '\n' then endLine line :: linesFrom [] rest else linesFrom (c :: line) rest

/-- The lines of a text. -/
def lines (text : String) : List String :=
  (linesFrom [] text.toList).map String.ofList

/-! ## Widths -/

/-- Bytes that the characters take in UTF-8. -/
def utf8Length : List Char → Nat
  | [] => 0
  | c :: cs => c.utf8Size + utf8Length cs

/-- The text followed by blanks up to `width` characters; a longer text is kept whole. -/
def padTo (width : Nat) (text : String) : String :=
  String.ofList (text.toList ++ List.replicate (width - text.toList.length) ' ')

end ChainScript.Text
