import ChainScript.Address

/-! # Strings, keys and blanks of a settings document

Every reader takes a list of characters and gives what it read and the characters behind it. A basic
string has escapes, a literal string has none, and each of them may run over several lines between
three quotes. Line ends inside a string count as line feeds.
-/

namespace ChainScript.Toml
set_option autoImplicit false

/-! ## Characters -/

def isSpace (c : Char) : Bool := c == ' ' || c == '\t'

/-- Characters other than controls; a tab is allowed. -/
def isPrintable (c : Char) : Bool := c == '\t' || (0x20 ≤ c.toNat && c.toNat != 0x7F)

def isBareKeyChar (c : Char) : Bool :=
  ('A' ≤ c && c ≤ 'Z') || ('a' ≤ c && c ≤ 'z') || ('0' ≤ c && c ≤ '9') || c == '-' || c == '_'

def isScalar (n : Nat) : Bool := n < 0xD800 || (0xE000 ≤ n && n < 0x110000)

/-! ## Blanks and line ends -/

def skipSpaces (cs : List Char) : List Char := cs.dropWhile isSpace

/-- The characters behind a comment, if there is one. -/
def skipComment : List Char → List Char
  | '#' :: rest => rest.dropWhile isPrintable
  | cs => cs

/-- The characters behind the end of a line; the end of the text ends a line. -/
def lineEnd : List Char → Option (List Char)
  | [] => some []
  | '\n' :: rest => some rest
  | '\r' :: '\n' :: rest => some rest
  | _ => none

/-- The characters behind a line on which nothing more is said. -/
def restOfLine (cs : List Char) : Option (List Char) :=
  lineEnd (skipComment (skipSpaces cs))

/-- The characters behind blanks, comments and line ends. -/
def skipLines (inComment : Bool) : List Char → List Char
  | [] => []
  | '\n' :: rest => skipLines false rest
  | '\r' :: '\n' :: rest => skipLines false rest
  | c :: rest =>
    if inComment then if isPrintable c then skipLines true rest else c :: rest
    else if isSpace c then skipLines false rest
    else if c = '#' then skipLines true rest
    else c :: rest

/-! ## Basic strings -/

/-- Where a basic string stands: plain, behind a backslash, in a code point of which so many digits
are left, behind a backslash that must end its line, or in the blanks behind such a line. -/
inductive Escape where
  | plain
  | started
  | code (left value : Nat)
  | lineBreak
  | gap

/-- The character that a letter behind a backslash stands for. -/
def escaped? : Char → Option Char
  | 'b' => some (Char.ofNat 8)
  | 't' => some '\t'
  | 'n' => some '\n'
  | 'f' => some (Char.ofNat 12)
  | 'r' => some '\r'
  | '"' => some '"'
  | '\\' => some '\\'
  | _ => none

/-- What follows a letter behind a backslash: a character, or the digits of a code point. -/
def escape? (c : Char) : Option (Escape × List Char) :=
  if c = 'u' then some (.code 4 0, [])
  else if c = 'U' then some (.code 8 0, [])
  else (escaped? c).map fun e => (.plain, [e])

/-- What follows a digit of a code point. -/
def codeDigit? (left value : Nat) (c : Char) : Option (Escape × List Char) :=
  match Address.hexValue? c with
  | none => none
  | some digit =>
    let next := 16 * value + digit
    if left ≤ 1 then if isScalar next then some (.plain, [Char.ofNat next]) else none
    else some (.code (left - 1) next, [])

/-- The rest of a basic string on one line. `read` holds the characters before it, last first. -/
def basicRest : Escape → List Char → List Char → Option (List Char × List Char)
  | _, _, [] => none
  | .started, read, c :: rest =>
    match escape? c with
    | some (mode, more) => basicRest mode (more ++ read) rest
    | none => none
  | .code left value, read, c :: rest =>
    match codeDigit? left value c with
    | some (mode, more) => basicRest mode (more ++ read) rest
    | none => none
  | _, read, c :: rest =>
    if c = '"' then some (read.reverse, rest)
    else if c = '\\' then basicRest .started read rest
    else if isPrintable c then basicRest .plain (c :: read) rest
    else none

/-- The rest of a basic string over several lines. It may end with one or two quotes before the
three that close it. -/
def basicLinesRest : Escape → List Char → List Char → Option (List Char × List Char)
  | _, _, [] => none
  | .started, read, c :: rest =>
    if isSpace c then basicLinesRest .lineBreak read rest
    else if c = '\n' then basicLinesRest .gap read rest
    else if c = '\r' then
      match rest with
      | '\n' :: rest => basicLinesRest .gap read rest
      | _ => none
    else
      match escape? c with
      | some (mode, more) => basicLinesRest mode (more ++ read) rest
      | none => none
  | .code left value, read, c :: rest =>
    match codeDigit? left value c with
    | some (mode, more) => basicLinesRest mode (more ++ read) rest
    | none => none
  | .lineBreak, read, c :: rest =>
    if isSpace c then basicLinesRest .lineBreak read rest
    else if c = '\n' then basicLinesRest .gap read rest
    else if c = '\r' then
      match rest with
      | '\n' :: rest => basicLinesRest .gap read rest
      | _ => none
    else none
  | .gap, read, '\n' :: rest => basicLinesRest .gap read rest
  | .gap, read, '\r' :: '\n' :: rest => basicLinesRest .gap read rest
  | .gap, read, ' ' :: rest => basicLinesRest .gap read rest
  | .gap, read, '\t' :: rest => basicLinesRest .gap read rest
  | _, read, '"' :: '"' :: '"' :: '"' :: '"' :: rest => some (('"' :: '"' :: read).reverse, rest)
  | _, read, '"' :: '"' :: '"' :: '"' :: rest => some (('"' :: read).reverse, rest)
  | _, read, '"' :: '"' :: '"' :: rest => some (read.reverse, rest)
  | _, read, '\n' :: rest => basicLinesRest .plain ('\n' :: read) rest
  | _, read, '\r' :: '\n' :: rest => basicLinesRest .plain ('\n' :: read) rest
  | _, read, c :: rest =>
    if c = '\\' then basicLinesRest .started read rest
    else if isPrintable c then basicLinesRest .plain (c :: read) rest
    else none

/-! ## Literal strings -/

/-- The rest of a literal string on one line. -/
def literalRest (cs : List Char) : Option (List Char × List Char) :=
  let isInside (c : Char) : Bool := isPrintable c && c != '\''
  match cs.dropWhile isInside with
  | '\'' :: rest => some (cs.takeWhile isInside, rest)
  | _ => none

/-- The rest of a literal string over several lines. -/
def literalLinesRest : List Char → List Char → Option (List Char × List Char)
  | _, [] => none
  | read, '\'' :: '\'' :: '\'' :: '\'' :: '\'' :: rest =>
    some (('\'' :: '\'' :: read).reverse, rest)
  | read, '\'' :: '\'' :: '\'' :: '\'' :: rest => some (('\'' :: read).reverse, rest)
  | read, '\'' :: '\'' :: '\'' :: rest => some (read.reverse, rest)
  | read, '\n' :: rest => literalLinesRest ('\n' :: read) rest
  | read, '\r' :: '\n' :: rest => literalLinesRest ('\n' :: read) rest
  | read, c :: rest => if isPrintable c then literalLinesRest (c :: read) rest else none

/-! ## Strings and keys -/

/-- The characters behind a line end right after the opening of a string over several lines. -/
def skipFirstLineEnd : List Char → List Char
  | '\n' :: rest => rest
  | '\r' :: '\n' :: rest => rest
  | cs => cs

/-- A string of any form. -/
def readString : List Char → Option (List Char × List Char)
  | '"' :: '"' :: '"' :: rest => basicLinesRest .plain [] (skipFirstLineEnd rest)
  | '"' :: rest => basicRest .plain [] rest
  | '\'' :: '\'' :: '\'' :: rest => literalLinesRest [] (skipFirstLineEnd rest)
  | '\'' :: rest => literalRest rest
  | _ => none

/-- A key without dots: bare, or a string on one line. -/
def readSimpleKey : List Char → Option (List Char × List Char)
  | '"' :: rest => basicRest .plain [] rest
  | '\'' :: rest => literalRest rest
  | cs =>
    let key := cs.takeWhile isBareKeyChar
    if key.isEmpty then none else some (key, cs.dropWhile isBareKeyChar)

/-- How deep values may nest, and how many parts a key may have. -/
def maxDepth : Nat := 79

/-- The parts of a dotted key; `fuel` bounds their number. -/
def readKeyParts : Nat → List Char → Option (List String × List Char)
  | 0, _ => none
  | fuel + 1, cs =>
    match readSimpleKey (skipSpaces cs) with
    | none => none
    | some (part, rest) =>
      match skipSpaces rest with
      | '.' :: rest =>
        match readKeyParts fuel rest with
        | some (parts, rest) => some (String.ofList part :: parts, rest)
        | none => none
      | rest => some ([String.ofList part], rest)

/-- A key: the tables on its path and its last part. -/
def readKey (cs : List Char) : Option ((List String × String) × List Char) :=
  match readKeyParts maxDepth cs with
  | some (parts, rest) => (parts.getLast?).map fun last => ((parts.dropLast, last), rest)
  | none => none

end ChainScript.Toml
