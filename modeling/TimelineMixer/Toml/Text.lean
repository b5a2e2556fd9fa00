import TimelineMixer.Hex

/-!
# Text in TOML

White space, comments, keys and strings. Lines end with a line feed or with a carriage return and a
line feed; other control characters than the tab stand nowhere.
-/

set_option autoImplicit false
set_option relaxedAutoImplicit false

namespace TimelineMixer.TomlText

/-- White space inside a line. -/
def isBlank (c : Char) : Bool :=
  c = ' ' || c = '\t'

/-- A character that may stand in comments and strings. -/
def isPlain (c : Char) : Bool :=
  c = '\t' || (' ' ≤ c && c ≤ '~') || 0x80 ≤ c.toNat

/-- The text from the next character that is no white space. -/
def skipBlanks (text : List Char) : List Char :=
  text.dropWhile isBlank

/-- The text behind a line ending that stands at its front. -/
def takeNewline? : List Char → Option (List Char)
  | '\n' :: rest => some rest
  | '\r' :: '\n' :: rest => some rest
  | _ => none

/-- The text behind a line ending, or nothing left. -/
def endLine? : List Char → Option (List Char)
  | [] => some []
  | text => takeNewline? text

/-- The text from the end of a comment on, if there is a comment. -/
def skipComment : List Char → List Char
  | '#' :: rest => rest.dropWhile isPlain
  | text => text

/-- The text behind the rest of a line, which holds at most a comment. -/
def finishLine? (text : List Char) : Option (List Char) :=
  endLine? (skipComment (skipBlanks text))

/-- The text behind white space, line endings and comments. The bound limits their number. -/
def skipTrivia : Nat → List Char → List Char
  | 0, text => text
  | bound + 1, text =>
    match skipBlanks text with
    | '#' :: rest => skipTrivia bound (rest.dropWhile isPlain)
    | text =>
      match takeNewline? text with
      | some rest => skipTrivia bound rest
      | none => text

/-! ### Strings -/

/-- The character with a code, if there is one. -/
def char? (digits : List Char) : Option Char := do
  let code ← Hex.number? digits
  if code.isValidChar then some (Char.ofNat code) else none

/-- The character of a one-letter escape. -/
def escaped? : Char → Option Char
  | 'b' => some '\x08'
  | 'f' => some '\x0c'
  | 'n' => some '\n'
  | 'r' => some '\r'
  | 't' => some '\t'
  | '\\' => some '\\'
  | '"' => some '"'
  | _ => none

/-- Takes what follows a backslash. -/
def takeEscape? : List Char → Option (Char × List Char)
  | 'u' :: rest => (char? (rest.take 4)).bind fun c ↦
    if rest.length < 4 then none else some (c, rest.drop 4)
  | 'U' :: rest => (char? (rest.take 8)).bind fun c ↦
    if rest.length < 8 then none else some (c, rest.drop 8)
  | c :: rest => (escaped? c).map fun c ↦ (c, rest)
  | [] => none

/-- Puts a character before a string that is read on. -/
def andThen (c : Char) (next : Option (List Char × List Char)) :
    Option (List Char × List Char) :=
  next.map fun (content, rest) ↦ (c :: content, rest)

/-- Takes a string in double quotes from behind the first. The bound limits its length. -/
def takeBasic? : Nat → List Char → Option (List Char × List Char)
  | 0, _ => none
  | _ + 1, '"' :: rest => some ([], rest)
  | bound + 1, '\\' :: rest =>
    (takeEscape? rest).bind fun (c, rest) ↦ andThen c (takeBasic? bound rest)
  | bound + 1, c :: rest => if isPlain c then andThen c (takeBasic? bound rest) else none
  | _ + 1, [] => none

/-- Takes a string in single quotes from behind the first. -/
def takeLiteral? : List Char → Option (List Char × List Char)
  | '\x27' :: rest => some ([], rest)
  | c :: rest => if isPlain c then andThen c (takeLiteral? rest) else none
  | [] => none

/-- Up to two quotes that belong to a string of several lines, before the three that close it. -/
def takeClosing (quote : Char) : List Char → List Char × List Char
  | a :: b :: rest =>
    if a = quote ∧ b = quote then ([a, b], rest)
    else if a = quote then ([a], b :: rest)
    else ([], a :: b :: rest)
  | [a] => if a = quote then ([a], []) else ([], [a])
  | [] => ([], [])

/-- The text from the next character that is neither white space nor a line ending. -/
def skipSpace : List Char → List Char
  | '\n' :: rest => skipSpace rest
  | '\r' :: '\n' :: rest => skipSpace rest
  | c :: rest => if isBlank c then skipSpace rest else c :: rest
  | [] => []

/-- The text behind a backslash that ends a line, without the white space and lines skipped by
it. -/
def continuation? (text : List Char) : Option (List Char) :=
  (takeNewline? (skipBlanks text)).map skipSpace

/-- Takes a string of several lines from behind the opening quotes. The bound limits its length. -/
def takeBasicBlock? : Nat → List Char → Option (List Char × List Char)
  | 0, _ => none
  | _ + 1, '"' :: '"' :: '"' :: rest => some (takeClosing '"' rest)
  | bound + 1, '\\' :: rest =>
    match continuation? rest with
    | some rest => takeBasicBlock? bound rest
    | none => (takeEscape? rest).bind fun (c, rest) ↦ andThen c (takeBasicBlock? bound rest)
  | bound + 1, '\r' :: '\n' :: rest => andThen '\n' (takeBasicBlock? bound rest)
  | bound + 1, c :: rest =>
    if isPlain c ∨ c = '\n' then andThen c (takeBasicBlock? bound rest) else none
  | _ + 1, [] => none

/-- Takes a string of several lines without escapes from behind the opening quotes. -/
def takeLiteralBlock? : List Char → Option (List Char × List Char)
  | '\x27' :: '\x27' :: '\x27' :: rest => some (takeClosing '\x27' rest)
  | '\r' :: '\n' :: rest => andThen '\n' (takeLiteralBlock? rest)
  | c :: rest => if isPlain c ∨ c = '\n' then andThen c (takeLiteralBlock? rest) else none
  | [] => none

/-- The text behind a line ending right after opening quotes. -/
def trimNewline (text : List Char) : List Char :=
  (takeNewline? text).getD text

/-- Takes a string of any kind. -/
def takeString? : List Char → Option (List Char × List Char)
  | '"' :: '"' :: '"' :: rest =>
    let rest := trimNewline rest
    takeBasicBlock? (rest.length + 1) rest
  | '\x27' :: '\x27' :: '\x27' :: rest => takeLiteralBlock? (trimNewline rest)
  | '"' :: rest => takeBasic? (rest.length + 1) rest
  | '\x27' :: rest => takeLiteral? rest
  | _ => none

/-! ### Keys -/

/-- A character of a bare key. -/
def isBare (c : Char) : Bool :=
  c.isAlphanum || c = '-' || c = '_'

/-- Takes one part of a key. -/
def takeKeyPart? : List Char → Option (String × List Char)
  | '"' :: rest => (takeBasic? (rest.length + 1) rest).map fun (key, rest) ↦
    (String.ofList key, rest)
  | '\x27' :: rest => (takeLiteral? rest).map fun (key, rest) ↦ (String.ofList key, rest)
  | text =>
    match text.takeWhile isBare with
    | [] => none
    | key => some (String.ofList key, text.dropWhile isBare)

/-- Takes the parts of a key, with the white space around them. The bound limits their number. -/
def takeKeyParts? : Nat → List Char → Option (List String × List Char)
  | 0, _ => none
  | bound + 1, text => do
    let (key, rest) ← takeKeyPart? (skipBlanks text)
    match skipBlanks rest with
    | '.' :: rest =>
      let (keys, rest) ← takeKeyParts? bound rest
      some (key :: keys, rest)
    | rest => some ([key], rest)

/-- The parts a key may not reach, and the levels that containers may not reach. -/
def depthLimit : Nat := 80

/-- Takes a key: the path before its last part, and that part. -/
def takeKey? (text : List Char) : Option (List String × String × List Char) := do
  let (keys, rest) ← takeKeyParts? depthLimit text
  if depthLimit ≤ keys.length then none
  else
    let last ← keys.getLast?
    some (keys.dropLast, last, rest)

end TimelineMixer.TomlText
