import DeviceLab.Text.Json

namespace DeviceLab.Text.Json

def orderMark : Char := '\uFEFF'

def isBreak (c : Char) : Bool :=
  c == '\n' || c == '\r' || c == '\u0085' || c == '\u2028' || c == '\u2029'

def isBlank (c : Char) : Bool :=
  c == ' ' || c == '\t'

/-- Without the white space at the start, between tokens of a value; `fresh` says whether a line
begins there. -/
def skipFrom (fresh : Bool) : List Char → List Char
  | [] => []
  | c :: cs =>
    if isBreak c then skipFrom true cs
    else if isBlank c || (fresh && c == orderMark) then skipFrom false cs
    else c :: cs

/-- Without the white space at the start, between tokens of a value. -/
def skipSpace (cs : List Char) : List Char :=
  skipFrom false cs

/-- Without the white space at the start, around the value of a document; `tabs` says whether tabs
count as white space on this line. -/
def skipMargin (fresh tabs : Bool) : List Char → List Char
  | [] => []
  | c :: cs =>
    if isBreak c then skipMargin true false cs
    else if c == ' ' || (tabs && c == '\t') || (fresh && c == orderMark) then
      skipMargin false tabs cs
    else c :: cs

def hexDigit? (c : Char) : Option Nat :=
  if '0' ≤ c ∧ c ≤ '9' then some (c.toNat - '0'.toNat)
  else if 'a' ≤ c ∧ c ≤ 'f' then some (c.toNat - 'a'.toNat + 10)
  else if 'A' ≤ c ∧ c ≤ 'F' then some (c.toNat - 'A'.toNat + 10)
  else none

/-- The character with a code point in hexadecimal; `none` where there is none. -/
def codePoint? (digits : List Char) : Option Char := do
  let values ← digits.mapM hexDigit?
  let n := values.foldl (fun n d => n * 16 + d) 0
  if h : n.isValidChar then return Char.ofNatAux n h else none

/-- The character that a letter stands for after a backslash. -/
def unescaped? (c : Char) : Option Char :=
  match c with
  | '"' => some '"'
  | '\\' => some '\\'
  | '/' => some '/'
  | ' ' => some ' '
  | '0' => some '\x00'
  | 'a' => some '\x07'
  | 'b' => some '\x08'
  | 't' => some '\t'
  | 'n' => some '\n'
  | 'v' => some '\x0b'
  | 'f' => some '\x0c'
  | 'r' => some '\r'
  | 'e' => some '\x1b'
  | 'N' => some '\u0085'
  | '_' => some '\u00A0'
  | 'L' => some '\u2028'
  | 'P' => some '\u2029'
  | _ => none

/-- The line breaks among white space; all but the separators of lines and paragraphs count as line
feeds. -/
def breaksOf : List Char → List Char
  | [] => []
  | '\r' :: '\n' :: cs => '\n' :: breaksOf cs
  | c :: cs =>
    if c == '\u2028' || c == '\u2029' then c :: breaksOf cs
    else if isBreak c then '\n' :: breaksOf cs
    else breaksOf cs

/-- What white space within quotes stands for: itself where it has no line break, a space for a
single line feed, and otherwise its breaks without a line feed at the start. -/
def folded (white : List Char) : List Char :=
  match breaksOf white with
  | [] => white
  | ['\n'] => [' ']
  | '\n' :: more => more
  | breaks => breaks

/-- The characters of a text up to its closing quote, after white space in reverse. -/
def readTextFrom (white : List Char) : List Char → Option (List Char × List Char)
  | [] => none
  | '"' :: rest => some (folded white.reverse, rest)
  | '\\' :: 'u' :: a :: b :: c :: d :: rest => do
    let character ← codePoint? [a, b, c, d]
    let (more, rest) ← readTextFrom [] rest
    return (folded white.reverse ++ character :: more, rest)
  | '\\' :: 'x' :: a :: b :: rest => do
    let character ← codePoint? [a, b]
    let (more, rest) ← readTextFrom [] rest
    return (folded white.reverse ++ character :: more, rest)
  | '\\' :: e :: rest => do
    let character ← unescaped? e
    let (more, rest) ← readTextFrom [] rest
    return (folded white.reverse ++ character :: more, rest)
  | c :: rest => do
    if isBlank c || isBreak c then readTextFrom (c :: white) rest
    else
      let (more, rest) ← readTextFrom [] rest
      return (folded white.reverse ++ c :: more, rest)

def readText (cs : List Char) : Option (List Char × List Char) :=
  readTextFrom [] cs

def isWhole (digits : List Char) : Bool :=
  match digits with
  | [] => false
  | ['0'] => true
  | c :: _ => c != '0'

def readFraction : List Char → Option (List Char × List Char)
  | '.' :: cs =>
    let digits := cs.takeWhile Char.isDigit
    if digits.isEmpty then none else some ('.' :: digits, cs.drop digits.length)
  | cs => some ([], cs)

def readExponent : List Char → Option (List Char × List Char)
  | e :: cs =>
    if e = 'e' ∨ e = 'E' then
      let (sign, cs) := match cs with
        | '+' :: rest => (['+'], rest)
        | '-' :: rest => (['-'], rest)
        | _ => ([], cs)
      let digits := cs.takeWhile Char.isDigit
      if digits.isEmpty then none else some (e :: sign ++ digits, cs.drop digits.length)
    else some ([], e :: cs)
  | [] => some ([], [])

def readNumber (cs : List Char) : Option (String × List Char) := do
  let (sign, cs) := match cs with
    | '-' :: rest => (['-'], rest)
    | _ => ([], cs)
  let whole := cs.takeWhile Char.isDigit
  if isWhole whole then
    let (fraction, cs) ← readFraction (cs.drop whole.length)
    let (exponent, cs) ← readExponent cs
    return (String.ofList (sign ++ whole ++ fraction ++ exponent), cs)
  else none

def maxKeyLength : Nat := 1024

/-- Whether what is written from the start of a key to its colon can be a key. -/
def isKey (written : List Char) : Bool :=
  written.length ≤ maxKeyLength && !written.any isBreak

/-- The key of a member, up to the value. -/
def readKey (cs : List Char) : Option (String × List Char) :=
  let start := skipSpace cs
  match start with
  | '"' :: rest => do
    let (key, rest) ← readText rest
    let rest := skipSpace rest
    match rest with
    | ':' :: after =>
      if isKey (start.take (start.length - rest.length)) then return (String.ofList key, after)
      else none
    | _ => none
  | _ => none

mutual

def readValue : Nat → List Char → Option (Json × List Char)
  | 0, _ => none
  | fuel + 1, cs =>
    match skipSpace cs with
    | 'n' :: 'u' :: 'l' :: 'l' :: rest => some (.null, rest)
    | 't' :: 'r' :: 'u' :: 'e' :: rest => some (.bool true, rest)
    | 'f' :: 'a' :: 'l' :: 's' :: 'e' :: rest => some (.bool false, rest)
    | '"' :: rest => (readText rest).map fun (text, rest) => (.string (String.ofList text), rest)
    | '[' :: rest =>
      match skipSpace rest with
      | ']' :: rest => some (.array [], rest)
      | rest => (readItems fuel rest).map fun (items, rest) => (.array items, rest)
    | '{' :: rest =>
      match skipSpace rest with
      | '}' :: rest => some (.object [], rest)
      | rest => (readMembers fuel rest).map fun (members, rest) => (.object members, rest)
    | rest => (readNumber rest).map fun (digits, rest) => (.number digits, rest)

/-- The items of an array, up to its closing bracket. -/
def readItems : Nat → List Char → Option (List Json × List Char)
  | 0, _ => none
  | fuel + 1, cs => do
    let (item, rest) ← readValue fuel cs
    match skipSpace rest with
    | ',' :: rest =>
      let (more, rest) ← readItems fuel rest
      return (item :: more, rest)
    | ']' :: rest => return ([item], rest)
    | _ => none

/-- The members of an object, up to its closing brace. -/
def readMembers : Nat → List Char → Option (List (String × Json) × List Char)
  | 0, _ => none
  | fuel + 1, cs => do
    let (key, rest) ← readKey cs
    let (value, rest) ← readValue fuel rest
    match skipSpace rest with
    | ',' :: rest =>
      let (more, rest) ← readMembers fuel rest
      return ((key, value) :: more, rest)
    | '}' :: rest => return ([(key, value)], rest)
    | _ => none

end

/-- What a document holds: a value, or nothing. -/
def ofDocument? (text : String) : Option (Option Json) :=
  let cs := skipMargin true false text.toList
  if cs.isEmpty then some none
  else if cs.head? = some '\t' then none
  else do
    let (value, rest) ← readValue (2 * cs.length + 2) cs
    if (skipMargin false true rest).isEmpty then return some value else none

end DeviceLab.Text.Json
