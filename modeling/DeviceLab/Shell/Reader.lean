import DeviceLab.Shell.Tree

namespace DeviceLab.Shell

/-- Why a script cannot be read, and the line at which that is found out. -/
structure SyntaxFault where
  line : Nat
  detail : String
  deriving Repr, DecidableEq, Inhabited

/-- A redirection whose target has not been read. -/
structure RedirectionMark where
  stream : Option Nat
  operator : String
  deriving Repr, DecidableEq, Inhabited

/-- A token of a script. -/
inductive Token
  | newline
  | finish
  | operator (text : String)
  | keyword (text : String)
  | redirection (mark : RedirectionMark)
  | word (word : Word)
  deriving Inhabited

namespace Token

def label : Token → String
  | .newline => "newline"
  | .finish => "end of file"
  | .operator text | .keyword text => s!"\"{text}\""
  | .redirection _ => "redirection"
  | .word _ => "word"

def keywords : List String :=
  ["!", "case", "do", "done", "elif", "else", "esac", "fi", "for", "if", "in", "then", "until",
    "while", "\x7b", "\x7d"]

def endsList : Token → Bool
  | .finish => true
  | .operator text => [")", ";;"].contains text
  | .keyword text => ["do", "done", "elif", "else", "esac", "fi", "then", "\x7d"].contains text
  | .newline | .redirection _ | .word _ => false

end Token

/-- A document that has been announced.  It ends before a line that is its mark. -/
structure AnnouncedDocument where
  number : Nat
  mark : String
  quoted : Bool
  strips : Bool
  deriving Repr, DecidableEq, Inhabited

/-- A reader of a script.  Documents are numbered throughout the life of a shell. -/
structure Reader where
  rest : List Char
  line : Nat := 1
  held : Option Token := none
  announced : List AnnouncedDocument := []
  documents : List (Nat × Word) := []
  nextDocument : Nat := 0
  deriving Inhabited

abbrev Reads := StateT Reader (Except SyntaxFault)

namespace Reader

def fail {α : Type} (detail : String) : Reads α := do
  throw { line := (← get).line, detail := s!"Syntax error: {detail}" }

/-- Complain of a token where another one is needed, or where none like it may stand. -/
def unexpected {α : Type} (token : Token) (wanted : Option Token) : Reads α :=
  let text := match wanted with
    | some wanted => s!"{token.label} unexpected (expecting {wanted.label})"
    | none => s!"{token.label} unexpected"
  fail (String.ofList (text.toList.take 63))

/-- The next character, as it is written. -/
def takeRaw : Reads (Option Char) := do
  let r ← get
  match r.rest with
  | [] => return none
  | c :: rest =>
    set { r with rest, line := if c = '\n' then r.line + 1 else r.line }
    return some c

/-- Without joined lines at the start; the number counts the lines. -/
def dropJoints (line : Nat) : List Char → List Char × Nat
  | '\\' :: '\n' :: rest => dropJoints (line + 1) rest
  | cs => (cs, line)

def peek : Reads (Option Char) := do
  let r ← get
  let (rest, line) := dropJoints r.line r.rest
  set { r with rest, line }
  return rest.head?

def take : Reads (Option Char) := do
  let _ ← peek
  takeRaw

def takeIf (c : Char) : Reads Bool := do
  if (← peek) = some c then
    let _ ← takeRaw
    return true
  return false

def hold (token : Token) : Reads Unit :=
  modify fun r => { r with held := some token }

/-- Skip a comment, up to the end of its line. -/
def skipComment : Reads Unit :=
  modify fun r => { r with rest := r.rest.dropWhile (· != '\n') }

end Reader

def beginsName (c : Char) : Bool :=
  c.isAlpha || c == '_'

def inName (c : Char) : Bool :=
  c.isAlphanum || c == '_'

def isName (text : String) : Bool :=
  match text.toList with
  | [] => false
  | c :: cs => beginsName c && cs.all inName

def isSpecial (c : Char) : Bool :=
  ['#', '?', '$', '!', '-', '*', '@'].contains c || c.isDigit

def endsWord (c : Char) : Bool :=
  [' ', '\t', '\n', '<', '>', '(', ')', ';', '&', '|'].contains c

def assignment? : Word → Option (String × Word)
  | .text text false :: rest =>
    let cs := text.toList
    let name := cs.takeWhile (· != '=')
    if isName (String.ofList name) && name.length < cs.length then
      let value := cs.drop (name.length + 1)
      let word := if value.isEmpty then rest else .text (String.ofList value) false :: rest
      some (String.ofList name, word)
    else none
  | _ => none

/-- The surroundings in which parts of a word are read, which decide what is special there. -/
inductive Surroundings
  | bare
  | quotes
  | braces
  | quotedBraces (inner : Bool)
  | document
  | arithmetic (depth : Nat)
  deriving Repr, DecidableEq

namespace Surroundings

def isQuoted : Surroundings → Bool
  | .bare | .braces => false
  | .quotes | .quotedBraces _ | .document | .arithmetic _ => true

/-- Whether a backslash there takes the meaning of a character away. -/
def escapes (s : Surroundings) (c : Char) : Bool :=
  match s with
  | .bare | .braces => true
  | .quotes | .arithmetic _ => ['\\', '$', '\x60', '"'].contains c
  | .quotedBraces _ => ['\\', '$', '\x60', '"', '\x7d'].contains c
  | .document => ['\\', '$', '\x60'].contains c

end Surroundings

/-- Put a text before parts, joined to the first of them where both are quoted alike. -/
def addText (text : String) (quoted : Bool) : Word → Word
  | .text first q :: rest =>
    if q = quoted then .text (text ++ first) quoted :: rest else .text text quoted :: .text first q :: rest
  | parts => .text text quoted :: parts

/-- The parts of a word read so far, last first, in order, texts that are quoted alike joined. -/
def assemble (reversed : List Part) : Word :=
  reversed.foldl (fun word part => match part with
    | .text text quoted => addText text quoted word
    | part => part :: word) []

def readSingle (acc : List Char) : List Char → Option (List Char × List Char)
  | [] => none
  | '\'' :: rest => some (acc.reverse, rest)
  | c :: rest => readSingle (c :: acc) rest

/-- The script between two backquotes, in reverse, and what stands after them. -/
def readBackquoted (quoted : Bool) (acc : List Char) : List Char → Option (List Char × List Char)
  | [] => none
  | '\x60' :: rest => some (acc.reverse, rest)
  | '\\' :: c :: rest =>
    if c = '\\' ∨ c = '\x60' ∨ c = '$' ∨ (quoted ∧ c = '"') then
      readBackquoted quoted (c :: acc) rest
    else readBackquoted quoted (c :: '\\' :: acc) rest
  | c :: rest => readBackquoted quoted (c :: acc) rest

def countLines (cs : List Char) : Nat :=
  cs.count '\n'

/-- The lines of a document, last first, and what stands after it.  `continues` says that the next
line belongs to the one before it. -/
def readLines (d : AnnouncedDocument) (continues : Bool) (acc : List (List Char)) :
    Nat → List Char → List (List Char) × List Char
  | 0, cs => (acc, cs)
  | _, [] => (acc, [])
  | fuel + 1, cs =>
    let line := cs.takeWhile (· != '\n')
    let rest := cs.drop (line.length + 1)
    let line := if d.strips then line.dropWhile (· == '\t') else line
    if !continues && String.ofList line == d.mark then (acc, rest)
    else
      let slashes := (line.reverse.takeWhile (· == '\\')).length
      let line := if line.length < cs.length then line ++ ['\n'] else line
      readLines d (!d.quoted && slashes % 2 == 1) (line :: acc) fuel rest

/-- The name of a parameter in braces, after the brace, and whether its length is asked for; `none`
if there is no such parameter. -/
def readParameterName : Reads (Option (String × Bool)) := do
  let name (asked : Bool) : Reads (Option (String × Bool)) := do
    let r ← get
    let first := r.rest.takeWhile inName
    let letters := if r.rest.head?.any Char.isDigit then r.rest.takeWhile Char.isDigit else first
    set { r with rest := r.rest.drop letters.length }
    return some (String.ofList letters, asked)
  match ← Reader.peek with
  | none => return none
  | some '#' =>
    let _ ← Reader.takeRaw
    match ← Reader.peek with
    | none => return some ("#", false)
    | some c =>
      if inName c then name true
      else
        let r ← get
        match r.rest with
        | c :: '\x7d' :: _ =>
          if c ≠ '\x7d' ∧ isSpecial c then
            set { r with rest := r.rest.drop 1 }
            return some (String.singleton c, true)
          else return some ("#", false)
        | _ => return some ("#", false)
  | some c =>
    if inName c then name false
    else if isSpecial c then
      let _ ← Reader.takeRaw
      return some (String.singleton c, false)
    else return none

/-- What is done with a parameter in braces, as far as its sign goes: a function of the word that
follows, and whether that word is a pattern; `none` when the brace closes at once. -/
def readSign (asked : Bool) : Reads (Option ((Word → Operation) × Bool)) := do
  let sign (lack : Lack) (c : Char) : Option (Word → Operation) :=
    match c with
    | '-' => some (.fallback lack)
    | '+' => some (.instead lack)
    | '?' => some (.require lack)
    | '=' => some (.assign lack)
    | '\x7d' => some fun _ => .value
    | _ => none
  let bad : Option ((Word → Operation) × Bool) := some (fun _ => .bad, false)
  let signed (lack : Lack) (c : Char) : Reads (Option ((Word → Operation) × Bool)) := do
    -- a line feed in the place of a sign does not begin a line
    if c = '\n' then modify fun r => { r with line := r.line - 1 }
    return some (((sign lack c).getD fun _ => .bad), false)
  if asked then
    if ← Reader.takeIf '\x7d' then return none else return bad
  match ← Reader.take with
  | none => return bad
  | some '\x7d' => return none
  | some ':' =>
    match ← Reader.take with
    | some c => signed .empty c
    | none => return bad
  | some '%' =>
    let longest ← Reader.takeIf '%'
    return some (.cut .back longest, true)
  | some '#' =>
    let longest ← Reader.takeIf '#'
    return some (.cut .front longest, true)
  | some c => signed .unset c

end DeviceLab.Shell
