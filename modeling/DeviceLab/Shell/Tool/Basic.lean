import DeviceLab.Shell.Builtin

namespace DeviceLab.Shell

open Text

/-- Start a program in the process: its name and arguments.  The answer says why it cannot be
started. -/
abbrev Start := List String → Act (Option FileError)

/-- What a tool does; it may give up with a status. -/
abbrev Tool := ExceptT Nat Act

namespace Tool

def warn (text : String) : Tool Unit := do
  let p ← Act.process
  writeError s!"{p.name}: {text}\n"

/-- Complain, and give up. -/
def quit {α : Type} (status : Nat) (text : String) : Tool α := do
  warn text
  throw status

/-- Complain of the way the tool is used, and give up. -/
def misused {α : Type} (status : Nat) (text : String) : Tool α := do
  let p ← Act.process
  warn s!"{text}\nTry '{p.name} --help' for more information."
  throw status

def put (text : String) : Tool Unit := do
  let _ ← write 1 text

def isPlain (c : Char) : Bool :=
  ' ' ≤ c && c ≤ '~'

/-- The escape of a character that may not stand in a message. -/
def escapeOf (c : Char) : String :=
  match c with
  | '\x07' => "\\a"
  | '\x08' => "\\b"
  | '\t' => "\\t"
  | '\n' => "\\n"
  | '\x0b' => "\\v"
  | '\x0c' => "\\f"
  | '\r' => "\\r"
  | c =>
    let digits := Nat.toDigits 8 c.toNat
    String.ofList ('\\' :: (List.replicate (3 - digits.length) '0' ++ digits))

/-- A name as a shell could read it: in quotation marks, with escapes in marks of their own. -/
def quotedName (name : String) : String :=
  let cs := name.toList
  if cs.contains singleMark && cs.all fun c => isPlain c && !(['"', '$', '\x60', '\\'].contains c) then
    String.ofList (doubleMark :: cs ++ [doubleMark])
  else
    let rec go (escaped : Bool) : List Char → String
      | [] => String.singleton singleMark
      | c :: rest =>
        if c = singleMark then
          (if escaped then "''" else "") ++ "'\\''" ++ go false rest
        else if isPlain c then
          (if escaped then "''" else "") ++ String.singleton c ++ go false rest
        else (if escaped then "" else "'$'") ++ escapeOf c ++ go true rest
    String.singleton singleMark ++ go false cs

/-- A text in quotation marks, with escapes. -/
def quoted (text : String) : String :=
  let inside := text.toList.map fun c =>
    if c = singleMark ∨ c = '\\' then String.ofList ['\\', c]
    else if isPlain c then String.singleton c
    else escapeOf c
  String.singleton singleMark ++ String.join inside ++ String.singleton singleMark

/-- The options that a tool knows: letters without and with a value, and long names for them.  With
`ordered` they end at the first other argument. -/
structure Manual where
  plain : List Char := []
  valued : List Char := []
  long : List (String × Char) := []
  ordered : Bool := false
  status : Nat := 1

/-- The option that a long name or the beginning of one stands for. -/
def Manual.named? (manual : Manual) (name : String) : Option Char :=
  match manual.long.lookup name with
  | some c => some c
  | none =>
    match manual.long.filter fun entry => entry.1.startsWith name with
    | [(_, c)] => some c
    | _ => none

def readArguments (manual : Manual) :
    List String → Tool (List (Char × String) × List String)
  | [] => return ([], [])
  | arg :: rest => do
    match arg.toList with
    | ['-', '-'] => return ([], rest)
    | '-' :: '-' :: cs =>
      let name := String.ofList (cs.takeWhile (· != '='))
      let given? := if name.length < cs.length then
          some (String.ofList (cs.drop (name.length + 1)))
        else none
      if name = "help" ∨ name = "version" then throw 0
      match manual.named? name with
      | none => misused manual.status s!"unrecognized option '--{name}'"
      | some c =>
        match manual.valued.contains c, given?, rest with
        | true, some value, rest =>
          let (flags, operands) ← readArguments manual rest
          return ((c, value) :: flags, operands)
        | true, none, value :: rest =>
          let (flags, operands) ← readArguments manual rest
          return ((c, value) :: flags, operands)
        | true, none, [] => misused manual.status s!"option '--{name}' requires an argument"
        | false, some _, _ => misused manual.status s!"option '--{name}' doesn't allow an argument"
        | false, none, rest =>
          let (flags, operands) ← readArguments manual rest
          return ((c, "") :: flags, operands)
    | '-' :: c :: cs =>
      let found := WordFlags.ofChars manual.plain manual.valued (c :: cs)
      match found.unknown, found.lacking, rest with
      | some c, _, _ => misused manual.status s!"invalid option -- '{c}'"
      | none, some c, [] => misused manual.status s!"option requires an argument -- '{c}'"
      | none, some c, value :: rest =>
        let (flags, operands) ← readArguments manual rest
        return (found.flags ++ (c, value) :: flags, operands)
      | none, none, rest =>
        let (flags, operands) ← readArguments manual rest
        return (found.flags ++ flags, operands)
    | _ =>
      if manual.ordered then return ([], arg :: rest)
      let (flags, operands) ← readArguments manual rest
      return (flags, arg :: operands)

def has (flags : List (Char × String)) (c : Char) : Bool :=
  flags.any (·.1 == c)

def value? (flags : List (Char × String)) (c : Char) : Option String :=
  flags.reverse.lookup c

/-- The bytes that a path leads to; a hyphen stands for the input. -/
def input (path : String) : Act (Except FileError (List UInt8)) := do
  if path = "-" ∨ path = "/dev/stdin" then
    match ← readAll 0 with
    | some bytes => return .ok bytes
    | none => return .error .closed
  match ← nodeAt path with
  | .error e => return .error e
  | .ok (_, node) => return (← Act.machine).tree.content node

/-- The lines of a text, and whether the last of them has been ended. -/
def linesOf (text : String) : List String × Bool :=
  let rec go (line : List Char) (done : List String) : List Char → List String × Bool
    | [] => if line.isEmpty then (done.reverse, true)
      else ((String.ofList line.reverse :: done).reverse, false)
    | c :: rest =>
      if c = '\n' then go [] (String.ofList line.reverse :: done) rest else go (c :: line) done rest
  go [] [] text.toList

def unlines (lines : List String) : String :=
  String.join (lines.map (· ++ "\n"))

/-- Do something with the text of each of some files, or of the input when there are none; those
that cannot be read are complained of.  The answer is 0, or a status for such files. -/
def eachInput (files : List String) (status : Nat) (complaint : String → FileError → String)
    (act : String → String → Tool Unit) : Tool Nat := do
  let mut answer := 0
  for file in (if files.isEmpty then ["-"] else files) do
    match ← input file with
    | .ok bytes => act file (ofBytes bytes)
    | .error e =>
      warn (complaint file e)
      answer := status
  return answer

def plainComplaint (file : String) (e : FileError) : String :=
  s!"{file}: {e.label}"

def number (text : String) (status : Nat) (what : String) : Tool Nat := do
  let cs := text.toList
  if cs.isEmpty || !cs.all Char.isDigit then quit status s!"{what}: {quoted text}"
  else return ofDigits 10 cs

end Tool

end DeviceLab.Shell
