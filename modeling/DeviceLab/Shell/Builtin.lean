import DeviceLab.Shell.Child
import DeviceLab.Shell.Condition
import DeviceLab.Shell.Expansion
import DeviceLab.Shell.Format
import DeviceLab.Shell.Script

namespace DeviceLab.Shell

open Text

/-- Write an output; the answer is the status. -/
def output (text : String) : Act Nat := do
  if text.isEmpty then return 0
  if ← write 1 text then return 0
  match (← Act.process).command with
  | some command => complain s!"{command}: I/O error"
  | none => complain "I/O error"
  return 1

def singleMark : Char := '\x27'

def doubleMark : Char := '\x22'

/-- A text in quotes, such that a shell reads it as it is. -/
def inQuotes (text : String) : String :=
  let rec go (acc : List Char) : Nat → List Char → List Char
    | 0, _ => acc
    | fuel + 1, cs =>
      let plain := cs.takeWhile (· != singleMark)
      let rest := cs.drop plain.length
      let marks := rest.takeWhile (· == singleMark)
      let acc := acc ++ singleMark :: plain ++ [singleMark]
      if marks.isEmpty then acc
      else
        let acc := acc ++ doubleMark :: marks ++ [doubleMark]
        let rest := rest.drop marks.length
        if rest.isEmpty then acc else go acc fuel rest
  String.ofList (go [] (text.length + 1) text.toList)

def naturalNumber (text : String) : Act Nat := do
  let cs := text.toList
  let n := ofDigits 10 cs
  if cs.isEmpty || !cs.all Char.isDigit || n > 2147483647 then refuse s!"Illegal number: {text}"
  else return n

/-! ### Flags -/

/-- The flags in a word, each with its value. -/
structure WordFlags where
  flags : List (Char × String) := []
  lacking : Option Char := none
  unknown : Option Char := none

def WordFlags.ofChars (plain valued : List Char) : List Char → WordFlags
  | [] => {}
  | c :: cs =>
    if valued.contains c then
      if cs.isEmpty then { lacking := some c } else { flags := [(c, String.ofList cs)] }
    else if plain.contains c then
      let rest := ofChars plain valued cs
      { rest with flags := (c, "") :: rest.flags }
    else { unknown := some c }

def readFlags (plain valued : List Char) : List String → Act (List (Char × String) × List String)
  | [] => return ([], [])
  | arg :: rest => do
    match arg.toList with
    | ['-', '-'] => return ([], rest)
    | '-' :: c :: cs =>
      let found := WordFlags.ofChars plain valued (c :: cs)
      match found.unknown, found.lacking, rest with
      | some c, _, _ => refuse s!"Illegal option -{c}"
      | none, some c, [] => refuse s!"No arg for -{c} option"
      | none, some c, value :: rest =>
        let (more, operands) ← readFlags plain valued rest
        return (found.flags ++ (c, value) :: more, operands)
      | none, none, rest =>
        let (more, operands) ← readFlags plain valued rest
        return (found.flags ++ more, operands)
    | _ => return ([], arg :: rest)

/-! ### Variables -/

def tellVariables (before : String) (wanted : Variable → Bool) : Act Nat := do
  let p ← Act.process
  let told := (p.bindings.filter fun v => wanted v.2).mergeSort fun a b => !(b.1 < a.1)
  output (String.join (told.map fun (name, v) =>
    match v.value with
    | some value => s!"{before}{name}={inQuotes value}\n"
    | none => s!"{before}{name}\n"))

/-- The name before a sign of equality, and the value after it. -/
def splitAssignment (text : String) : String × Option String :=
  let cs := text.toList
  let name := cs.takeWhile (· != '=')
  (String.ofList name,
    if name.length < cs.length then some (String.ofList (cs.drop (name.length + 1))) else none)

/-- Mark variables, perhaps giving them values. -/
def markVariables (command : String) (mark : Variable → Variable) (wanted : Variable → Bool)
    (args : List String) : Act Nat := do
  let (flags, names) ← readFlags ['p'] [] args
  if names.isEmpty || !flags.isEmpty then tellVariables s!"{command} " wanted
  else
    for text in names do
      let (name, value?) := splitAssignment text
      if !isName name then refuse s!"{name}: bad variable name"
      match value? with
      | some value => assign name value false
      | none => pure ()
      modify fun p => p.setVariable name (mark ((p.bindings.lookup name).getD {}))
    return 0

def localCommand (args : List String) : Act Nat := do
  for text in args do
    let (name, value?) := splitAssignment text
    if !isName name && text != "-" then refuse s!"{name}: bad variable name"
    let p ← Act.process
    match p.scopes with
    | [] => refuse "not in a function"
    | scope :: scopes =>
      if text != "-" then
        if (scope.lookup name).isNone then
          set { p with scopes := ((name, p.bindings.lookup name) :: scope) :: scopes }
        match value? with
        | some value => assign name value false
        | none => pure ()
  return 0

def unsetCommand (args : List String) : Act Nat := do
  let (flags, names) ← readFlags ['v', 'f'] [] args
  for name in names do
    let p ← Act.process
    if (flags.getLast?.map (·.1)) = some 'f' then
      set { p with functions := p.functions.filter (·.1 != name) }
    else
      if (p.bindings.lookup name).any (·.readOnly) then refuse s!"{name}: is read only"
      set { p with bindings := p.bindings.filter (·.1 != name) }
  return 0

def shiftCommand (args : List String) : Act Nat := do
  let count ← match args with
    | [] => pure 1
    | text :: _ => naturalNumber text
  let p ← Act.process
  if count > p.args.length then refuse "can't shift that many"
  set { p with args := p.args.drop count, letter := 0 }
  return 0

/-! ### Options -/

/-- The options that have letters, with their names. -/
def optionNames : List (Char × String) :=
  [('e', "errexit"), ('f', "noglob"), ('I', "ignoreeof"), ('i', "interactive"), ('m', "monitor"),
    ('n', "noexec"), ('s', "stdin"), ('x', "xtrace"), ('v', "verbose"), ('V', "vi"), ('E', "emacs"),
    ('C', "noclobber"), ('a', "allexport"), ('b', "notify"), ('u', "nounset")]

/-- The option of a letter set or not; `none` if there is no such option. -/
def Options.set? (o : Options) (letter : Char) (on : Bool) : Option Options :=
  match letter with
  | 'e' => some { o with exitOnFailure := on }
  | 'u' => some { o with refuseUnset := on }
  | 'x' => some { o with trace := on }
  | 'f' => some { o with noPatterns := on }
  | 'n' => some { o with noRun := on }
  | 'v' => some { o with verbose := on }
  | 'a' => some { o with exportAll := on }
  | 'C' => some { o with noOverwrite := on }
  | letter => if optionNames.any (·.1 == letter) then some o else none

def Options.isSet (o : Options) (letter : Char) : Bool :=
  o.letters.toList.contains letter

def setOption (letter : Char) (on : Bool) : Act Unit := do
  match (← Act.process).options.set? letter on with
  | some options => modify fun p => { p with options }
  | none => refuse s!"Illegal option -{letter}"

/-- Set an option by its name, or tell of all of them. -/
def setNamedOption (name? : Option String) (on : Bool) : Act Unit := do
  match name? with
  | none =>
    let o := (← Act.process).options
    let lines := optionNames.map fun (letter, name) =>
      if on then
        let blanks := String.ofList (List.replicate (16 - name.length) ' ')
        name ++ blanks ++ (if o.isSet letter then "on\n" else "off\n")
      else (if o.isSet letter then "set -o " else "set +o ") ++ name ++ "\n"
    let _ ← output ((if on then "Current option settings\n" else "") ++ String.join lines)
  | some name =>
    match optionNames.find? (·.2 == name) with
    | some (letter, _) => setOption letter on
    | none =>
      if name ≠ "nolog" ∧ name ≠ "debug" then refuse s!"Illegal option -o {name}"

/-- Read options off arguments.  The answer is what is left of these, whether the options were ended
by a sign of their own, and whether a command is to be found in the first argument left. -/
def readOptions (starting : Bool) (given : Bool) : List String → Act (List String × Bool × Bool)
  | [] => return ([], false, given)
  | arg :: rest => do
    match arg.toList with
    | ['-'] | ['-', '-'] =>
      if arg = "-" ∧ !starting then
        setOption 'x' false
        setOption 'v' false
      return (rest, arg == "--", given)
    | '-' :: letters | '+' :: letters =>
      let on := arg.toList.head? == some '-'
      let commands := on && starting && letters.contains 'c'
      let named := letters.contains 'o'
      for letter in letters do
        if letter ≠ 'o' ∧ !(starting && (letter == 'c' || letter == 'l')) then setOption letter on
      if named then
        setNamedOption rest.head? on
        match rest with
        | [] => return ([], false, given || commands)
        | _ :: rest => readOptions starting (given || commands) rest
      else readOptions starting (given || commands) rest
    | _ => return (arg :: rest, false, given)

/-- Set options and arguments, or tell of all variables. -/
def setCommand (args : List String) : Act Nat := do
  if args.isEmpty then tellVariables "" (·.value.isSome)
  else
    let (rest, ended, _) ← readOptions false false args
    if ended || !rest.isEmpty then modify fun p => { p with args := rest, letter := 0 }
    return 0

/-! ### Places -/

/-- A path with `.` and `..` worked off by their names. -/
def tidyRoute (route path : String) : String :=
  let pieces := (if path.toList.head? = some '/' then path else route ++ "/" ++ path).splitOn "/"
  let names := pieces.foldl (fun (names : List String) piece =>
    if piece = "" ∨ piece = "." then names
    else if piece = ".." then names.drop 1
    else piece :: names) []
  "/" ++ String.intercalate "/" names.reverse

def cdCommand (args : List String) : Act Nat := do
  let (flags, operands) ← readFlags ['L', 'P'] [] args
  let p ← Act.process
  let target ← match operands with
    | [] =>
      match p.valueOf? "HOME" with
      | some home => pure home
      | none => pure ""
    | "-" :: _ => pure ((p.valueOf? "OLDPWD").getD "")
    | target :: _ => pure target
  if target.isEmpty then return 0
  match ← nodeAt target with
  | .ok (place, .directory) =>
    let route := if flags.any (·.1 == 'P') then placeText place else tidyRoute p.route target
    assign "OLDPWD" p.route true
    assign "PWD" route true
    modify fun p => { p with place, route }
    if operands.head? = some "-" then output (route ++ "\n") else return 0
  | _ => refuse s!"can't cd to {target}"

def pwdCommand (args : List String) : Act Nat := do
  let (flags, _) ← readFlags ['L', 'P'] [] args
  let p ← Act.process
  output ((if flags.any (·.1 == 'P') then placeText p.place else p.route) ++ "\n")

def umaskCommand (args : List String) : Act Nat := do
  let (flags, operands) ← readFlags ['S'] [] args
  let mask := (← Act.process).mask
  match operands with
  | [] =>
    if flags.isEmpty then
      let digits := Nat.toDigits 8 mask
      output (String.ofList (List.replicate (4 - digits.length) '0' ++ digits ++ ['\n']))
    else
      let rights (shift : Nat) : String :=
        let bits := (mask / Nat.pow 8 shift) % 8
        (if bits / 4 % 2 = 0 then "r" else "") ++ (if bits / 2 % 2 = 0 then "w" else "") ++
          (if bits % 2 = 0 then "x" else "")
      output s!"u={rights 2},g={rights 1},o={rights 0}\n"
  | text :: _ =>
    if text.toList.all isOctal then
      modify fun p => { p with mask := ofDigits 8 text.toList % 512 }
      return 0
    else if text.toList.head?.any Char.isDigit then refuse s!"Illegal number: {text}"
    else refuse s!"Illegal mode: {text}"

/-! ### Reading -/

/-- A line with its backslashes worked off: each character with the mark whether it was behind
one. -/
def markEscapes : List Char → List Marked
  | [] => []
  | ['\\'] => []
  | '\\' :: c :: rest => (c, true) :: markEscapes rest
  | c :: rest => (c, false) :: markEscapes rest

/-- Whether a line ends in a backslash that is not behind another one. -/
def endsOpen (cs : List Char) : Bool :=
  (cs.reverse.takeWhile (· == '\\')).length % 2 == 1

/-- The values for variables in a line: a field for each, and all that is left for the last. -/
def readFields (separators : List Char) : Nat → List Marked → List String
  | 0, _ => []
  | count + 1, cs =>
    let separates (m : Marked) : Bool := !m.2 && separators.contains m.1
    let isWhite (m : Marked) : Bool := separates m && isWhiteSeparator m.1
    let cs := cs.dropWhile isWhite
    let field := cs.takeWhile fun m => !separates m
    let after := (cs.drop field.length).dropWhile isWhite
    let rest := match after with
      | m :: rest => if separates m then rest.dropWhile isWhite else after
      | [] => []
    if count = 0 then
      let value := if rest.isEmpty then field else (cs.reverse.dropWhile isWhite).reverse
      [String.ofList (value.map (·.1))]
    else String.ofList (field.map (·.1)) :: readFields separators count rest

def readVariables (args : List String) : Act Nat := do
  let (flags, names) ← readFlags ['r'] ['p'] args
  let raw := flags.any (·.1 == 'r')
  if names.isEmpty then refuse "arg count"
  let rec collect (acc : List Char) : Nat → Act (List Char × Bool)
    | 0 => return (acc, false)
    | fuel + 1 => do
      match ← readLine 0 with
      | none => return (acc, false)
      | some (bytes, ended) =>
        let cs := ((ofBytes bytes).toList).filter (· != '\x00')
        if ended && !raw && endsOpen cs then collect (acc ++ cs.dropLast) fuel
        else return (acc ++ cs, ended)
  let (line, ended) ← collect [] maxChunks
  let marked := if raw then line.map fun c => (c, false) else markEscapes line
  let values := readFields (← Act.process).separators.toList names.length marked
  for (name, value) in names.zip values do
    if !isName name then refuse s!"{name}: bad variable name"
    assign name value false
  return if ended then 0 else 1

/-! ### Signals and jobs -/

/-- The usage of `kill`. -/
def killUsage : String :=
  "Usage: kill [-s sigspec | -signum | -sigspec] [pid | job]... or\nkill -l [exitstatus]"

def jobNamed? (p : Process) (text : String) : Option Job :=
  match text.toList with
  | ['%'] | ['%', '%'] | ['%', '+'] => p.jobs.head?
  | ['%', '-'] => p.jobs[1]?
  | '%' :: digits =>
    if digits.all Char.isDigit && ofDigits 10 digits > 0 then
      p.jobs.reverse[ofDigits 10 digits - 1]?
    else none
  | _ => none

/-- Send a signal to processes, or tell the names of signals. -/
def killCommand (args : List String) : Act Nat := do
  let named? (text : String) : Option Nat := if text.toUpper = "EXIT" then none else signal? text
  let (number?, lists, operands) ← match args with
    | [] => refuse killUsage
    | first :: rest =>
      match first.toList with
      | '-' :: cs =>
        match named? (String.ofList cs) with
        | some number => pure (some number, false, rest)
        | none =>
          let (flags, operands) ← readFlags ['l'] ['s'] args
          let number? ← match flags.lookup 's' with
            | some text =>
              match named? text with
              | some number => pure (some number)
              | none => refuse s!"invalid signal number or name: {text}"
            | none => pure none
          pure (number?, flags.any (·.1 == 'l'), operands)
      | _ => pure (none, false, first :: rest)
  if lists then
    match operands with
    | [] =>
      let names := (List.range maxSignal).map fun n => s!"{signalName (n + 1)}\n"
      output ("0\n" ++ String.join names)
    | text :: _ =>
      let n ← naturalNumber text
      let n := if n > 128 then n - 128 else n
      if 0 < n ∧ n ≤ maxSignal then output s!"{signalName n}\n"
      else refuse s!"invalid signal number or exit status: {text}"
  else
    if operands.isEmpty then refuse killUsage
    let mut status := 0
    for text in operands do
      let p ← Act.process
      let target ← match text.toList with
        | '%' :: _ =>
          match jobNamed? p text with
          | some job => pure job.process
          | none => refuse s!"No such job: {text}"
        | '-' :: cs => naturalNumber (String.ofList cs)
        | _ => naturalNumber text
      if !(← sendSignal target (number?.getD terminate)) then
        complain "No such process\n"
        status := 1
    return status

/-- Lay down what is done at signals, or tell it. -/
def trapCommand (args : List String) : Act Nat := do
  let (_, operands) ← readFlags [] [] args
  match operands with
  | [] =>
    let traps := (← Act.process).traps.mergeSort fun a b => a.1 ≤ b.1
    output (String.join (traps.map fun (number, action) =>
      s!"trap -- {inQuotes action} {signalName number}\n"))
  | first :: rest =>
    let (action?, names) :=
      if rest.isEmpty || (signalNumber? first).isSome then (none, operands)
      else (if first = "-" then none else some first, rest)
    for name in names do
      match signal? name with
      | none =>
        writeError s!"trap: {name}: bad trap\n"
        return 1
      | some number =>
        modify fun p =>
          let others := p.traps.filter (·.1 != number)
          { p with traps := match action? with
            | some action => (number, action) :: others
            | none => others }
    return 0

/-- Wait for the end of a job; the answer is its status. -/
def awaitJob (job : Job) : Act Nat := do
  let p ← Act.process
  let m ← Act.machine
  let sent := m.signals.filter fun s => s.process == p.id && s.time < job.stop
  match sent.mergeSort (fun a b => a.time ≤ b.time) with
  | s :: _ =>
    waitTill s.time
    Act.onMachine fun m => { m with
      signals := m.signals.filter fun other => other != s }
    receive s.number s.time
    return signalStatus s.number
  | [] =>
    let _ ← awaitEnd { process := job.process, stop := job.stop, status := job.status }
    modify fun p => { p with jobs := p.jobs.map fun j =>
      if j.process = job.process then { j with awaited := false } else j }
    return job.status

def waitCommand (args : List String) : Act Nat := do
  let (_, operands) ← readFlags [] [] args
  match operands with
  | [] =>
    let jobs := ((← Act.process).jobs.filter (·.awaited)).mergeSort fun a b => a.stop ≤ b.stop
    for job in jobs do
      let before := (← Act.process).pending.length
      let status ← awaitJob job
      if (← Act.process).pending.length > before then return status
    return 0
  | operands =>
    let mut status := 0
    for text in operands do
      let p ← Act.process
      let job? ← match text.toList with
        | '%' :: _ =>
          match jobNamed? p text with
          | some job => pure (some job)
          | none => refuse s!"No such job: {text}"
        | _ =>
          let number ← naturalNumber text
          pure (p.jobs.find? fun job => job.process == number && job.awaited)
      status ← match job? with
        | some job => awaitJob job
        | none => pure 127
    return status

/-! ### Options of scripts -/

/-- Read the next option of a script into variables.  The index counts the words that have been
begun; `letter` tells how far the last of them has been read. -/
def getoptsCommand (args : List String) : Act Nat := do
  match args with
  | letters :: name :: rest =>
    let p ← Act.process
    let words := if rest.isEmpty then p.args else rest
    let begun := (ofDigits 10 ((p.valueOf? "OPTIND").getD "1").toList) - 1
    let quiet := letters.toList.head? == some ':'
    let finish (begun letter : Nat) (value : String) (argument : Option String) (status : Nat) :
        Act Nat := do
      match argument with
      | some argument => assign "OPTARG" argument false
      | none => modify fun p => { p with bindings := p.bindings.filter (·.1 != "OPTARG") }
      assign "OPTIND" (toString (begun + 1)) false
      modify fun p => { p with letter }
      if !isName name then refuse s!"{name}: bad variable name"
      assign name value false
      return status
    let (index, spot) := if p.letter = 0 then (begun, 1) else (begun - 1, p.letter)
    match words[index]? with
    | none => finish index 0 "?" none 1
    | some word =>
      let cs := word.toList
      if p.letter = 0 ∧ word = "--" then finish (index + 1) 0 "?" none 1
      else if p.letter = 0 ∧ (cs.head? ≠ some '-' ∨ cs.length < 2) then finish index 0 "?" none 1
      else
        let c := (cs[spot]?).getD '?'
        let last := spot + 1 ≥ cs.length
        let next := if last then 0 else spot + 1
        let after := (letters.toList.drop (if quiet then 1 else 0)).dropWhile (· != c)
        if c = ':' ∨ after.isEmpty then
          if quiet then finish (index + 1) next "?" (some (String.singleton c)) 0
          else
            writeError s!"Illegal option -{c}\n"
            finish (index + 1) next "?" none 0
        else if after[1]? = some ':' then
          if !last then
            finish (index + 1) 0 (String.singleton c) (some (String.ofList (cs.drop (spot + 1)))) 0
          else match words[index + 1]? with
            | some value => finish (index + 2) 0 (String.singleton c) (some value) 0
            | none =>
              if quiet then finish (index + 1) 0 ":" (some (String.singleton c)) 0
              else
                writeError s!"No arg for -{c} option\n"
                finish (index + 1) 0 "?" none 0
        else finish (index + 1) next (String.singleton c) (some "") 0
  | _ => refuse "Usage: getopts optstring var [arg...]"

/-! ### Leaving -/

def leaveLoops (halt : Nat → Halt) (args : List String) : Act Nat := do
  let levels ← match args with
    | [] => pure 1
    | text :: _ =>
      let n ← naturalNumber text
      if n = 0 then refuse s!"Illegal number: {text}" else pure n
  let p ← Act.process
  let levels := min levels p.loops
  if levels = 0 then return 0
  setStatus 0
  throw (halt levels)

def exitCommand (args : List String) : Act Nat := do
  match args with
  | [] =>
    let p ← Act.process
    setStatus (p.kept.getD p.status)
  | text :: _ => setStatus (← naturalNumber text)
  throw .leaving

def returnCommand (args : List String) : Act Nat := do
  match args with
  | [] => pure ()
  | text :: _ => setStatus (← naturalNumber text)
  throw .returning

def printfCommand (args : List String) : Act Nat := do
  let (_, operands) ← readFlags [] [] args
  match operands with
  | [] => refuse "usage: printf format [arg ...]"
  | format :: values =>
    let f := formatted format values
    for text in f.complaints ++ f.refusal.toList do
      complain text
    let status ← output f.text
    if f.refusal.isSome then
      setStatus 2
      throw .failed
    return if f.complaints.isEmpty then status else 1

/-- Judge a condition; in brackets it has to be closed. -/
def testCommand (bracketed : Bool) (args : List String) : Act Nat := do
  let args ← if !bracketed then pure args
    else if args.getLast? = some "]" then pure args.dropLast
    else refuse "missing ]"
  return if ← testCondition args then 0 else 1

def simpleBuiltins : List (String × (List String → Act Nat)) :=
  [(":", fun _ => return 0),
    ("true", fun _ => return 0),
    ("false", fun _ => return 1),
    ("echo", fun args => output (echoText args)),
    ("printf", printfCommand),
    ("test", testCommand false),
    ("[", testCommand true),
    ("cd", cdCommand),
    ("chdir", cdCommand),
    ("pwd", pwdCommand),
    ("export", markVariables "export" ({ · with exported := true }) (·.exported)),
    ("readonly", markVariables "readonly" ({ · with readOnly := true }) (·.readOnly)),
    ("local", localCommand),
    ("unset", unsetCommand),
    ("shift", shiftCommand),
    ("set", setCommand),
    ("umask", umaskCommand),
    ("ulimit", fun args => if args.any (·.toList.head? != some '-') then return 0
      else output "unlimited\n"),
    ("times", fun _ => output "0m0.000000s 0m0.000000s\n0m0.000000s 0m0.000000s\n"),
    ("read", readVariables),
    ("kill", killCommand),
    ("trap", trapCommand),
    ("wait", waitCommand),
    ("getopts", getoptsCommand),
    ("alias", fun _ => return 0),
    ("unalias", fun _ => return 0),
    ("jobs", fun _ => return 0),
    ("break", leaveLoops .breaking),
    ("continue", leaveLoops .continuing),
    ("exit", exitCommand),
    ("return", returnCommand)]

def runningBuiltins : List String :=
  [".", "command", "eval", "exec", "hash", "type"]

def isBuiltin (name : String) : Bool :=
  runningBuiltins.contains name || (simpleBuiltins.lookup name).isSome

/-- Whether a command is built in and ends the shell when it fails. -/
def isSpecialBuiltin (name : String) : Bool :=
  specialNames.contains name

/-- Whether the words of assignments among the arguments of a command are no fields. -/
def takesAssignments (name : String) : Bool :=
  ["alias", "export", "local", "readonly"].contains name

end DeviceLab.Shell
