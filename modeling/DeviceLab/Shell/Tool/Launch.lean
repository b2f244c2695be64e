import DeviceLab.Shell.Tool.Lines

namespace DeviceLab.Shell.Tool

open Text

/-- The milliseconds that a text with a unit stands for, rounded up. -/
def duration? (text : String) : Option Nat := do
  if ["infinity", "inf"].contains text.toLower then return forever
  let (d, rest) ← Decimal.read? text.toList
  if text.toList.head? = some '-' then none
  let (power, rest) : Int × List Char := match rest with
    | 'e' :: more | 'E' :: more =>
      let (minus, digits) := match more with
        | '-' :: digits => (true, digits)
        | '+' :: digits => (false, digits)
        | digits => (false, digits)
      let shown := digits.takeWhile Char.isDigit
      let n := Int.ofNat (min 30 (ofDigits 10 shown))
      if shown.isEmpty then (0, rest) else (if minus then -n else n, digits.drop shown.length)
    | rest => (0, rest)
  let unit ← match rest with
    | [] | ['s'] => some 1000
    | ['m'] => some 60000
    | ['h'] => some 3600000
    | ['d'] => some 86400000
    | _ => none
  let above := d.mantissa.natAbs * unit * Nat.pow 10 power.toNat
  let below := Nat.pow 10 (d.places + (-power).toNat)
  return min forever ((above + below - 1) / below)

def pass (time : Nat) : Act Unit := do
  if time ≥ forever then throw .endless
  modify fun p => { p with clock := p.clock + time }
  receiveAll

def sleep (args : List String) : Tool Nat := do
  let (_, operands) ← readArguments {} args
  if operands.isEmpty then misused 1 "missing operand"
  let times := operands.map fun text => (text, duration? text)
  let bad := times.filter (·.2.isNone)
  match bad.getLast? with
  | some (last, _) =>
    for (text, _) in bad.dropLast do
      warn s!"invalid time interval {quoted text}"
    misused 1 s!"invalid time interval {quoted last}"
  | none =>
    pass ((times.filterMap (·.2)).foldl (· + ·) 0)
    return 0

/-- Start a program in the process, or complain; the answer is the status. -/
def become (start : Start) (complaint : String → FileError → String) (argv : List String) : Tool Nat := do
  let name := argv.headD ""
  match ← start argv with
  | some e =>
    warn (complaint name e)
    return if e = .notFound ∨ e = .notDirectory then 127 else 126
  | none => return (← Act.process).status

def failedToRun (name : String) (e : FileError) : String :=
  s!"failed to run command {quotedName name}: {e.label}"

def env (start : Start) (args : List String) : Tool Nat := do
  let args := args.map fun arg => if arg = "-" then "-i" else arg
  let (flags, operands) ← readArguments {
    plain := ['i', '0', 'v'], valued := ['u', 'C', 'S']
    long := [("ignore-environment", 'i'), ("null", '0'), ("unset", 'u'), ("chdir", 'C')]
    ordered := true, status := 125 } args
  if has flags 'i' then modify fun p => { p with bindings := [] }
  for (c, name) in flags do
    if c = 'u' then modify fun p => { p with bindings := p.bindings.filter (·.1 != name) }
  let settings := operands.takeWhile fun arg => arg.toList.contains '='
  for setting in settings do
    let (name, value) := splitAssignment setting
    modify fun p => p.setVariable name { value, exported := true }
  match operands.drop settings.length with
  | [] =>
    let ending := if has flags '0' then "\x00" else "\n"
    put (String.join ((← Act.process).environment.map fun (name, value) => s!"{name}={value}{ending}"))
    return 0
  | argv =>
    match value? flags 'C' with
    | some directory =>
      match ← nodeAt directory with
      | .ok (place, .directory) => modify fun p => { p with place, route := placeText place }
      | .ok _ => quit 125 s!"cannot change directory to {quotedName directory}: Not a directory"
      | .error e => quit 125 s!"cannot change directory to {quotedName directory}: {e.label}"
    | none => pure ()
    become start (fun name e => s!"{quotedName name}: {e.label}") argv

def printenv (args : List String) : Tool Nat := do
  let (_, names) ← readArguments { plain := ['0'], status := 2 } args
  let environment := (← Act.process).environment
  if names.isEmpty then
    put (String.join (environment.map fun (name, value) => s!"{name}={value}\n"))
    return 0
  put (String.join (names.filterMap fun name => (environment.lookup name).map (· ++ "\n")))
  return if names.all fun name => (environment.lookup name).isSome then 0 else 1

def timeout (start : Start) (args : List String) : Tool Nat := do
  let (flags, operands) ← readArguments {
    plain := ['v', 'P', 'f'], valued := ['s', 'k']
    long := [("signal", 's'), ("kill-after", 'k'), ("preserve-status", 'P'), ("foreground", 'f'),
      ("verbose", 'v')]
    ordered := true, status := 125 } args
  let signal ← match value? flags 's' with
    | none => pure terminate
    | some text =>
      match signal? (if text.startsWith "SIG" then String.ofList (text.toList.drop 3) else text) with
      | some number => pure number
      | none => misused 125 s!"{quoted text}: invalid signal"
  match operands with
  | text :: argv =>
    if argv.isEmpty then
      writeError s!"Try '{(← Act.process).name} --help' for more information.\n"
      throw 125
    match duration? text with
    | none => misused 125 s!"invalid time interval {quoted text}"
    | some limit =>
      let p ← Act.process
      let ended ← fork do
        match ← become start failedToRun argv |>.run with
        | .ok status | .error status => setStatus status
      if limit > 0 ∧ ended.stop ≥ p.clock + limit then
        let stop := p.clock + limit
        Act.onMachine fun m => m.cutShort ended.process stop true
        waitTill stop
        return if has flags 'P' || signal = killSignal then signalStatus signal else 124
      awaitEnd ended
  | [] =>
    writeError s!"Try '{(← Act.process).name} --help' for more information.\n"
    throw 125

def nice (start : Start) (args : List String) : Tool Nat := do
  let (_, argv) ← readArguments {
    valued := ['n'], long := [("adjustment", 'n')], ordered := true, status := 125 } args
  if argv.isEmpty then
    put "0\n"
    return 0
  become start (fun name e => s!"{quotedName name}: {e.label}") argv

def nohup (start : Start) (args : List String) : Tool Nat := do
  let (_, argv) ← readArguments { ordered := true, status := 125 } args
  if argv.isEmpty then misused 125 "missing operand"
  modify fun p => { p with traps := (1, "") :: p.traps.filter (·.1 != 1) }
  become start failedToRun argv

def setsid (start : Start) (args : List String) : Tool Nat := do
  let (_, argv) ← readArguments { plain := ['c', 'f', 'w'], ordered := true } args
  if argv.isEmpty then misused 1 "no command specified"
  become start (fun name e => s!"failed to execute {name}: {e.label}") argv

def stdbuf (start : Start) (args : List String) : Tool Nat := do
  let (flags, argv) ← readArguments {
    valued := ['i', 'o', 'e'], long := [("input", 'i'), ("output", 'o'), ("error", 'e')]
    ordered := true, status := 125 } args
  if argv.isEmpty then misused 125 "missing operand"
  if flags.isEmpty then misused 125 "you must specify a buffering mode option"
  become start failedToRun argv

/-- The words of an input: at white space, with quotation marks and backslashes worked off. -/
def inputWords (word : Option (List Char)) : List Char → List String
  | [] => match word with
    | some cs => [String.ofList cs.reverse]
    | none => []
  | '\\' :: c :: rest => inputWords (some (c :: word.getD [])) rest
  | c :: rest =>
    if c = singleMark ∨ c = doubleMark then inMarks c (word.getD []) rest
    else if c = ' ' ∨ c = '\t' ∨ c = '\n' then
      match word with
      | some cs => String.ofList cs.reverse :: inputWords none rest
      | none => inputWords none rest
    else inputWords (some (c :: word.getD [])) rest
where
  /-- The words of an input that goes on within quotation marks. -/
  inMarks (mark : Char) (acc : List Char) : List Char → List String
    | [] => [String.ofList acc.reverse]
    | c :: rest => if c = mark then inputWords (some acc) rest else inMarks mark (c :: acc) rest

def grouped (size : Nat) : Nat → List String → List (List String)
  | 0, _ => []
  | _, [] => []
  | fuel + 1, words => words.take size :: grouped size fuel (words.drop size)

def xargs (start : Start) (args : List String) : Tool Nat := do
  let (flags, operands) ← readArguments {
    plain := ['0', 'r', 't', 'p', 'x'], valued := ['n', 'I', 'd', 'L', 'P', 's', 'E', 'a']
    long := [("null", '0'), ("no-run-if-empty", 'r'), ("max-args", 'n'), ("replace", 'I'),
      ("delimiter", 'd'), ("max-lines", 'L'), ("max-procs", 'P'), ("verbose", 't')]
    ordered := true } args
  let text := ofBytes ((← readAll 0).getD [])
  let split (mark : String) : List String :=
    let pieces := text.splitOn mark
    if pieces.getLast? = some "" then pieces.dropLast else pieces
  let command := if operands.isEmpty then ["echo"] else operands
  let words := if has flags '0' then split "\x00"
    else match value? flags 'd' with
      | some mark => split (unescaped mark).1
      | none =>
        if has flags 'I' then ((linesOf text).1.map fun line =>
          String.ofList (line.toList.dropWhile fun c => c == ' ' || c == '\t')).filter (!·.isEmpty)
        else inputWords none text.toList
  let size? := (value? flags 'n').map fun t => max 1 (ofDigits 10 t.toList)
  let commands : List (List String) := match value? flags 'I' with
    | some mark => words.map fun word => command.map fun (arg : String) => arg.replace mark word
    | none =>
      if words.isEmpty then if has flags 'r' then [] else [command]
      else match size? with
        | some size => (grouped size (words.length + 1) words).map (command ++ ·)
        | none =>
          if has flags 'L' then (linesOf text).1.map fun (line : String) => command ++ inputWords none line.toList
          else [command ++ words]
  let mut answer := 0
  for argv in commands do
    if has flags 't' then writeError (String.intercalate " " argv ++ "\n")
    let ended ← fork do
      modify (·.join 0 .sink)
      match ← become start (fun name e => s!"{name}: {e.label}") argv |>.run with
      | .ok status | .error status => setStatus status
    let status ← awaitEnd ended
    if status = 127 ∨ status = 126 then return status
    if status = 255 then quit 124 (argv.headD "" ++ ": exited with status 255; aborting")
    if status ≠ 0 then answer := 123
  return answer

end DeviceLab.Shell.Tool
