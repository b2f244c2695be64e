import DeviceLab.Shell.Tool.Expression
import DeviceLab.Shell.Tool.Files
import DeviceLab.Shell.Tool.Launch
import DeviceLab.Shell.Tool.Search

namespace DeviceLab.Shell

open Text

namespace Tool

/-- A text with the escapes of a plain `echo -e` worked off. -/
def escapedEcho (words : List String) : String × Bool :=
  unescaped (String.intercalate " " words)

/-- Words in a line; the options come first and are nothing but letters that are known. -/
def echo (args : List String) : Tool Nat := do
  let isOption (arg : String) : Bool :=
    match arg.toList with
    | '-' :: c :: cs => (c :: cs).all fun c => ['n', 'e', 'E'].contains c
    | _ => false
  let options := args.takeWhile isOption
  let letters := options.flatMap fun arg => arg.toList.drop 1
  let words := args.drop options.length
  let escapes := (letters.filter (· != 'n')).getLast? == some 'e'
  let (text, ended) := if escapes then escapedEcho words else (String.intercalate " " words, false)
  put (if ended || letters.contains 'n' then text else text ++ "\n")
  return 0

/-- The complaint of a value that is no number, in the words of the tool. -/
def printfComplaint (text : String) : String :=
  let said (ending said : String) : Option String :=
    if text.endsWith ending then
      some (quoted (String.ofList (text.toList.take (text.length - ending.length))) ++ said)
    else none
  ((said ": expected numeric value" ": expected a numeric value").or
    (said ": not completely converted" ": value not completely converted")).getD text

def printf (args : List String) : Tool Nat := do
  let args := match args with
    | "--" :: rest => rest
    | args => args
  match args with
  | [] => misused 1 "missing operand"
  | format :: values =>
    let f := formatted format values
    for text in f.complaints do
      warn (printfComplaint text)
    put f.text
    match f.refusal with
    | some text => quit 1 text
    | none => return if f.complaints.isEmpty then 0 else 1

def test (bracketed : Bool) (args : List String) : Tool Nat := do
  let args ← if !bracketed then pure args
    else if args.getLast? = some "]" then pure args.dropLast
    else quit 2 "missing ']'"
  let p ← Act.process
  set (p.join 2 .sink)
  let answer ← Act.attempt (testCondition args)
  set p
  match answer with
  | .ok holds => return if holds then 0 else 1
  | .error _ =>
    let compares (arg : String) : Bool := ["-eq", "-ne", "-lt", "-le", "-gt", "-ge"].contains arg
    match args with
    | [a, operator, b] =>
      if compares operator then
        let bad := if (Expression.integer? a).isNone then a else b
        quit 2 s!"invalid integer {quoted bad}"
      else quit 2 s!"extra argument {quoted b}"
    | args =>
      let last := args.getLastD ""
      quit 2 s!"extra argument {quoted last}"

def kill (args : List String) : Tool Nat := do
  let number? := args.head?.bind fun arg =>
    match arg.toList with
    | '-' :: cs => signal? (String.ofList cs)
    | _ => none
  let targets := if number?.isSome then args.drop 1 else args
  let mut status := 0
  for text in targets do
    let cs := text.toList
    if cs.isEmpty || !cs.all Char.isDigit then quit 1 s!"failed to parse argument: {quoted text}"
    if !(← sendSignal (ofDigits 10 cs) (number?.getD terminate)) then
      warn s!"({text}) - No such process"
      status := 1
  return status

def pwd (args : List String) : Tool Nat := do
  let (flags, _) ← readArguments {
    plain := ['L', 'P'], long := [("logical", 'L'), ("physical", 'P')] } args
  let p ← Act.process
  put ((if has flags 'L' then p.route else placeText p.place) ++ "\n")
  return 0

def id (args : List String) : Tool Nat := do
  let (flags, names) ← readArguments {
    plain := ['u', 'g', 'G', 'n', 'r', 'a', 'z', 'Z']
    long := [("user", 'u'), ("group", 'g'), ("groups", 'G'), ("name", 'n'), ("real", 'r')] } args
  match names.find? fun name => name ≠ "root" ∧ name ≠ "0" with
  | some name => quit 1 s!"{quoted name}: no such user"
  | none =>
    let single := ['u', 'g', 'G'].any (has flags)
    put (if !single then "uid=0(root) gid=0(root) groups=0(root)\n"
      else if has flags 'n' then "root\n" else "0\n")
    return 0

def constant (line : String) (args : List String) : Tool Nat := do
  let (_, names) ← readArguments {} args
  match names with
  | [] => put (line ++ "\n")
  | name :: _ => misused 1 s!"extra operand {quoted name}"
  return 0

def uname (args : List String) : Tool Nat := do
  let (flags, names) ← readArguments { plain := ['a', 's', 'n', 'r', 'v', 'm', 'p', 'i', 'o'] } args
  match names with
  | name :: _ => misused 1 s!"extra operand {quoted name}"
  | [] =>
    let facts := [('s', "Linux"), ('n', "localhost"), ('r', "6.1.0"), ('v', "SMP"), ('m', "x86_64"),
      ('o', "GNU/Linux")]
    let shown := if has flags 'a' then facts
      else if flags.isEmpty then facts.take 1
      else facts.filter fun f => has flags f.1
    put (String.intercalate " " (shown.map (·.2)) ++ "\n")
    return 0

def date (args : List String) : Tool Nat := do
  let (flags, operands) ← readArguments {
    plain := ['u', 'R', 'I'], valued := ['d', 'f', 'r', 's'], long := [("date", 'd'), ("utc", 'u')] } args
  match operands.find? fun arg => arg.toList.head? ≠ some '+' with
  | some arg => quit 1 s!"invalid date {quoted arg}"
  | none =>
    if flags.isEmpty ∧ operands = ["+%s"] then put s!"{(← Act.process).clock / 1000}\n"
    return 0

def which (args : List String) : Tool Nat := do
  let (_, names) ← readArguments { plain := ['a', 's'], ordered := true } args
  let mut status := if names.isEmpty then 1 else 0
  for name in names do
    let p ← Act.process
    let m ← Act.machine
    let runs (path : String) : Bool :=
      match m.tree.locateFrom p.place ⟨widen path⟩ with
      | .ok place => m.tree.isRunnable place
      | .error _ => false
    let paths := if name.toList.contains '/' then [name]
      else (splitPath ((p.valueOf? "PATH").getD "")).map fun directory => directory ++ "/" ++ name
    match paths.find? runs with
    | some path => put (path ++ "\n")
    | none => status := 1
  return status

/-- How a tool complains when it is given nothing but a name under which there is no file. -/
inductive OtherTool
  | reads
  | needsTwo
  | needsNone
  | fails (status : Nat) (before after : String)
  deriving Repr, DecidableEq

def others : List (String × OtherTool) :=
  [("md5sum", .reads), ("sha1sum", .reads), ("cksum", .reads), ("od", .reads), ("expand", .reads),
    ("unexpand", .reads), ("shuf", .reads), ("tsort", .reads), ("gzip", .reads),
    ("comm", .needsTwo), ("join", .needsTwo), ("link", .needsTwo), ("chown", .needsTwo),
    ("chgrp", .needsTwo),
    ("logname", .needsNone), ("who", .needsNone), ("nproc", .needsNone),
    ("find", .fails 1 "'" "': No such file or directory"),
    ("stat", .fails 1 "cannot statx '" "': No such file or directory"),
    ("df", .fails 1 "" ": No such file or directory"),
    ("du", .fails 1 "cannot access '" "': No such file or directory"),
    ("dd", .fails 1 "unrecognized operand '" "'\nTry 'dd --help' for more information."),
    ("diff", .fails 2 "missing operand after '" "'\ndiff: Try 'diff --help' for more information."),
    ("fmt", .fails 1 "cannot open '" "' for reading: No such file or directory"),
    ("split", .fails 1 "cannot open '" "' for reading: No such file or directory"),
    ("more", .fails 1 "cannot open " ": No such file or directory"),
    ("unlink", .fails 1 "cannot unlink '" "': No such file or directory"),
    ("mktemp", .fails 1 "too few X's in template '" "'"),
    ("truncate", .fails 1 "you must specify either '--size' or '--reference'\nTry 'truncate --help' for more information." ""),
    ("install", .fails 1 "missing destination file operand after '" "'\nTry 'install --help' for more information."),
    ("factor", .fails 1 "'" "' is not a valid positive integer"),
    ("groups", .fails 1 "'" "': no such user"),
    ("stty", .fails 1 "invalid argument '" "'\nTry 'stty --help' for more information."),
    ("sync", .fails 1 "error opening '" "': No such file or directory"),
    ("numfmt", .fails 2 "invalid number: '" "'")]

def other (tool : OtherTool) (args : List String) : Tool Nat := do
  let names := args.filter fun arg => arg.toList.head? ≠ some '-'
  match tool, names with
  | .reads, names => eachInput names 1 plainComplaint fun _ _ => return ()
  | .needsTwo, [name] => misused 1 s!"missing operand after {quoted name}"
  | .needsTwo, [] => misused 1 "missing operand"
  | .needsNone, name :: _ => misused 1 s!"extra operand {quoted name}"
  | .fails status before after, [name] =>
    let mends := after.endsWith "No such file or directory"
    if mends && (← nodeAt name) matches .ok _ then return 0
    -- the rest of the complaint is left out where it does not name the operand
    quit status (if after.isEmpty then before else before ++ name ++ after)
  | _, _ => return 0

end Tool

open Tool in
def toolNamed (start : Start) (name : String) : List String → Tool Nat :=
  match name with
  | "[" => test true
  | "arch" => constant "x86_64"
  | "base64" => base64
  | "basename" => basename
  | "cat" => cat
  | "chmod" => chmod
  | "cmp" => cmp
  | "cp" => transfer false
  | "cut" => cut
  | "date" => date
  | "dirname" => dirname
  | "echo" => echo
  | "egrep" => grep true false
  | "env" => env start
  | "expr" => expr
  | "false" => fun _ => return 1
  | "fgrep" => grep false true
  | "fold" => fold
  | "grep" => grep false false
  | "head" => head
  | "id" => id
  | "kill" => kill
  | "ln" => ln
  | "ls" | "dir" => ls
  | "mkdir" => mkdir
  | "mv" => transfer true
  | "nice" => nice start
  | "nl" => nl
  | "nohup" => nohup start
  | "paste" => paste
  | "printenv" => printenv
  | "printf" => printf
  | "pwd" => pwd
  | "readlink" => readlink
  | "realpath" => realpath
  | "rev" => rev
  | "rm" => rm
  | "rmdir" => rmdir
  | "sed" => sed
  | "seq" => seq
  | "setsid" => setsid start
  | "sha256sum" => sha256sum
  | "sleep" => sleep
  | "sort" => sort
  | "stdbuf" => stdbuf start
  | "tac" => tac
  | "tail" => tail
  | "tee" => tee
  | "test" => test false
  | "timeout" => timeout start
  | "touch" => touch
  | "tr" => tr
  | "true" => fun _ => return 0
  | "tty" => fun _ => do
    put "not a tty\n"
    return 1
  | "uname" => uname
  | "uniq" => uniq
  | "wc" => wc
  | "which" => which
  | "whoami" => constant "root"
  | "xargs" => xargs start
  | "yes" => yes
  | name => match others.lookup name with
    | some tool => other tool
    | none => fun _ => return 0

/-- Run a tool; the answer is its status. -/
def runTool (start : Start) (name : String) (argv : List String) : Act Nat := do
  match ← (toolNamed start name (argv.drop 1)).run with
  | .ok status | .error status => return status

end DeviceLab.Shell
