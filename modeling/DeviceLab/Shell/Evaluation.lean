import DeviceLab.Shell.Lookup
import DeviceLab.Shell.Redirection
import DeviceLab.Shell.Tool

/-!
The running of scripts and programs.

Every command answers a status, which the shell keeps.  A command is tested if its status decides
what is done next; a failure then does not end a shell that otherwise ends at failures.  The last
command of a shell takes the place of the shell, if it is a program and no traps are left to be run.
-/

namespace DeviceLab.Shell

open Text

/-- How deep commands may run one another before the stack of the shell is used up. -/
def maxDepth : Nat := 4000

def stackSignal : Nat := 11

def maxRounds : Nat := 1000000000000

/-- Whether a failure of the command itself may end the shell. -/
def Tree.isChecked : Tree → Bool
  | .simple .. | .pipeline .. | .subshell .. | .background .. => true
  | _ => false

/-- Whether commands are left to be run at a signal or at the end. -/
def Process.hasTraps (p : Process) : Bool :=
  p.traps.any fun trap => !trap.2.isEmpty

/-- What comes of a body that has been run in a loop: the status it leaves if the loop goes on, or
the answer of the loop. -/
def afterRound (status : Nat) (result : Except Halt Nat) : Act (Except Nat Nat) := do
  match result with
  | .ok status => return .ok status
  | .error (.breaking (n + 2)) => throw (.breaking (n + 1))
  | .error (.breaking _) => return .error status
  | .error (.continuing (n + 2)) => throw (.continuing (n + 1))
  | .error (.continuing _) => return .ok status
  | .error halt => throw halt

def deeper {α : Type} (act : Act α) : Act α := do
  modify fun p => { p with loops := p.loops + 1 }
  let result ← Act.attempt act
  modify fun p => { p with loops := p.loops - 1 }
  match result with
  | .ok a => return a
  | .error halt => throw halt

def inScope {α : Type} (act : Act α) : Act α := do
  modify fun p => { p with scopes := [] :: p.scopes }
  let result ← Act.attempt act
  modify fun p => match p.scopes with
    | [] => p
    | scope :: scopes =>
      { p with
        scopes
        bindings := scope.foldl (fun bindings (name, old) =>
          let others := bindings.filter (·.1 != name)
          match old with
          | some v => (name, v) :: others
          | none => others) p.bindings }
  match result with
  | .ok a => return a
  | .error halt => throw halt

def assignInScope (name value : String) : Act Unit := do
  modify fun p => match p.scopes with
    | scope :: scopes =>
      if (scope.lookup name).isSome then p
      else { p with scopes := ((name, p.bindings.lookup name) :: scope) :: scopes }
    | [] => p
  assign name value true

/-- The fields of the first word that has any, and the words after it. -/
def firstFields (substitute : List Tree → Act String) : List Word → Act (List String × List Word)
  | [] => return ([], [])
  | word :: rest => do
    let fields ← expandFields substitute word
    if fields.isEmpty then firstFields substitute rest else return (fields, rest)

def expandCommand (substitute : List Tree → Act String) (words : List Word) : Act (List String) := do
  let (first, rest) ← firstFields substitute words
  let p ← Act.process
  let assigns := match first with
    | name :: _ => takesAssignments name && (p.functions.lookup name).isNone
    | [] => false
  let more ← rest.mapM fun word => do
    match (if assigns then assignment? word else none) with
    | some (name, value) => return [s!"{name}={← expandText substitute .list value}"]
    | none => expandFields substitute word
  return first ++ more.flatten

/-- A command without the words before it that ask for a built-in command or a program; `asked` says
whether such a word has been taken away. -/
def withoutRequest (asked : Bool) : List String → List String
  | [] => if asked then ["command"] else []
  | word :: rest =>
    if word = "command" then withoutRequest true rest
    else if !asked then word :: rest
    else if word = "-p" then withoutRequest true rest
    else if word = "--" then withoutRequest false rest
    else if word.toList.head? = some '-' then "command" :: word :: rest
    else word :: rest

def trace (substitute : List Tree → Act String) (errors : Option Handle) (words : List String) :
    Act Unit := do
  let p ← Act.process
  if !p.options.trace then return ()
  match errors with
  | none => return ()
  | some handle =>
    modify fun p => { p with options := { p.options with trace := false } }
    let mark ← expandText substitute .none (Script.quotedWord ((p.valueOf? "PS4").getD ""))
    modify fun p => { p with options := { p.options with trace := true } }
    let _ ← writeTo handle (bytesOf (mark ++ String.intercalate " " words ++ "\n"))

def refusalToRun (path : String) : Act (Option FileError) := do
  match ← nodeAt path with
  | .error e => return some e
  | .ok (place, _) =>
    return if (← Act.machine).tree.isRunnable place then none else some .permissionDenied

def complainOfProgram (name : String) (e : FileError) : Act Unit := do
  let p ← Act.process
  complain s!"{name}: {p.manner.reason name e}"
  setStatus (match e with
    | .notFound | .notDirectory | .nameTooLong => 127
    | _ => 126)

/-- The interpreter that the first line of a file names, with its argument if there is one. -/
def interpreter? (bytes : List UInt8) : Option (List String) :=
  match (ofBytes bytes).toList with
  | '#' :: '!' :: rest =>
    let isBlank (c : Char) : Bool := c == ' ' || c == '\t'
    let line := (rest.takeWhile (· != '\n')).dropWhile isBlank
    let line := (line.reverse.dropWhile isBlank).reverse
    let name := line.takeWhile fun c => !isBlank c
    let arg := (line.drop name.length).dropWhile isBlank
    if name.isEmpty then none
    else some (String.ofList name :: if arg.isEmpty then [] else [String.ofList arg])
  | _ => none

def shellNames : List String :=
  ["sh", "dash", "bash", "rbash"]

/-- The process as a program begins that has taken its place. -/
def Process.asProgram (p : Process) (name : String) : Process :=
  { id := p.id
    parent := p.parent
    shell := p.id
    begun := p.begun
    clock := p.clock
    place := p.place
    route := p.route
    streams := p.streams
    name
    bindings := p.bindings.filter fun v => v.2.exported && v.2.value.isSome
    traps := p.traps.filter (·.2.isEmpty)
    mask := p.mask
    line := 0 }

def Process.asShell (p : Process) (kind name : String) : Process :=
  let p := p.asProgram name
  let p := { p with
    bindings := p.bindings.filter fun v => isName v.1
    manner := if kind = "bash" ∨ kind = "rbash" then .long else .short }
  let defaults := [("PATH", "/usr/local/sbin:/usr/local/bin:/usr/sbin:/usr/bin:/sbin:/bin"), ("PS4", "+ ")]
  let fixed := [("IFS", " \t\n"), ("OPTIND", "1"), ("PPID", toString p.parent), ("PWD", p.route)]
  let p := defaults.foldl (fun p (name, value) =>
    if (p.bindings.lookup name).isSome then p else p.setVariable name { value := some value }) p
  fixed.foldl (fun p (name, value) =>
    p.setVariable name { (p.bindings.lookup name).getD {} with value := some value }) p

/-- The bytes that are in a channel, once nobody can write into it any more. -/
def drain (channel : Nat) : Act (List UInt8) := do
  let m ← Act.machine
  waitTill (m.closing channel)
  return (((m.channels[channel]?).getD {}).all.map (·.bytes)).flatten

/-- The ends of the stages of a pipeline, given backwards, with the channel that each writes into.
A stage that would write on for ever ends with the one that reads from it. -/
def settleStages (after : Option Ended) : List (Ended × Option Nat) → Act (List Ended)
  | [] => return []
  | (ended, channel?) :: rest => do
    let m ← Act.machine
    let writes := channel?.any fun channel =>
      !(((m.channels[channel]?).getD {}).written).isEmpty ||
        !(((m.channels[channel]?).getD {}).waiting).isEmpty
    let ended ← match after with
      | some reader =>
        if ended.stop ≥ forever && writes && reader.stop < forever then
          Act.onMachine fun m => m.cutShort ended.process reader.stop true
          pure { ended with stop := reader.stop, status := signalStatus 13, signal := some 13 }
        else pure ended
      | none => pure ended
    return ended :: (← settleStages (some ended) rest)

mutual

def substitute : Nat → List Tree → Act String
  | 0, _ => throw (.killed stackSignal)
  | fuel + 1, script => do
    if script.isEmpty then
      modify fun p => { p with substituted := p.status }
      return ""
    let channel ← newChannel
    let ended ← fork do
      modify (·.join 1 (.into channel))
      untilEnd fuel (evalList fuel false true script)
    let bytes ← drain channel
    let status ← awaitEnd ended
    modify fun p => { p with substituted := status }
    return ofBytes (bytes.filter (· != 0))

/-- Run a shell to its end; what is laid down for the end is run too. -/
def untilEnd : Nat → Act Nat → Act Unit
  | 0, _ => throw (.killed stackSignal)
  | fuel + 1, act => do
    match ← Act.attempt act with
    | .error (.killed signal) => throw (.killed signal)
    | .error .endless => throw .endless
    | .ok status => setStatus status
    | .error _ => pure ()
    let p ← Act.process
    match p.traps.lookup 0 with
    | none => return ()
    | some action =>
      set { p with traps := p.traps.filter (·.1 != 0), kept := some p.status, loops := 0, command := none }
      match ← Act.attempt (evalText fuel false false action) with
      | .error (.killed signal) => throw (.killed signal)
      | .error .endless => throw .endless
      | .error .leaving | .error .failed => return ()
      | .ok _ | .error _ => setStatus p.status

def runPending : Nat → Act Unit
  | 0 => throw (.killed stackSignal)
  | fuel + 1 => do
    let p ← Act.process
    if p.pending.isEmpty then return ()
    set { p with pending := [] }
    for number in (p.pending.mergeSort (· ≤ ·)).eraseDups do
      let before ← Act.process
      match before.traps.lookup number with
      | none | some "" => pure ()
      | some action =>
        set { before with kept := some (before.kept.getD before.status) }
        let _ ← evalText fuel false false action
        modify fun p => { p with kept := before.kept, status := before.status }

/-- Run a command; the answer is its status. -/
def evalTree : Nat → Bool → Bool → Tree → Act Nat
  | 0, _, _, _ => throw (.killed stackSignal)
  | fuel + 1, tested, last, tree => do
    if (← Act.process).options.noRun then return 0
    let status ← match tree with
      | .simple line assignments words redirections =>
        evalSimple fuel tested last line assignments words redirections
      | .conjunction first second =>
        let status ← evalTree fuel true false first
        if status = 0 then evalTree fuel tested last second else pure status
      | .disjunction first second =>
        let status ← evalTree fuel true false first
        if status = 0 then pure status else evalTree fuel tested last second
      | .negation command =>
        let status ← evalTree fuel true false command
        pure (if status = 0 then 1 else 0)
      | .pipeline stages => evalPipeline fuel tested stages
      | .group commands => evalList fuel tested last commands
      | .subshell line commands redirections =>
        evalSubshell fuel tested last line commands redirections
      | .background line command => evalBackground fuel line command
      | .redirected line command redirections =>
        modify fun p => { p with line }
        let joints ← redirections.mapM (Joint.ofRedirection (substitute fuel))
        let status? ← whileJoined joints (evalTree fuel tested false command)
        pure (status?.getD 2)
      | .conditional condition yes no =>
        let status ← evalList fuel true false condition
        if status = 0 then evalList fuel tested last yes else evalList fuel tested last no
      | .loop condition body wanted => deeper do
        Act.iterate (fun status => do
          spend
          let judged ← Act.attempt (evalList fuel true false condition)
          match judged with
          | .ok s =>
            if (s == 0) != wanted then return .error status
            let result ← Act.attempt (evalList fuel tested false body)
            afterRound 0 result
          | .error halt => afterRound status (.error halt)) maxRounds 0
      | .each line name words body =>
        modify fun p => { p with line }
        let values ← match words with
          | none => pure (← Act.process).args
          | some words => pure (← words.mapM (expandFields (substitute fuel))).flatten
        deeper do
          Act.iterate (fun (values, status) => do
            match values with
            | [] => return .error status
            | value :: rest =>
              spend
              assign name value false
              let result ← Act.attempt (evalList fuel tested false body)
              match ← afterRound 0 result with
              | .ok status => return .ok (rest, status)
              | .error status => return .error status) maxRounds (values, 0)
      | .choice line subject branches =>
        modify fun p => { p with line }
        let text := (← expandText (substitute fuel) .first subject).toList
        let found? ← branches.findM? fun (patterns, _) => do
          let hit? ← patterns.findM? fun pattern => do
            let items ← expandWord (substitute fuel) .first pattern
            return (Pattern.ofMarked (markedOf items)).fits text
          return hit?.isSome
        match found? with
        | some (_, body) => evalList fuel tested last body
        | none => pure 0
      | .definition _ name body =>
        modify fun p => { p with functions := (name, body) :: p.functions.filter (·.1 != name) }
        pure 0
    setStatus status
    runPending fuel
    if tree.isChecked && !tested && status != 0 && (← Act.process).options.exitOnFailure then
      throw .leaving
    return status

/-- Run commands one after the other; the answer is the status of the last one. -/
def evalList : Nat → Bool → Bool → List Tree → Act Nat
  | 0, _, _, _ => throw (.killed stackSignal)
  | fuel + 1, tested, last, commands => do
    match commands with
    | [command] => evalTree fuel tested last command
    | commands =>
      let count := commands.length
      commands.zipIdx.foldlM (fun _ (command, index) =>
        evalTree fuel tested (last && index + 1 == count) command) 0

def evalPipeline : Nat → Bool → List Tree → Act Nat
  | 0, _, _ => throw (.killed stackSignal)
  | fuel + 1, tested, stages => do
    let count := stages.length
    let (ends, _) ← stages.zipIdx.foldlM (fun ((ends, input?) : List (Ended × Option Nat) × Option Nat)
        (stage, index) => do
      let output? ← if index + 1 == count then pure none else some <$> newChannel
      let ended ← fork do
        match input? with
        | some channel => modify (·.join 0 (.outOf channel))
        | none => pure ()
        match output? with
        | some channel => modify (·.join 1 (.into channel))
        | none => pure ()
        untilEnd fuel (evalTree fuel tested true stage)
      return ((ended, output?) :: ends, output?)) ([], none)
    let ends ← settleStages none ends
    let status := (ends.head?.map (·.status)).getD 0
    let stop := ends.foldl (fun time ended => max time ended.stop) 0
    let _ ← awaitEnd { process := 0, stop, status }
    return status

def evalSubshell : Nat → Bool → Bool → Nat → List Tree → List Redirection → Act Nat
  | 0, _, _, _, _, _ => throw (.killed stackSignal)
  | fuel + 1, tested, last, line, commands, redirections => do
    modify fun p => { p with line }
    let joints ← redirections.mapM (Joint.ofRedirection (substitute fuel))
    let go : Act Nat := do
      if !(← joinAll joints) then throw .failed
      evalList fuel tested true commands
    if last && !(← Act.process).hasTraps then
      setStatus (← go)
      throw .leaving
    else
      let ended ← fork (untilEnd fuel go)
      awaitEnd ended

/-- Leave a command to itself; whoever leaves it is ahead of it. -/
def evalBackground : Nat → Nat → Tree → Act Nat
  | 0, _, _ => throw (.killed stackSignal)
  | fuel + 1, line, command => do
    modify fun p => { p with line }
    let (command, redirections) := match command with
      | .redirected _ command redirections => (command, redirections)
      | command => (command, [])
    let joints ← redirections.mapM (Joint.ofRedirection (substitute fuel))
    let ended ← fork <| untilEnd fuel do
      modify fun p => { p.join 0 .sink with begun := p.clock + 1, clock := p.clock + 1 }
      if !(← joinAll joints) then throw .failed
      evalTree fuel false true command
    modify fun p => { p with
      jobs := { process := ended.process, stop := ended.stop, status := ended.status } :: p.jobs }
    return 0

/-- Run a command of words: a function, a built-in command, or a program. -/
def evalSimple : Nat → Bool → Bool → Nat → List (String × Word) → List Word → List Redirection →
    Act Nat
  | 0, _, _, _, _, _, _ => throw (.killed stackSignal)
  | fuel + 1, tested, last, line, assignments, words, redirections => do
    spend
    modify fun p => { p with line, substituted := 0 }
    let argv ← expandCommand (substitute fuel) words
    let named := withoutRequest false argv
    let asCommand := argv.head? == some "command"
    let joints ← redirections.mapM (Joint.ofRedirection (substitute fuel))
    let p ← Act.process
    let errors := p.handle? 2
    let assignAll (give : String → String → Act Unit) : Act Unit := do
      let texts ← assignments.mapM fun (name, word) => do
        let value ← expandText (substitute fuel) .list word
        give name value
        return s!"{name}={value}"
      trace (substitute fuel) errors (texts ++ argv)
    match named with
    | [] =>
      let status? ← whileJoined joints do
        assignAll fun name value => assign name value false
        return (← Act.process).substituted
      return status?.getD 2
    | name :: args =>
      match (if asCommand then none else p.functions.lookup name) with
      | some body =>
        let status? ← whileJoined joints <| inScope do
          assignAll assignInScope
          callFunction fuel tested body args
        return status?.getD 2
      | none =>
        if isBuiltin name then
          let special := isSpecialBuiltin name && !asCommand && p.manner == .short
          let run : Act Nat :=
            if isSpecialBuiltin name && !asCommand then do
              assignAll fun n value => assign n value (name == "exec" && !args.isEmpty)
              runBuiltin fuel tested special name args
            else inScope do
              assignAll assignInScope
              runBuiltin fuel tested special name args
          let status? ← if name = "exec" then
              if ← joinAll joints then some <$> run else pure none
            else whileJoined joints run
          match status? with
          | some status => return status
          | none => if special then throw .failed else return 2
        else
          let run (act : String → Act Nat) : Act Nat := do
            match ← findProgram "" name with
            | .error e =>
              complainOfProgram name e
              return 127
            | .ok path => act path
          if last && !p.hasTraps then
            if !(← joinAll joints) then return 2
            assignAll fun n value => assign n value true
            run fun path => do
              execute fuel path named
              throw .leaving
          else
            let status? ← whileJoined joints <| inScope do
              assignAll assignInScope
              run fun path => do
                let ended ← fork (execute fuel path named)
                awaitEnd ended
            return status?.getD 2

def callFunction : Nat → Bool → Tree → List String → Act Nat
  | 0, _, _, _ => throw (.killed stackSignal)
  | fuel + 1, tested, body, args => do
    let before ← Act.process
    set { before with args, loops := 0, letter := 0 }
    let result ← Act.attempt (evalTree fuel tested false body)
    modify fun p => { p with args := before.args, loops := before.loops, letter := before.letter }
    match result with
    | .ok status => return status
    | .error .returning => return (← Act.process).status
    | .error halt => throw halt

def runBuiltin : Nat → Bool → Bool → String → List String → Act Nat
  | 0, _, _, _, _ => throw (.killed stackSignal)
  | fuel + 1, tested, special, name, args => do
    let before ← Act.process
    set { before with command := some name }
    let result ← Act.attempt <| match name with
      | "eval" => evalText fuel tested false (String.intercalate " " args)
      | "." => match args with
        | [] => pure 0
        | path :: _ => runFile fuel path
      | "exec" => match args with
        | [] => pure 0
        | program :: _ => do
          match ← findProgram "" program with
          | .error e =>
            complainOfProgram program e
            setStatus 127
          | .ok path => execute fuel path args
          throw .leaving
      | "command" => do
        let (flags, names) ← readFlags ['p', 'v', 'V'] [] args
        match flags.filter (·.1 != 'p'), names with
        | [], _ | _, [] => pure 0
        | (flag, _) :: _, name :: _ => describe (flag == 'V') name
      | "hash" => hashAll args
      | "type" => describeAll true args
      | name => match simpleBuiltins.lookup name with
        | some run => run args
        | none => pure 0
    modify fun p => { p with command := before.command }
    match result with
    | .ok status => return status
    | .error .failed => if special then throw .failed else return (← Act.process).status
    | .error halt => throw halt

def runFile : Nat → String → Act Nat
  | 0, _ => throw (.killed stackSignal)
  | fuel + 1, name => do
    let p ← Act.process
    let m ← Act.machine
    let bytesOf? (path : String) : Option (List UInt8) :=
      match m.tree.locateFrom p.place ⟨widen path⟩ with
      | .ok place => match m.tree.at? place with
        | some (.file bytes) => some bytes
        | some .sink => some []
        | _ => none
      | .error _ => none
    let file? := if name.toList.contains '/' then (bytesOf? name).map fun bytes => (name, bytes)
      else (splitPath ((p.valueOf? "PATH").getD "")).findSome? fun directory =>
        let path := inDirectory directory name
        (bytesOf? path).map fun bytes => (path, bytes)
    match file? with
    | none =>
      if name.toList.contains '/' then refuse s!"cannot open {name}: No such file"
      else refuse s!"{name}: not found"
    | some (path, bytes) =>
      set { p with command := some path }
      match ← Act.attempt (evalText fuel false false (ofBytes bytes)) with
      | .ok status => return status
      | .error .returning => return (← Act.process).status
      | .error halt => throw halt

/-- Run the commands in a text, line by line. -/
def evalText : Nat → Bool → Bool → String → Act Nat
  | 0, _, _, _ => throw (.killed stackSignal)
  | fuel + 1, tested, last, text => do
    let reader : Reader := { rest := text.toList, nextDocument := (← Act.machine).nextDocument }
    Act.iterate (fun (reader, status) => do
      match Script.next? reader with
      | .error fault =>
        modify fun p => { p with line := fault.line }
        refuse fault.detail
      | .ok (none, _) => return .error status
      | .ok (some commands, reader) =>
        Act.onMachine fun m => { m with
          documents := reader.documents ++ m.documents
          nextDocument := max m.nextDocument reader.nextDocument }
        let final := reader.held matches some .finish
        modify fun p => { p with reached := reader.line }
        let status ← if commands.isEmpty then pure status
          else evalList fuel tested (last && final) commands
        return .ok ({ reader with documents := [] }, status)) (text.length + 2) (reader, 0)

def execute : Nat → String → List String → Act Unit
  | 0, _, _ => throw (.killed stackSignal)
  | fuel + 1, path, argv => do
    match ← refusalToRun path with
    | some e => complainOfProgram (argv.headD path) e
    | none =>
      match ← nodeAt path with
      | .ok (place, .program) => runProgram fuel (place.getLast?.getD "") argv
      | .ok (_, .file bytes) =>
        match interpreter? bytes with
        | some (interpreter :: options) =>
          execute fuel interpreter (interpreter :: options ++ path :: argv.drop 1)
        | _ => runProgram fuel "sh" ("sh" :: path :: argv.drop 1)
      | _ => pure ()

def runProgram : Nat → String → List String → Act Unit
  | 0, _, _ => throw (.killed stackSignal)
  | fuel + 1, kind, argv => do
    if shellNames.contains kind then runShell fuel kind argv
    else
      modify (·.asProgram (argv.headD kind))
      let start (argv : List String) : Act (Option FileError) := do
        match ← findProgram usualPath (argv.headD "") with
        | .error e => return some e
        | .ok path =>
          match ← refusalToRun path with
          | some e => return some e
          | none =>
            execute fuel path argv
            return none
      setStatus (← runTool start kind argv)

def runShell : Nat → String → List String → Act Unit
  | 0, _, _ => throw (.killed stackSignal)
  | fuel + 1, kind, argv => do
    let name := argv.headD kind
    modify (·.asShell kind name)
    untilEnd fuel do
      let (operands, _, fromText) ← readOptions true false (argv.drop 1)
      match fromText, operands with
      | true, [] => refuse "-c requires an argument"
      | true, text :: rest =>
        modify fun p => { p with name := rest.headD p.name, args := rest.drop 1, line := 1 }
        evalText fuel false true text
      | false, [] =>
        modify fun p => { p with line := 1 }
        let bytes := (← readAll 0).getD []
        evalText fuel false false (ofBytes bytes)
      | false, file :: args =>
        match ← nodeAt file with
        | .ok (_, node) =>
          modify fun p => { p with name := file, args, line := 1 }
          match node with
          | .file bytes => evalText fuel false false (ofBytes bytes)
          | _ => return 0
        | .error e =>
          let p ← Act.process
          match p.manner with
          | .short => refuse (Joint.refusal p .read file e)
          | .long =>
            writeError s!"{name}: {file}: {e.label}\n"
            setStatus 127
            throw .leaving

end

end DeviceLab.Shell
