import DeviceLab.Shell.Regex
import DeviceLab.Shell.Tool.Stream

namespace DeviceLab.Shell.Tool

open Text

/-! ### Searching -/

def literalRegex (text : String) : Regex :=
  text.toList.foldr (fun c r => .sequence (.char c) r) .empty

def inWord (c : Char) : Bool :=
  c.isAlphanum || c == '_'

/-- How lines are searched. -/
structure Search where
  regex : Regex
  fold : Bool
  words : Bool
  whole : Bool

def Search.find? (s : Search) (text : Array Char) (spot : Nat) : Option Regex.Match :=
  (List.range (text.size + 1 - spot)).findSome? fun n =>
    let first := spot + n
    let fits (last : Nat) : Bool :=
      (!s.whole || (first = 0 && last = text.size)) &&
      (!s.words || (!(first > 0 && (text[first - 1]?).any inWord) && !(text[last]?).any inWord))
    ((s.regex.ends s.fold text first []).filter fun e => fits e.1).foldl (fun best (last, groups) =>
      if best.any fun m : Regex.Match => last ≤ m.last then best else some { first, last, groups }) none

/-- All matches in a text that are not empty; `fuel` bounds their number. -/
def Search.all (s : Search) (text : Array Char) : Nat → Nat → List Regex.Match
  | 0, _ => []
  | fuel + 1, spot =>
    match s.find? text spot with
    | none => []
    | some m =>
      if m.last > m.first then m :: s.all text fuel m.last
      else if m.last ≥ text.size then []
      else s.all text fuel (m.last + 1)

def grep (extended literal : Bool) (args : List String) : Tool Nat := do
  let (flags, operands) ← readArguments {
    plain := ['E', 'F', 'G', 'P', 'i', 'y', 'v', 'w', 'x', 'c', 'n', 'l', 'L', 'q', 's', 'o', 'h', 'H',
      'r', 'R', 'z', 'a', 'b']
    valued := ['e', 'f', 'm', 'A', 'B', 'C']
    long := [("extended-regexp", 'E'), ("fixed-strings", 'F'), ("ignore-case", 'i'),
      ("invert-match", 'v'), ("word-regexp", 'w'), ("line-regexp", 'x'), ("count", 'c'),
      ("line-number", 'n'), ("files-with-matches", 'l'), ("files-without-match", 'L'), ("quiet", 'q'),
      ("silent", 'q'), ("no-messages", 's'), ("only-matching", 'o'), ("no-filename", 'h'),
      ("with-filename", 'H'), ("regexp", 'e'), ("max-count", 'm')]
    status := 2 } args
  let given := (flags.filter (·.1 == 'e')).map (·.2)
  let (patterns, files) ← match given, operands with
    | [], [] =>
      let p ← Act.process
      writeError s!"Usage: {p.name} [OPTION]... PATTERNS [FILE]...\nTry '{p.name} --help' for more information.\n"
      throw 2
    | [], pattern :: files => pure ([pattern], files)
    | given, files => pure (given, files)
  let patterns := patterns.flatMap fun text => text.splitOn "\n"
  let regexes ← patterns.mapM fun text =>
    if has flags 'F' || (literal && !has flags 'E' && !has flags 'G') then pure (literalRegex text)
    else match Regex.ofText ((extended || has flags 'E' || has flags 'P') && !has flags 'G') text with
      | .ok r => pure r
      | .error complaint => quit 2 complaint
  let regex := match regexes with
    | [] => Regex.empty
    | first :: rest => rest.foldl Regex.either first
  let search : Search := {
    regex, fold := has flags 'i' || has flags 'y', words := has flags 'w', whole := has flags 'x' }
  let limit? := (value? flags 'm').map fun t => ofDigits 10 t.toList
  let named := has flags 'H' || (files.length > 1 && !has flags 'h')
  let mut found := false
  let mut failed := false
  for file in (if files.isEmpty then ["-"] else files) do
    match ← input file with
    | .error e =>
      if !has flags 's' then warn (plainComplaint file e)
      failed := true
    | .ok bytes =>
      let name := if file = "-" then "(standard input)" else file
      let heads (n : Nat) : String :=
        (if named then name ++ ":" else "") ++ (if has flags 'n' then toString n ++ ":" else "")
      let lines := ((linesOf (ofBytes bytes)).1.zipIdx).map fun (line, n) => (line, n + 1)
      let hits := lines.filter fun (line, _) =>
        (search.find? line.toList.toArray 0).isSome != has flags 'v'
      let hits := match limit? with
        | some n => hits.take n
        | none => hits
      if !hits.isEmpty then found := true
      if has flags 'q' then
        if found then return 0
      else if has flags 'l' then
        if !hits.isEmpty then put (name ++ "\n")
      else if has flags 'L' then
        if hits.isEmpty then put (name ++ "\n")
      else if has flags 'c' then put ((if named then name ++ ":" else "") ++ s!"{hits.length}\n")
      else if has flags 'o' then
        if !has flags 'v' then
          for (line, n) in hits do
            let text := line.toList.toArray
            for m in search.all text (text.size + 1) 0 do
              put (heads n ++ m.text text 0 ++ "\n")
      else put (String.join (hits.map fun (line, n) => heads n ++ line ++ "\n"))
  return if failed then 2 else if found then 0 else 1

/-- A line that a command is meant for. -/
inductive LineMark
  | number (n : Nat)
  | final
  | regex (r : Regex) (fold : Bool)
  deriving Inhabited

/-- A piece of what a match is replaced by. -/
inductive Replacement
  | text (text : String)
  | group (number : Nat)
  deriving Repr, Inhabited

/-- What an editing command does. -/
inductive Edit
  | substitute (r : Regex) (fold : Bool) (pieces : List Replacement) (count : Nat) (all prints : Bool)
  | change (table : List (Char × Char))
  | print
  | printFirst
  | delete
  | quit (status : Nat) (silent : Bool)
  | number
  | next
  | join
  | before (text : String)
  | after (text : String)
  | instead (text : String)
  | keep (append : Bool)
  | fetch (append : Bool)
  | swap
  | nothing
  deriving Inhabited

/-- An editing command, and for which lines it is meant.  `skip` commands after it are passed over
where it is not carried out. -/
structure EditCommand where
  first : Option LineMark := none
  last : Option LineMark := none
  negated : Bool := false
  edit : Edit := .nothing
  skip : Nat := 0
  deriving Inhabited

/-- What is wrong with a script of editing commands, and how many characters are left there. -/
structure EditFault where
  left : Nat
  detail : String

/-- A text up to a mark that is not behind a backslash; a backslash before the mark is dropped, one
before a letter `n` gives a line feed where `feeds` says so. -/
def upTo (mark : Char) (acc : List Char) : List Char → Option (List Char × List Char)
  | [] => none
  | '\\' :: c :: rest =>
    if c = mark then upTo mark (c :: acc) rest
    else if c = '\n' then upTo mark ('\n' :: '\\' :: acc) rest
    else upTo mark (c :: '\\' :: acc) rest
  | c :: rest => if c = mark then some (acc.reverse, rest) else upTo mark (c :: acc) rest

def replacementOf : List Char → List Replacement
  | [] => []
  | '\\' :: c :: rest =>
    if c.isDigit then .group (c.toNat - '0'.toNat) :: replacementOf rest
    else if c = 'n' then .text "\n" :: replacementOf rest
    else if c = 't' then .text "\t" :: replacementOf rest
    else .text (String.singleton c) :: replacementOf rest
  | '&' :: rest => .group 0 :: replacementOf rest
  | c :: rest => .text (String.singleton c) :: replacementOf rest

def editRegex (extended : Bool) (cs rest : List Char) : Except EditFault Regex :=
  let unfed := (String.ofList cs).replace "\\n" "\n"
  match Regex.ofText extended unfed with
  | .ok r => .ok r
  | .error detail => .error ⟨rest.length, detail⟩

def readLineMark (extended : Bool) (cs : List Char) : Except EditFault (Option LineMark × List Char) := do
  match cs with
  | '$' :: rest => return (some .final, rest)
  | '/' :: rest =>
    match upTo '/' [] rest with
    | none => .error ⟨0, "unterminated address regex"⟩
    | some (text, rest) =>
      let (fold, rest) := match rest with
        | 'I' :: rest => (true, rest)
        | rest => (false, rest)
      return (some (.regex (← editRegex extended text rest) fold), rest)
  | '\\' :: mark :: rest =>
    match upTo mark [] rest with
    | none => .error ⟨0, "unterminated address regex"⟩
    | some (text, rest) => return (some (.regex (← editRegex extended text rest) false), rest)
  | cs =>
    let digits := cs.takeWhile Char.isDigit
    if digits.isEmpty then return (none, cs)
    else return (some (.number (ofDigits 10 digits)), cs.drop digits.length)

/-- The flags of a substitution: from which match on, whether for all, whether to print, whether
case does not count. -/
def readSubstitutionFlags (number : Nat) (all prints fold : Bool) :
    List Char → (Nat × Bool × Bool × Bool) × List Char
  | [] => ((number, all, prints, fold), [])
  | c :: rest =>
    match c with
    | 'g' => readSubstitutionFlags number true prints fold rest
    | 'p' => readSubstitutionFlags number all true fold rest
    | 'i' | 'I' => readSubstitutionFlags number all prints true rest
    | c =>
      if c.isDigit then
        readSubstitutionFlags (number * 10 + (c.toNat - '0'.toNat)) all prints fold rest
      else ((number, all, prints, fold), c :: rest)

def separatesEdits (c : Char) : Bool :=
  c == ';' || c == '\n' || c == ' ' || c == '\t'

/-- The text of a command that adds lines, and what follows. -/
def readAdded (cs : List Char) : String × List Char :=
  let isBlank (c : Char) : Bool := c == ' ' || c == '\t'
  let cs := cs.dropWhile isBlank
  let cs := match cs with
    | '\\' :: '\n' :: rest => rest
    | '\\' :: rest => rest.dropWhile isBlank
    | cs => cs
  let line := cs.takeWhile (· != '\n')
  (String.ofList (line ++ ['\n']), cs.drop (line.length + 1))

/-- The action of a command, by its letter. -/
def readEdit (extended : Bool) (c : Char) (rest : List Char) : Except EditFault (Edit × List Char) := do
  match c with
  | 's' | 'y' =>
    let unterminated : EditFault := ⟨0, s!"unterminated \x60{c}' command"⟩
    match rest with
    | [] => .error unterminated
    | mark :: rest =>
      match upTo mark [] rest with
      | none => .error unterminated
      | some (pattern, rest) =>
        match upTo mark [] rest with
        | none => .error unterminated
        | some (replacement, rest) =>
          if c = 'y' then
            let plain (cs : List Char) : List Char :=
              ((String.ofList cs).replace "\\n" "\n").toList
            let a := plain pattern
            let b := plain replacement
            if a.length ≠ b.length then
              .error ⟨rest.length, "strings for \x60y' command are different lengths"⟩
            else return (.change (a.zip b), rest)
          else
            let ((number, all, prints, fold), rest) := readSubstitutionFlags 0 false false false rest
            let r ← editRegex extended pattern rest
            if rest.head?.any fun c => !separatesEdits c && c != '\x7d' && c != '#' then
              .error ⟨rest.length - 1, "unknown option to \x60s'"⟩
            else
              return (.substitute r fold (replacementOf replacement) (max 1 number) all prints, rest)
  | 'p' => return (.print, rest)
  | 'P' => return (.printFirst, rest)
  | 'd' => return (.delete, rest)
  | 'q' | 'Q' =>
    let rest := rest.dropWhile (· == ' ')
    let digits := rest.takeWhile Char.isDigit
    return (.quit (ofDigits 10 digits) (c == 'Q'), rest.drop digits.length)
  | '=' => return (.number, rest)
  | 'n' => return (.next, rest)
  | 'N' => return (.join, rest)
  | 'h' => return (.keep false, rest)
  | 'H' => return (.keep true, rest)
  | 'g' => return (.fetch false, rest)
  | 'G' => return (.fetch true, rest)
  | 'x' => return (.swap, rest)
  | 'i' => let (text, rest) := readAdded rest; return (.before text, rest)
  | 'a' => let (text, rest) := readAdded rest; return (.after text, rest)
  | 'c' => let (text, rest) := readAdded rest; return (.instead text, rest)
  | c => .error ⟨rest.length, s!"unknown command: \x60{c}'"⟩

/-- The commands of a script; `depth` counts the open braces.  The answer for a brace holds the
commands up to its end. -/
def readEdits (extended : Bool) : Nat → Nat → List Char →
    Except EditFault (List EditCommand × List Char)
  | 0, _, _ => return ([], [])
  | fuel + 1, depth, cs => do
    let cs := cs.dropWhile separatesEdits
    match cs with
    | [] => if depth = 0 then return ([], []) else .error ⟨0, "unmatched \x60\x7b'"⟩
    | '#' :: rest => readEdits extended fuel depth (rest.dropWhile (· != '\n'))
    | '\x7d' :: rest =>
      if depth = 0 then .error ⟨rest.length, "unexpected \x60\x7d'"⟩ else return ([], rest)
    | cs =>
      let (first, rest) ← readLineMark extended cs
      let rest := rest.dropWhile (· == ' ')
      let (last, rest) ← match first, rest with
        | some _, ',' :: rest => do
          let (last, after) ← readLineMark extended (rest.dropWhile (· == ' '))
          if last.isNone then .error ⟨after.length, "unexpected \x60,'"⟩
          pure (last, after)
        | _, rest => pure (none, rest)
      let rest := rest.dropWhile (· == ' ')
      let (negated, rest) := match rest with
        | '!' :: rest => (true, rest.dropWhile (· == ' '))
        | rest => (false, rest)
      match rest with
      | [] => .error ⟨0, "missing command"⟩
      | '\x7b' :: rest =>
        let (inside, rest) ← readEdits extended fuel (depth + 1) rest
        let (more, rest) ← readEdits extended fuel depth rest
        return ({ first, last, negated, skip := inside.length } :: inside ++ more, rest)
      | c :: rest =>
        let (edit, rest) ← readEdit extended c rest
        let after := rest.dropWhile fun c => c == ' ' || c == '\t'
        if !(edit matches .before _ | .after _ | .instead _) &&
            after.head?.any fun c => !separatesEdits c && c != '\x7d' && c != '#' then
          .error ⟨after.length - 1, "extra characters after command"⟩
        let (more, rest) ← readEdits extended fuel depth rest
        return ({ first, last, negated, edit } :: more, rest)

/-- An editor at work: the lines to come, the number of the present one, the text at work and the
one that is kept, the commands whose ranges are open, with the line they end at, and the output in
reverse. -/
structure Editor where
  rest : List String
  line : Nat := 0
  work : String := ""
  kept : String := ""
  ranges : List (Nat × Option Nat) := []
  tail : List String := []
  output : List String := []
  silent : Bool := false

namespace Editor

def say (e : Editor) (text : String) : Editor :=
  { e with output := text :: e.output }

def hits (e : Editor) : LineMark → Bool
  | .number n => e.line = n
  | .final => e.rest.isEmpty
  | .regex r fold => (r.match? fold e.work.toList.toArray 0).isSome

def wants (e : Editor) (index : Nat) (c : EditCommand) : Bool × Editor :=
  let close (e : Editor) : Editor := { e with ranges := e.ranges.filter (·.1 != index) }
  let (wanted, e) : Bool × Editor := match c.first, c.last with
    | none, _ => (true, e)
    | some first, none => (e.hits first, e)
    | some first, some last =>
      match e.ranges.lookup index with
      | some end? =>
        match end? with
        | some n =>
          if e.line > n then (e.hits first, close e)
          else if e.line = n then (true, close e)
          else (true, e)
        | none => (true, if e.hits last then close e else e)
      | none =>
        if !e.hits first then (false, e)
        else match last with
          | .number n => (true, if n > e.line then { e with ranges := (index, some n) :: e.ranges } else e)
          | .final => (true, if e.rest.isEmpty then e else { e with ranges := (index, none) :: e.ranges })
          | .regex .. => (true, { e with ranges := (index, none) :: e.ranges })
  (wanted != c.negated, e)

/-- A text with matches replaced, and whether there was one. -/
def substituted (r : Regex) (fold : Bool) (pieces : List Replacement) (count : Nat) (all : Bool)
    (text : Array Char) : Nat → Nat → Nat → String × Bool
  | 0, _, _ => ("", false)
  | fuel + 1, spot, number =>
    let slice (a b : Nat) : String := String.ofList (text.extract a b).toList
    match if spot > text.size then none else r.match? fold text spot with
    | none => (slice spot text.size, false)
    | some m =>
      let before := slice spot m.first
      let step := if m.last > m.first then m.last else m.last + 1
      let passed := slice m.last step
      if number < count then
        let (rest, changed) := substituted r fold pieces count all text fuel step (number + 1)
        (before ++ slice m.first m.last ++ passed ++ rest, changed)
      else
        let replaced := String.join (pieces.map fun piece => match piece with
          | .text t => t
          | .group n => m.text text n)
        if all then
          (before ++ replaced ++ passed ++
            (substituted r fold pieces count all text fuel step (number + 1)).1, true)
        else (before ++ replaced ++ slice m.last text.size, true)

/-- What the editor does after a command. -/
inductive Course
  | on
  | nextLine
  | stop (status : Nat)

/-- End the work at a line, writing it unless the editor is silent. -/
def endLine (e : Editor) (prints : Bool) : Editor :=
  let e := if prints && !e.silent then e.say (e.work ++ "\n") else e
  { e with output := e.tail ++ e.output, tail := [] }

def perform (e : Editor) (c : EditCommand) : Course × Editor :=
  match c.edit with
  | .substitute r fold pieces count all prints =>
    let text := e.work.toList.toArray
    let (work, changed) := substituted r fold pieces count all text (text.size + 2) 0 1
    let e := if changed then { e with work } else e
    (.on, if changed && prints then e.say (e.work ++ "\n") else e)
  | .change table => (.on, { e with work := e.work.map fun c => (table.lookup c).getD c })
  | .print => (.on, e.say (e.work ++ "\n"))
  | .printFirst => (.on, e.say (String.ofList (e.work.toList.takeWhile (· != '\n')) ++ "\n"))
  | .delete => (.nextLine, e.endLine false)
  | .quit status silent => (.stop status, e.endLine (!silent))
  | .number => (.on, e.say s!"{e.line}\n")
  | .next =>
    match e.rest with
    | [] => (.stop 0, e.endLine true)
    | line :: rest => (.on, { e.endLine true with rest, work := line, line := e.line + 1 })
  | .join =>
    match e.rest with
    | [] => (.stop 0, e.endLine true)
    | line :: rest => (.on, { e with rest, work := e.work ++ "\n" ++ line, line := e.line + 1 })
  | .before text => (.on, e.say text)
  | .after text => (.on, { e with tail := text :: e.tail })
  | .instead text =>
    let ranged := c.last.isSome && (e.ranges.any fun _ => true)
    (.nextLine, (if ranged && !c.negated then e else e.say text).endLine false)
  | .keep append =>
    (.on, { e with kept := if append then e.kept ++ "\n" ++ e.work else e.work })
  | .fetch append =>
    (.on, { e with work := if append then e.work ++ "\n" ++ e.kept else e.kept })
  | .swap => (.on, { e with work := e.kept, kept := e.work })
  | .nothing => (.on, e)

/-- Carry commands out on the present line, passing over some of them first. -/
def runLine (e : Editor) (index skip : Nat) : List EditCommand → Course × Editor
  | [] => (.nextLine, e.endLine true)
  | c :: rest =>
    if skip > 0 then e.runLine (index + 1) (skip - 1) rest
    else
      let (wanted, e) := e.wants index c
      if !wanted then e.runLine (index + 1) c.skip rest
      else match e.perform c with
        | (.on, e) => e.runLine (index + 1) 0 rest
        | done => done

/-- Work all lines off; the answer is the status. -/
def run (commands : List EditCommand) : Nat → Editor → Nat × Editor
  | 0, e => (0, e)
  | fuel + 1, e =>
    match e.rest with
    | [] => (0, e)
    | line :: rest =>
      match { e with rest, work := line, line := e.line + 1 }.runLine 0 0 commands with
      | (.stop status, e) => (status, e)
      | (_, e) => run commands fuel e

end Editor

def sed (args : List String) : Tool Nat := do
  let (flags, operands) ← readArguments {
    plain := ['n', 'E', 'r', 's', 'u', 'z', 'i']
    valued := ['e', 'f']
    long := [("quiet", 'n'), ("silent", 'n'), ("regexp-extended", 'E'), ("expression", 'e'),
      ("in-place", 'i')] } args
  let given := (flags.filter (·.1 == 'e')).map (·.2)
  let (script, files) ← match given, operands with
    | [], [] =>
      let p ← Act.process
      writeError s!"Usage: {p.name} [OPTION]... \x7bscript-only-if-no-other-script\x7d [input-file]...\n"
      throw 1
    | [], script :: files => pure (script, files)
    | given, files => pure (String.intercalate "\n" given, files)
  let commands ← match readEdits (has flags 'E' || has flags 'r') (2 * script.length + 2) 0 script.toList with
    | .ok (commands, _) => pure commands
    | .error fault => quit 1 s!"-e expression #1, char {script.length - fault.left}: {fault.detail}"
  let edit (text : String) : Nat × String :=
    let (lines, ended) := linesOf text
    let (status, e) := Editor.run commands (lines.length + 1) { rest := lines, silent := has flags 'n' }
    let output := String.join e.output.reverse
    (status, if ended || !output.endsWith "\n" then output
      else String.ofList output.toList.dropLast)
  let complaint (file : String) (e : FileError) : String :=
    match e with
    | .isDirectory => s!"couldn't edit {file}: not a regular file"
    | e => s!"can't read {file}: {e.label}"
  if has flags 'i' then
    eachInput files 4 complaint fun file text => do
      match ← locate file with
      | .ok place =>
        Act.onMachine fun m => { m with tree := m.tree.put place (.file (bytesOf (edit text).2)) }
      | .error _ => return ()
  else
    let mut text := ""
    let mut failed := false
    for file in (if files.isEmpty then ["-"] else files) do
      match ← input file with
      | .ok bytes => text := text ++ ofBytes bytes
      | .error .isDirectory =>
        warn s!"couldn't edit {file}: not a regular file"
        failed := true
      | .error e =>
        warn (complaint file e)
        failed := true
    let (status, output) := edit text
    put output
    return if status ≠ 0 then status else if failed then 2 else 0

end DeviceLab.Shell.Tool
