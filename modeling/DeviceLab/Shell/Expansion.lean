import DeviceLab.Shell.Arithmetic
import DeviceLab.Shell.Pattern

namespace DeviceLab.Shell

open Text

/-- A piece of what a word expands to. -/
inductive Item
  | character (c : Char) (quoted splits : Bool)
  | anchor
  | gap
  deriving Repr, DecidableEq, Inhabited

def literalItems (text : String) (quoted : Bool) : List Item :=
  let cs := text.toList.map fun c => Item.character c quoted false
  if quoted then .anchor :: cs else cs

def valueItems (text : String) (quoted : Bool) : List Item :=
  text.toList.map fun c => Item.character c quoted !quoted

/-- The characters of items with their quotation marks; a gap stands for a space. -/
def markedOf (items : List Item) : List Marked :=
  items.filterMap fun item => match item with
    | .character c quoted _ => some (c, quoted)
    | .gap => some (' ', true)
    | .anchor => none

def textOf (items : List Item) : String :=
  String.ofList ((markedOf items).map (·.1))

def Process.separators (p : Process) : String :=
  (p.valueOf? "IFS").getD " \t\n"

def isWhiteSeparator (c : Char) : Bool :=
  c == ' ' || c == '\t' || c == '\n'

/-- Fields in the making: those that are finished, last first, the one at work, last character
first, and whether white space has just ended a field. -/
structure Fields where
  done : List (List Marked) := []
  current : Option (List Marked) := none
  afterWhite : Bool := false

namespace Fields

def close (f : Fields) : Fields :=
  match f.current with
  | some field => { done := field.reverse :: f.done }
  | none => { f with afterWhite := false }

/-- Add an item.  White space between fields separates them however much there is of it; another
separator ends a field even if that is empty. -/
def add (separators : List Char) (f : Fields) : Item → Fields
  | .anchor => { f with current := some (f.current.getD []) }
  | .gap => f.close
  | .character c quoted splits =>
    if splits && separators.contains c then
      if isWhiteSeparator c then
        match f.current with
        | some _ => { f.close with afterWhite := true }
        | none => f
      else
        match f.current with
        | some _ => f.close
        | none =>
          if f.afterWhite then { f with afterWhite := false }
          else { f with done := [] :: f.done }
    else { f with current := some ((c, quoted) :: f.current.getD []), afterWhite := false }

def ofItems (separators : String) (items : List Item) : List (List Marked) :=
  (items.foldl (add separators.toList) {}).close.done.reverse

end Fields

def dropFinalLineFeeds (text : String) : String :=
  String.ofList (text.toList.reverse.dropWhile (· == '\n')).reverse

def Options.letters (o : Options) : String :=
  String.ofList (([(o.refuseUnset, 'u'), (o.exportAll, 'a'), (o.noOverwrite, 'C'), (o.verbose, 'v'),
    (o.trace, 'x'), (o.noRun, 'n'), (o.noPatterns, 'f'), (o.exitOnFailure, 'e')].filter
      (·.1)).map (·.2))

/-- The value of a parameter other than all arguments together. -/
def Process.parameter? (p : Process) (name : String) : Option String :=
  match name.toList with
  | ['#'] => some (toString p.args.length)
  | ['?'] => some (toString p.status)
  | ['$'] => some (toString p.shell)
  | ['!'] => p.jobs.head?.map fun job => toString job.process
  | ['-'] => some p.options.letters
  | cs =>
    if cs.all Char.isDigit then
      match ofDigits 10 cs with
      | 0 => some p.name
      | n + 1 => p.args[n]?
    else if name = "LINENO" then some (toString p.line)
    else p.valueOf? name

def isAll (name : String) : Bool :=
  name == "@" || name == "*"

/-- The items of all arguments: each a field of its own, or all of them in one field. -/
def allItems (p : Process) (name : String) (quoted : Bool) : List Item :=
  if name = "*" ∧ quoted then
    let separator := match p.separators.toList with
      | [] => ""
      | c :: _ => String.singleton c
    valueItems (String.intercalate separator p.args) true
  else
    let fields := p.args.map fun arg =>
      if quoted then .anchor :: valueItems arg true else valueItems arg false
    (fields.intersperse [.gap]).flatten

def isLacking (p : Process) (name : String) (lack : Lack) : Bool :=
  let value? := if isAll name then
      if p.args.isEmpty then none else some (String.intercalate " " p.args)
    else p.parameter? name
  match value?, lack with
  | none, _ => true
  | some value, .empty => value.isEmpty
  | some _, .unset => false

/-- The home directories of the usual users. -/
def usualHomes : List (String × String) :=
  [("root", "/root"), ("daemon", "/usr/sbin"), ("bin", "/bin"), ("sys", "/dev"), ("sync", "/bin"),
    ("games", "/usr/games"), ("man", "/var/cache/man"), ("mail", "/var/mail"),
    ("www-data", "/var/www"), ("backup", "/var/backups"), ("nobody", "/nonexistent")]

/-- The home directory of a user, or of the one who runs the shell. -/
def home? (p : Process) (user : String) : Option String :=
  if user.isEmpty then p.valueOf? "HOME" else usualHomes.lookup user

/-- The items of a text that may begin with the sign for a home directory; the name of the user ends
at a slash, or where `inList` also at a colon.  `whole` says that nothing follows the text. -/
def tildeItems (p : Process) (inList whole : Bool) (text : String) : List Item :=
  match text.toList with
  | '~' :: rest =>
    let user := rest.takeWhile fun c => c != '/' && !(inList && c == ':')
    if user.length = rest.length && !whole then literalItems text false
    else match home? p (String.ofList user) with
      | some home =>
        literalItems home true ++ literalItems (String.ofList (rest.drop user.length)) false
      | none => literalItems text false
  | _ => literalItems text false

/-- The items of a text in a list of directories, any of which may begin with the sign for a home
directory. -/
def tildeListItems (p : Process) (whole : Bool) (text : String) : List Item :=
  let pieces := text.splitOn ":"
  let last := pieces.length - 1
  let items := pieces.mapIdx fun index piece =>
    tildeItems p false (whole || index != last) piece
  (items.intersperse (literalItems ":" false)).flatten

/-- Which signs for home directories count in a word. -/
inductive Tildes
  | none
  | first
  | list
  deriving Repr, DecidableEq

mutual

/-- The items of a part; `substitute` runs a script and answers what it writes. -/
def expandPart (substitute : List Tree → Act String) : Nat → Part → Act (List Item)
  | 0, _ => throw .endless
  | fuel + 1, part => do
    match part with
    | .text text quoted => return literalItems text quoted
    | .substitution script quoted =>
      let text ← substitute script
      return valueItems (dropFinalLineFeeds text) quoted
    | .arithmetic expression quoted =>
      let items ← expandParts substitute fuel .none expression
      return valueItems (toString (← calculate (textOf items))) quoted
    | .parameter name operation quoted =>
      let p ← Act.process
      let items : Act (List Item) := do
        let p ← Act.process
        if isAll name then return allItems p name quoted
        match p.parameter? name with
        | some value => return valueItems value quoted
        | none => if p.options.refuseUnset then refuse s!"{name}: parameter not set" else return []
      let tildes : Tildes := if quoted then .none else .first
      match operation with
      | .value => items
      | .length =>
        let items ← if isAll name then pure (allItems p "*" true) else items
        return valueItems (toString (textOf items).length) quoted
      | .fallback lack word =>
        if isLacking p name lack then expandParts substitute fuel tildes word else items
      | .instead lack word =>
        if isLacking p name lack then return [] else expandParts substitute fuel tildes word
      | .assign lack word =>
        if isLacking p name lack then
          let value := textOf (← expandParts substitute fuel tildes word)
          if !isName name then refuse s!"{name}: bad variable name"
          assign name value false
          return valueItems value quoted
        else items
      | .require lack word =>
        if isLacking p name lack then
          if word.isEmpty then
            let tail := match lack with
              | .empty => " or null"
              | .unset => ""
            refuse s!"{name}: parameter not set{tail}"
          else
            let text := textOf (← expandParts substitute fuel tildes word)
            refuse s!"{name}: {text}"
        else items
      | .cut side longest word =>
        let items ← items
        let pattern := Pattern.ofMarked (markedOf (← expandParts substitute fuel tildes word))
        let value := (textOf items).toList
        let left := match side with
          | .front => pattern.cutFront longest value
          | .back => pattern.cutBack longest value
        return valueItems (String.ofList left) quoted
      | .bad => refuse "Bad substitution"

def expandParts (substitute : List Tree → Act String) : Nat → Tildes → Word → Act (List Item)
  | 0, _, _ => throw .endless
  | fuel + 1, tildes, word => do
    match word with
    | [] => return []
    | .text text false :: rest =>
      let p ← Act.process
      let first := match tildes with
        | .none => literalItems text false
        | .first => tildeItems p false rest.isEmpty text
        | .list => tildeListItems p rest.isEmpty text
      return first ++ (← rest.mapM (expandPart substitute fuel)).flatten
    | parts => return (← parts.mapM (expandPart substitute fuel)).flatten

end

def wordDepth : Nat := 2000

def expandWord (substitute : List Tree → Act String) (tildes : Tildes) (word : Word) :
    Act (List Item) :=
  expandParts substitute wordDepth tildes word

def expandText (substitute : List Tree → Act String) (tildes : Tildes) (word : Word) : Act String := do
  return textOf (← expandWord substitute tildes word)

/-- Whether a pattern may match a name; a name that begins with a dot has to be asked for. -/
def fitsName (pattern : List Marked) (name : String) : Bool :=
  let open? := (pattern.head?.map (·.1)) == some '.'
  (open? || name.toList.head? != some '.') && (Pattern.ofMarked pattern).fits name.toList

/-- The components of a path that is a pattern, given the one at work in reverse. -/
def componentsOf (current : List Marked) : List Marked → List (List Marked)
  | [] => [current.reverse]
  | (c, quoted) :: rest =>
    if c = '/' then current.reverse :: componentsOf [] rest
    else componentsOf ((c, quoted) :: current) rest

/-- The names in a directory, with those of the directory itself and of the one above. -/
def namesToMatch (tree : FileTree) (place : Place) : List String :=
  "." :: ".." :: tree.namesIn place

/-- The paths that match the components of a pattern, from a place that is written `before`. -/
def matchingPaths (tree : FileTree) (place : Place) (before : String) :
    List (List Marked) → List String
  | [] => []
  | [last] =>
    let text := String.ofList (last.map (·.1))
    if !(Pattern.ofMarked last).isOpen then
      if text.isEmpty || (tree.at? (tree.step place (widen text))).isSome then [before ++ text]
      else []
    else (namesToMatch tree place).filterMap fun name =>
      if fitsName last (narrow name) then some (before ++ narrow name) else none
  | first :: rest =>
    let text := String.ofList (first.map (·.1))
    let enter (name : String) : List String :=
      let inside := tree.step place (widen name)
      if tree.at? inside = some .directory then
        matchingPaths tree inside (before ++ name ++ "/") rest
      else []
    if text.isEmpty then matchingPaths tree place (before ++ "/") rest
    else if !(Pattern.ofMarked first).isOpen then enter text
    else ((namesToMatch tree place).filter fun name => fitsName first (narrow name)).flatMap fun name =>
      enter (narrow name)

/-- The texts that a field stands for: the names of files that match it, or itself. -/
def pathsOf (tree : FileTree) (p : Process) (field : List Marked) : List String :=
  let itself := [String.ofList (field.map (·.1))]
  if p.options.noPatterns || !(Pattern.ofMarked field).isOpen then itself
  else
    let components := componentsOf [] field
    let found := match components with
      | [] :: rest => matchingPaths tree [] "/" rest
      | components => matchingPaths tree p.place "" components
    if found.isEmpty then itself else found.mergeSort fun a b => !(b < a)

def expandFields (substitute : List Tree → Act String) (word : Word) : Act (List String) := do
  let items ← expandWord substitute .first word
  let p ← Act.process
  let m ← Act.machine
  return (Fields.ofItems p.separators items).flatMap (pathsOf m.tree p)

end DeviceLab.Shell
