import DeviceLab.CommandFile.Expansion
import DeviceLab.CommandFile.LogicalLine

/-!
Command files with their includes.

A file is read line by line: definitions of macros are collected, `INCLUDE` reads another file in
place, and any other line is kept.  Once everything has been read, the lines that were kept are
expanded with all the macros found, wherever they were defined; of two macros with one name the one
read last counts.
-/

namespace DeviceLab.CommandFile

/-- A command of a file: its arguments and the line that it comes from. -/
structure Entry where
  args : List String
  path : Path
  number : Nat
  deriving Repr, DecidableEq, Inhabited

/-- What a command file and its includes hold. -/
structure Document where
  entries : List Entry := []
  included : List Path := []
  deriving Repr, DecidableEq, Inhabited

/-- What has been read so far, not yet expanded. -/
structure Draft where
  macros : Macros := {}
  entries : List Entry := []
  included : List Path := []
  deriving DecidableEq, Inhabited

/-- A long macro whose end has not been read: its name, its line and its token lists. -/
structure OpenMacro where
  name : String
  number : Nat
  bodies : List (List String) := []
  deriving Repr, DecidableEq

/-- What a line of a command file says. -/
inductive Statement
  | short (name : String) (body : List String)
  | long (name : String)
  | inclusion (target : Path)
  | command (args : List String)
  | faulty (fault : LineFault)
  deriving Repr, DecidableEq

def Statement.ofTokens : List String → Statement
  | "MACRO" :: name :: "=" :: body => .short name body
  | "MACRO" :: _ => .faulty .shortMacroForm
  | ["LONG", "MACRO", name] => .long name
  | "LONG" :: "MACRO" :: _ => .faulty .longMacroForm
  | ["INCLUDE", target] => .inclusion ⟨target⟩
  | "INCLUDE" :: _ => .faulty .includeForm
  | args => .command args

/-- Read the lines of the file at `path`; `follow` reads an included file. -/
def Draft.readLines (follow : Path → Draft → Except Failure Draft) (path : Path) (draft : Draft) :
    Option OpenMacro → List LogicalLine → Except Failure Draft
  | none, [] => .ok draft
  | some m, [] => .error ⟨path, .atLine m.number .unclosedLongMacro⟩
  | some m, line :: rest =>
    if line.tokens = ["END", "MACRO"] then
      let macros := { draft.macros with long := draft.macros.long.insert m.name m.bodies }
      { draft with macros }.readLines follow path none rest
    else draft.readLines follow path (some { m with bodies := m.bodies ++ [line.tokens] }) rest
  | none, line :: rest =>
    match Statement.ofTokens line.tokens with
    | .faulty fault => .error ⟨path, .atLine line.number fault⟩
    | .short name body =>
      let macros := { draft.macros with short := draft.macros.short.insert name body }
      { draft with macros }.readLines follow path none rest
    | .long name => draft.readLines follow path (some { name, number := line.number }) rest
    | .inclusion target => do
      let target := path.beside target
      let draft ← follow target { draft with included := draft.included ++ [target] }
      draft.readLines follow path none rest
    | .command args =>
      let entries := draft.entries ++ [⟨args, path, line.number⟩]
      { draft with entries }.readLines follow path none rest

def maxIncludeDepth : Nat := 10

/-- Read a file into a draft.  `outer` are the files that it is being read for, and `levels` says
how many more may be open. -/
def Draft.readFile (tree : FileTree) :
    Nat → List Path → Path → Draft → Except Failure Draft
  | levels, outer, path, draft =>
    if outer.any (·.same path) then .error ⟨path, .includeCycle⟩
    else match levels with
      | 0 => .error ⟨path, .includesTooDeep⟩
      | levels + 1 =>
        match tree.readText path with
        | .error error => .error ⟨path, .unreadable error⟩
        | .ok text =>
          match logicalLines text.toList with
          | .error fault => .error ⟨path, fault⟩
          | .ok lines =>
            draft.readLines (Draft.readFile tree levels (path :: outer)) path none lines

def Entry.expand (macros : Macros) (e : Entry) : Except Failure (List Entry) :=
  match expandAt macros 0 e.args with
  | .error fault => .error ⟨e.path, .atLine e.number fault⟩
  | .ok results => .ok (results.map fun args => { e with args })

def Draft.finish (draft : Draft) : Except Failure Document := do
  let entries ← collect (Entry.expand draft.macros) draft.entries
  return { entries, included := draft.included }

def Document.ofFile (tree : FileTree) (path : Path) : Except Failure Document := do
  let draft ← Draft.readFile tree maxIncludeDepth [] path {}
  draft.finish

end DeviceLab.CommandFile
