namespace DeviceLab.Shell

/-- When a fallback stands in for a parameter: if it is not set, or also if it is empty. -/
inductive Lack
  | unset
  | empty
  deriving Repr, DecidableEq, Inhabited

/-- Which end of a value is cut off. -/
inductive End
  | front
  | back
  deriving Repr, DecidableEq, Inhabited

/-- How a stream is joined to a file. -/
inductive Access
  | read
  | write
  | append
  | readWrite
  deriving Repr, DecidableEq, Inhabited

mutual

/-- A part of a word.  What is quoted is neither split into fields nor read as a pattern. -/
inductive Part
  | text (text : String) (quoted : Bool)
  | parameter (name : String) (operation : Operation) (quoted : Bool)
  | substitution (script : List Tree) (quoted : Bool)
  | arithmetic (expression : List Part) (quoted : Bool)

/-- What is done with the value of a parameter. -/
inductive Operation
  | value
  | length
  | fallback (lack : Lack) (word : List Part)
  | assign (lack : Lack) (word : List Part)
  | require (lack : Lack) (word : List Part)
  | instead (lack : Lack) (word : List Part)
  | cut (side : End) (longest : Bool) (pattern : List Part)
  | bad

/-- Where a stream of a command is redirected to. -/
inductive Redirection
  | file (stream : Nat) (access : Access) (name : List Part)
  | duplicate (stream : Nat) (source : List Part)
  | document (stream : Nat) (number : Nat)

/-- A command of a script.  Where a message may name a line, the command knows the one it begins on.
In a list of commands each stands by itself, in the order they are run in. -/
inductive Tree
  | simple (line : Nat) (assignments : List (String × List Part)) (words : List (List Part))
      (redirections : List Redirection)
  | conjunction (first second : Tree)
  | disjunction (first second : Tree)
  | negation (command : Tree)
  | pipeline (stages : List Tree)
  | group (commands : List Tree)
  | subshell (line : Nat) (commands : List Tree) (redirections : List Redirection)
  | background (line : Nat) (command : Tree)
  | redirected (line : Nat) (command : Tree) (redirections : List Redirection)
  | conditional (condition yes no : List Tree)
  | loop (condition body : List Tree) (wanted : Bool)
  | each (line : Nat) (name : String) (words : Option (List (List Part))) (body : List Tree)
  | choice (line : Nat) (subject : List Part) (branches : List (List (List Part) × List Tree))
  | definition (line : Nat) (name : String) (body : Tree)

end

/-- A word: parts with nothing between them. -/
abbrev Word := List Part

deriving instance Inhabited for Part
deriving instance Inhabited for Operation
deriving instance Inhabited for Redirection
deriving instance Inhabited for Tree

namespace Word

/-- The text of a word that is written without quotes and substitutions. -/
def plain? : Word → Option String
  | [] => some ""
  | [.text text false] => some text
  | _ => none

end Word

end DeviceLab.Shell
