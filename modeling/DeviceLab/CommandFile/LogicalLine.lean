import DeviceLab.CommandFile.Token
import DeviceLab.Text.Line

/-!
Logical lines of a command file.

A physical line that ends in a backslash, blanks after it aside, goes on in the next one, with a
space in the place of the backslash.  A logical line has the number of its first physical line;
those without a token are dropped.
-/

namespace DeviceLab.CommandFile

open Text

/-- The tokens of a logical line, and the number of its first physical line. -/
structure LogicalLine where
  number : Nat
  tokens : List String
  deriving Repr, DecidableEq

def beforeContinuation? (line : List Char) : Option (List Char) :=
  if line.getLast? = some '\\' then some line.dropLast else none

/-- Physical lines joined to logical ones.  `pending` is what continued lines left, and `start` the
number of the first of them; the next physical line has the number `index`. -/
def joinFrom (start : Nat) (pending : List Char) (index : Nat) :
    List (List Char) → List (Nat × List Char)
  | [] => if pending.isEmpty then [] else [(start, pending)]
  | line :: rest =>
    let start := if pending.isEmpty then index else start
    let line := trimEnd line
    match beforeContinuation? line with
    | some head => joinFrom start (pending ++ head ++ [' ']) (index + 1) rest
    | none => (start, pending ++ line) :: joinFrom start [] (index + 1) rest

/-- Logical lines as text, each with its number. -/
def joined (text : List Char) : List (Nat × List Char) :=
  joinFrom 0 [] 1 (lines text)

/-- The tokens of numbered lines; the first line that cannot be read decides. -/
def tokenizeAll : List (Nat × List Char) → Except Fault (List LogicalLine)
  | [] => .ok []
  | (number, line) :: rest =>
    match tokens line with
    | .error fault => .error (.atLine number fault)
    | .ok found => do
      let after ← tokenizeAll rest
      return if found.isEmpty then after else ⟨number, found⟩ :: after

def logicalLines (text : List Char) : Except Fault (List LogicalLine) :=
  tokenizeAll (joined text)

end DeviceLab.CommandFile
