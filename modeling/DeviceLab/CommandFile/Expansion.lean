import DeviceLab.CommandFile.Fault
import DeviceLab.Text.Ordered

/-!
Macros and their expansion.

A token that ends in `()` after a name calls the macro of that name.  The first call of a token list
is replaced by the macro's tokens, and the result is expanded again; a long macro stands for several
token lists and gives one result for each.  Calls may replace one another only up to a depth.
-/

namespace DeviceLab.CommandFile

open Text

/-- The macros known: a short one stands for tokens, a long one for lists of tokens. -/
structure Macros where
  short : Dictionary (List String) := ∅
  long : Dictionary (List (List String)) := ∅
  deriving DecidableEq, Inhabited

def calledName? (token : String) : Option String :=
  let cs := token.toList
  let name := cs.take (cs.length - 2)
  if name.isEmpty then none
  else if cs.drop name.length = ['(', ')'] then some (String.ofList name)
  else none

/-- A token list around its first call. -/
structure CallSite where
  before : List String
  call : String
  name : String
  after : List String
  deriving Repr, DecidableEq

def firstCall? : List String → Option CallSite
  | [] => none
  | token :: rest =>
    match calledName? token with
    | some name => some ⟨[], token, name, rest⟩
    | none => (firstCall? rest).map fun site => { site with before := token :: site.before }

/-- The token list with other tokens in the place of the call. -/
def CallSite.splice (site : CallSite) (tokens : List String) : List String :=
  site.before ++ tokens ++ site.after

/-- Everything that token lists are expanded to, one after the other. -/
def collect {α β ε : Type} (f : α → Except ε (List β)) : List α → Except ε (List β)
  | [] => .ok []
  | a :: rest => do
    let first ← f a
    let others ← collect f rest
    return first ++ others

/-- What a token list is expanded to within a number of levels. -/
def expand (macros : Macros) : Nat → List String → Except LineFault (List (List String))
  | 0, _ => .error .expansionTooDeep
  | levels + 1, tokens =>
    match firstCall? tokens with
    | none => .ok [tokens]
    | some site =>
      match macros.short.get? site.name with
      | some body => expand macros levels (site.splice body)
      | none =>
        match macros.long.get? site.name with
        | some bodies => collect (fun body => expand macros levels (site.splice body)) bodies
        | none => .error (.unknownMacro site.call)

def maxExpansionDepth : Nat := 10

/-- What a token list is expanded to at a depth that has been reached already. -/
def expandAt (macros : Macros) (depth : Nat) (tokens : List String) :
    Except LineFault (List (List String)) :=
  expand macros (maxExpansionDepth + 1 - depth) tokens

end DeviceLab.CommandFile
