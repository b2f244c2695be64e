import DeviceLab.CommandFile.Fault
import DeviceLab.Text.Blank

namespace DeviceLab.CommandFile

open Text

/-- Where a reader of a line stands. -/
inductive TokenState
  | between
  | word
  | quoted (mark : Char)
  deriving Repr, DecidableEq

/-- The tokens of what remains of a line, given the current token in reverse. -/
def tokensFrom (state : TokenState) (current : List Char) :
    List Char → Except LineFault (List String)
  | [] =>
    match state with
    | .between => .ok []
    | .word => .ok [String.ofList current.reverse]
    | .quoted _ => .error .unterminatedQuote
  | c :: cs =>
    match state with
    | .quoted mark =>
      if c = mark then tokensFrom .word current cs
      else if c = '\\' ∧ mark = '"' then
        match cs with
        | [] => .error .unterminatedQuote
        | escaped :: cs => tokensFrom state (escaped :: current) cs
      else tokensFrom state (c :: current) cs
    | .between | .word =>
      if isBlank c then
        match state with
        | .word => (tokensFrom .between [] cs).map (String.ofList current.reverse :: ·)
        | _ => tokensFrom .between [] cs
      else if c = '#' ∧ state = .between then .ok []
      else if c = '"' ∨ c = '\'' then tokensFrom (.quoted c) current cs
      else if c = '\\' then
        match cs with
        | [] => .ok [String.ofList current.reverse]
        | escaped :: cs => tokensFrom .word (escaped :: current) cs
      else tokensFrom .word (c :: current) cs

def tokens (line : List Char) : Except LineFault (List String) :=
  tokensFrom .between [] line

/-- A text with a backslash before each double quote and each backslash. -/
def escape : List Char → List Char
  | [] => []
  | c :: cs => if c = '"' ∨ c = '\\' then '\\' :: c :: escape cs else c :: escape cs

def quote (token : String) : List Char :=
  '"' :: escape token.toList ++ ['"']

/-- Tokens between double quotes, one space between neighbours. -/
def quoteAll : List String → List Char
  | [] => []
  | [token] => quote token
  | token :: rest => quote token ++ ' ' :: quoteAll rest

end DeviceLab.CommandFile
