import DeviceLab.Shell.Regex
import DeviceLab.Shell.Tool.Basic

namespace DeviceLab.Shell.Tool

open Text

/-- Why an expression has no value. -/
inductive ExpressionFault
  | notInteger
  | zeroDivisor
  | unexpected (arg : String)
  | missing (after : String)
  | unclosed (after : String)
  | closedBy (arg : String)
  | regex (detail : String)
  deriving Repr, DecidableEq

def ExpressionFault.message : ExpressionFault → String
  | .notInteger => "non-integer argument"
  | .zeroDivisor => "division by zero"
  | .unexpected arg => s!"syntax error: unexpected argument {quoted arg}"
  | .missing after => s!"syntax error: missing argument after {quoted after}"
  | .unclosed after => s!"syntax error: expecting ')' after {quoted after}"
  | .closedBy arg => s!"syntax error: expecting ')' instead of {quoted arg}"
  | .regex detail => detail

namespace Expression

/-- An answer: a value, the argument read last, and the arguments to come. -/
abbrev Answer := Except ExpressionFault (String × String × List String)

def integer? (text : String) : Option Int :=
  let (negative, digits) := match text.toList with
    | '-' :: digits => (true, digits)
    | digits => (false, digits)
  if digits.isEmpty || !digits.all Char.isDigit then none
  else
    let n := Int.ofNat (ofDigits 10 digits)
    some (if negative then -n else n)

def isNull (value : String) : Bool :=
  value.isEmpty || integer? value == some 0

def truth (holds : Bool) : String :=
  if holds then "1" else "0"

def compare (operator a b : String) : String :=
  let answer (less equal : Bool) : Bool :=
    match operator with
    | "<" => less
    | "<=" => less || equal
    | "=" | "==" => equal
    | "!=" => !equal
    | ">=" => !less
    | _ => !less && !equal
  match integer? a, integer? b with
  | some m, some n => truth (answer (m < n) (m = n))
  | _, _ => truth (answer (a < b) (a == b))

def arithmetic (operator a b : String) : Except ExpressionFault String :=
  match integer? a, integer? b with
  | some m, some n =>
    match operator with
    | "+" => .ok (toString (m + n))
    | "-" => .ok (toString (m - n))
    | "*" => .ok (toString (m * n))
    | operator =>
      if n = 0 then .error .zeroDivisor
      else .ok (toString (if operator = "/" then m.tdiv n else m.tmod n))
  | _, _ => .error .notInteger

/-- What a regular expression finds at the start of a text: its first group, or else a length. -/
def matched (text pattern : String) : Except ExpressionFault String :=
  match Regex.ofText false pattern with
  | .error detail => .error (.regex detail)
  | .ok r =>
    let cs := text.toList.toArray
    let grouped := (Regex.pieces false (pattern.length + 1) true pattern.toList).toOption.any fun ps =>
      ps.any (· matches .opening)
    match r.matchAt? false cs 0 with
    | some m => .ok (if grouped then m.text cs 1 else toString m.last)
    | none => .ok (if grouped then "" else "0")

/-- The operators of a level that are worked off from left to right. -/
def operatorsOf : Nat → List String
  | 0 => ["|"]
  | 1 => ["&"]
  | 2 => ["<", "<=", "=", "==", "!=", ">=", ">"]
  | 3 => ["+", "-"]
  | 4 => ["*", "/", "%"]
  | _ => [":"]

def apply (works : Bool) (operator a b : String) : Except ExpressionFault String :=
  match operator with
  | "|" => .ok (if !isNull a then a else if isNull b then "0" else b)
  | "&" => .ok (if isNull a || isNull b then "0" else a)
  | ":" => if works then matched a b else .ok "0"
  | operator =>
    if ["+", "-", "*", "/", "%"].contains operator then
      if works then arithmetic operator a b else .ok "0"
    else .ok (compare operator a b)

mutual

/-- The value of an expression from a level on; `works` says whether it is worked out. -/
def level (works : Bool) : Nat → Nat → String → List String → Answer
  | 0, _, last, _ => .error (.missing last)
  | fuel + 1, n, last, args => do
    if n > 5 then function works fuel last args
    else
      let (value, last, args) ← level works fuel (n + 1) last args
      join works fuel n value last args

/-- The value of an expression whose first operand has been read. -/
def join (works : Bool) : Nat → Nat → String → String → List String → Answer
  | 0, _, value, last, args => .ok (value, last, args)
  | fuel + 1, n, value, last, args =>
    match args with
    | operator :: rest =>
      if !(operatorsOf n).contains operator then .ok (value, last, args)
      else do
        let worksRight := works && !(operator == "|" && !isNull value) &&
          !(operator == "&" && isNull value)
        let (right, last, rest) ← level worksRight fuel (n + 1) operator rest
        let value ← apply works operator value right
        join works fuel n value last rest
    | [] => .ok (value, last, args)

def function (works : Bool) : Nat → String → List String → Answer
  | 0, last, _ => .error (.missing last)
  | fuel + 1, last, args => do
    match args with
    | "+" :: rest =>
      match rest with
      | [] => .error (.missing "+")
      | token :: rest => return (token, token, rest)
    | "length" :: rest =>
      let (text, last, rest) ← function works fuel "length" rest
      return (toString text.length, last, rest)
    | "match" :: rest =>
      let (text, last, rest) ← function works fuel "match" rest
      let (pattern, last, rest) ← function works fuel last rest
      return (← (if works then matched text pattern else .ok "0"), last, rest)
    | "index" :: rest =>
      let (text, last, rest) ← function works fuel "index" rest
      let (set, last, rest) ← function works fuel last rest
      let spot := text.toList.findIdx? set.toList.contains
      return (toString ((spot.map (· + 1)).getD 0), last, rest)
    | "substr" :: rest =>
      let (text, last, rest) ← function works fuel "substr" rest
      let (start, last, rest) ← function works fuel last rest
      let (size, last, rest) ← function works fuel last rest
      match integer? start, integer? size with
      | some s, some n =>
        let piece := if s ≤ 0 ∨ n ≤ 0 then []
          else (text.toList.drop (s.toNat - 1)).take n.toNat
        return (String.ofList piece, last, rest)
      | _, _ => return ("", last, rest)
    | args => operand works fuel last args

def operand (works : Bool) : Nat → String → List String → Answer
  | 0, last, _ => .error (.missing last)
  | fuel + 1, last, args => do
    match args with
    | [] => .error (.missing last)
    | "(" :: rest =>
      let (value, last, rest) ← level works fuel 0 "(" rest
      match rest with
      | ")" :: rest => return (value, ")", rest)
      | [] => .error (.unclosed last)
      | arg :: _ => .error (.closedBy arg)
    | ")" :: _ => .error (.unexpected ")")
    | token :: rest => return (token, token, rest)

end

def valueOf (args : List String) : Except ExpressionFault String := do
  let (value, _, rest) ← level true (16 * args.length + 16) 0 "" args
  match rest with
  | [] => return value
  | arg :: _ => .error (.unexpected arg)

end Expression

/-- The value of an expression; the status says whether it counts as something. -/
def expr (args : List String) : Tool Nat := do
  let args := match args with
    | "--" :: rest => rest
    | args => args
  if args.isEmpty then misused 2 "missing operand"
  match Expression.valueOf args with
  | .ok value =>
    put (value ++ "\n")
    return if Expression.isNull value then 1 else 0
  | .error fault => quit 2 fault.message

end DeviceLab.Shell.Tool
