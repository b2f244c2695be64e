import DeviceLab.Shell.Reader
import DeviceLab.Shell.State
import DeviceLab.Text.Numeral

namespace DeviceLab.Shell

/-- An operator between two values. -/
inductive Binary
  | multiply
  | divide
  | remainder
  | add
  | subtract
  | shiftLeft
  | shiftRight
  | less
  | lessEqual
  | greater
  | greaterEqual
  | equal
  | different
  | bitAnd
  | bitXor
  | bitOr
  deriving Repr, DecidableEq, Inhabited

/-- An operator before a value. -/
inductive Unary
  | plus
  | minus
  | not
  | complement
  deriving Repr, DecidableEq, Inhabited

/-- An arithmetic expression. -/
inductive Formula
  | number (n : Int)
  | variable (name : String)
  | unary (operator : Unary) (operand : Formula)
  | binary (operator : Binary) (left right : Formula)
  | both (left right : Formula)
  | either (left right : Formula)
  | choice (condition yes no : Formula)
  | assign (name : String) (operator : Option Binary) (operand : Formula)
  deriving Repr, Inhabited

def wordSize : Nat := 18446744073709551616

/-- The number of 64 bits that a whole number wraps around to. -/
def wrap (n : Int) : Int :=
  n.bmod wordSize

def clamp (n : Int) : Int :=
  max (-(Int.ofNat Text.maxInteger64) - 1) (min (Int.ofNat Text.maxInteger64) n)

/-- The value of a digit, up to base sixteen. -/
def digitValue? (c : Char) : Option Nat :=
  if c.isDigit then some (c.toNat - '0'.toNat)
  else if 'a' ≤ c ∧ c ≤ 'f' then some (c.toNat - 'a'.toNat + 10)
  else if 'A' ≤ c ∧ c ≤ 'F' then some (c.toNat - 'A'.toNat + 10)
  else none

def digitsOf (base : Nat) (cs : List Char) : List Char :=
  cs.takeWhile fun c => (digitValue? c).any (· < base)

def ofDigits (base : Nat) (digits : List Char) : Nat :=
  digits.foldl (fun n c => n * base + (digitValue? c).getD 0) 0

/-- The number at the start of a text, decimal, octal or hexadecimal by how it begins, and what
stands after it. -/
def readLiteral (cs : List Char) : Nat × List Char :=
  let read (base : Nat) (cs : List Char) : Nat × List Char :=
    let digits := digitsOf base cs
    (ofDigits base digits, cs.drop digits.length)
  match cs with
  | '0' :: x :: rest =>
    if (x = 'x' ∨ x = 'X') ∧ !(digitsOf 16 rest).isEmpty then read 16 rest else read 8 cs
  | '0' :: _ => read 8 cs
  | _ => read 10 cs

/-- The number at the start of a text with white space and a sign before it, and what stands after
it; where there is no number, the whole text stands after it. -/
def readSigned (cs : List Char) : Int × List Char :=
  let start := cs.dropWhile fun c => c == ' ' || (0x09 ≤ c.toNat && c.toNat ≤ 0x0D)
  let (negative, digits) := match start with
    | '-' :: rest => (true, rest)
    | '+' :: rest => (false, rest)
    | rest => (false, rest)
  if digits.head?.any Char.isDigit then
    let (n, rest) := readLiteral digits
    (if negative then -(Int.ofNat n) else Int.ofNat n, rest)
  else (0, cs)

namespace Formula

/-- An expression that has been read and what stands after it, or what is wrong with the text. -/
abbrev Reading := Except String (Formula × List Char)

def skip (cs : List Char) : List Char :=
  cs.dropWhile fun c => c == ' ' || c == '\t' || c == '\n'

/-- The operators of each level, those that bind least first, with longer ones first in a level. -/
def levels : List (List (List Char × Binary)) :=
  [[(['|'], .bitOr)], [(['^'], .bitXor)], [(['&'], .bitAnd)],
    [(['=', '='], .equal), (['!', '='], .different)],
    [(['<', '='], .lessEqual), (['>', '='], .greaterEqual), (['<'], .less), (['>'], .greater)],
    [(['<', '<'], .shiftLeft), (['>', '>'], .shiftRight)],
    [(['+'], .add), (['-'], .subtract)],
    [(['*'], .multiply), (['/'], .divide), (['%'], .remainder)]]

/-- The signs of all operators, longer ones first. -/
def signs : List (List Char) :=
  [['<', '<', '='], ['>', '>', '='], ['&', '&'], ['|', '|'], ['=', '='], ['!', '='], ['<', '='],
    ['>', '='], ['<', '<'], ['>', '>'], ['*', '='], ['/', '='], ['%', '='], ['+', '='], ['-', '='],
    ['&', '='], ['^', '='], ['|', '='], ['<'], ['>'], ['='], ['*'], ['/'], ['%'], ['+'], ['-'], ['&'],
    ['^'], ['|'], ['!'], ['~'], ['?'], [':'], ['('], [')']]

/-- The sign at the start of a text, and what stands after it. -/
def sign? (cs : List Char) : Option (List Char × List Char) :=
  let cs := skip cs
  (signs.find? (·.isPrefixOf cs)).map fun sign => (sign, cs.drop sign.length)

/-- What stands after a sign, if that is the next one. -/
def after? (sign : List Char) (cs : List Char) : Option (List Char) :=
  match sign? cs with
  | some (found, rest) => if found = sign then some rest else none
  | none => none

/-- The operators that assign, with what they do to the old value first. -/
def assigners : List (List Char × Option Binary) :=
  [(['='], none), (['*', '='], some .multiply), (['/', '='], some .divide),
    (['%', '='], some .remainder), (['+', '='], some .add), (['-', '='], some .subtract),
    (['<', '<', '='], some .shiftLeft), (['>', '>', '='], some .shiftRight),
    (['&', '='], some .bitAnd), (['^', '='], some .bitXor), (['|', '='], some .bitOr)]

mutual

/-- An expression, which may be an assignment. -/
def readAssignment : Nat → List Char → Reading
  | 0, _ => .error "expecting primary"
  | fuel + 1, cs => do
    let start := skip cs
    let name := if start.head?.any beginsName then start.takeWhile inName else []
    let assigner := match sign? (start.drop name.length) with
      | some (sign, rest) => (assigners.lookup sign).map fun operator => (operator, rest)
      | none => none
    match name, assigner with
    | _ :: _, some (operator, rest) =>
      let (operand, rest) ← readAssignment fuel rest
      return (.assign (String.ofList name) operator operand, rest)
    | _, _ => readChoice fuel cs

/-- An expression with a condition, or one without. -/
def readChoice : Nat → List Char → Reading
  | 0, _ => .error "expecting primary"
  | fuel + 1, cs => do
    let (condition, rest) ← readEither fuel cs
    match after? ['?'] rest with
    | none => return (condition, rest)
    | some rest =>
      let (yes, rest) ← readAssignment fuel rest
      match after? [':'] rest with
      | none => .error "expecting ':'"
      | some rest =>
        let (no, rest) ← readChoice fuel rest
        return (.choice condition yes no, rest)

/-- Expressions joined by `||`. -/
def readEither : Nat → List Char → Reading
  | 0, _ => .error "expecting primary"
  | fuel + 1, cs => do
    let (left, rest) ← readBoth fuel cs
    match after? ['|', '|'] rest with
    | none => return (left, rest)
    | some rest =>
      let (right, rest) ← readEither fuel rest
      return (.either left right, rest)

/-- Expressions joined by `&&`. -/
def readBoth : Nat → List Char → Reading
  | 0, _ => .error "expecting primary"
  | fuel + 1, cs => do
    let (left, rest) ← readLevel fuel levels cs
    match after? ['&', '&'] rest with
    | none => return (left, rest)
    | some rest =>
      let (right, rest) ← readBoth fuel rest
      return (.both left right, rest)

/-- Expressions joined by the operators of a level and of those that bind more. -/
def readLevel : Nat → List (List (List Char × Binary)) → List Char → Reading
  | 0, _, _ => .error "expecting primary"
  | fuel + 1, [], cs => readUnary fuel cs
  | fuel + 1, operators :: more, cs => do
    let (left, rest) ← readLevel fuel more cs
    joinLevel fuel operators more left rest

/-- An expression with what the operators of a level join to it. -/
def joinLevel : Nat → List (List Char × Binary) → List (List (List Char × Binary)) → Formula →
    List Char → Reading
  | 0, _, _, _, _ => .error "expecting primary"
  | fuel + 1, operators, more, left, cs => do
    let found := match sign? cs with
      | some (sign, rest) => (operators.lookup sign).map fun operator => (operator, rest)
      | none => none
    match found with
    | none => return (left, cs)
    | some (operator, rest) =>
      let (right, rest) ← readLevel fuel more rest
      joinLevel fuel operators more (.binary operator left right) rest

/-- A value, perhaps with operators before it. -/
def readUnary : Nat → List Char → Reading
  | 0, _ => .error "expecting primary"
  | fuel + 1, cs => do
    let before (operator : Unary) (rest : List Char) : Reading := do
      let (operand, rest) ← readUnary fuel rest
      return (.unary operator operand, rest)
    match sign? cs with
    | some (['+'], rest) => before .plus rest
    | some (['-'], rest) => before .minus rest
    | some (['!'], rest) => before .not rest
    | some (['~'], rest) => before .complement rest
    | some (['('], rest) =>
      let (inside, rest) ← readAssignment fuel rest
      match after? [')'] rest with
      | some rest => return (inside, rest)
      | none => .error "expecting ')'"
    | some _ => .error "expecting primary"
    | none =>
      let start := skip cs
      match start with
      | c :: _ =>
        if c.isDigit then
          let (n, rest) := readLiteral start
          return (.number (clamp (Int.ofNat n)), rest)
        else if beginsName c then
          let name := start.takeWhile inName
          return (.variable (String.ofList name), start.drop name.length)
        else .error "expecting primary"
      | [] => .error "expecting primary"

end

/-- The expression that a text is; an empty text stands for zero. -/
def ofText (text : String) : Except String Formula := do
  let cs := skip text.toList
  if cs.isEmpty then return .number 0
  let (formula, rest) ← readAssignment (32 * cs.length + 32) cs
  if (skip rest).isEmpty then return formula else .error "expecting EOF"

end Formula

def ofTruth (holds : Bool) : Int :=
  if holds then 1 else 0

def onWords (f : Nat → Nat → Nat) (a b : Int) : Int :=
  wrap (Int.ofNat (f (a.emod wordSize).toNat (b.emod wordSize).toNat))

/-- The value of an operator; `none` for a division by zero. -/
def Binary.apply? (operator : Binary) (a b : Int) : Option Int :=
  match operator with
  | .multiply => some (wrap (a * b))
  | .divide => if b = 0 then none else some (wrap (a.tdiv b))
  | .remainder => if b = 0 then none else some (a.tmod b)
  | .add => some (wrap (a + b))
  | .subtract => some (wrap (a - b))
  | .shiftLeft => some (wrap (a * Int.ofNat (Nat.pow 2 (b.emod 64).toNat)))
  | .shiftRight => some (a.fdiv (Int.ofNat (Nat.pow 2 (b.emod 64).toNat)))
  | .less => some (ofTruth (a < b))
  | .lessEqual => some (ofTruth (a ≤ b))
  | .greater => some (ofTruth (a > b))
  | .greaterEqual => some (ofTruth (a ≥ b))
  | .equal => some (ofTruth (a == b))
  | .different => some (ofTruth (a != b))
  | .bitAnd => some (onWords Nat.land a b)
  | .bitXor => some (onWords Nat.xor a b)
  | .bitOr => some (onWords Nat.lor a b)

def Unary.apply (operator : Unary) (a : Int) : Int :=
  match operator with
  | .plus => a
  | .minus => wrap (-a)
  | .not => ofTruth (a == 0)
  | .complement => -a - 1

/-- The number that a text has to be as a whole; white space may stand around it. -/
def wholeNumber (text : String) : Act Int := do
  let (n, rest) := readSigned text.toList
  let rest := rest.dropWhile fun c => c == ' ' || (0x09 ≤ c.toNat && c.toNat ≤ 0x0D)
  if rest.isEmpty then return clamp n else refuse s!"Illegal number: {text}"

def Formula.value (text : String) : Formula → Act Int
  | .number n => return n
  | .variable name => do
    match (← Act.process).valueOf? name with
    | some value => wholeNumber value
    | none => return 0
  | .unary operator operand => return operator.apply (← operand.value text)
  | .binary operator left right => do
    let a ← left.value text
    let b ← right.value text
    combine operator a b
  | .both left right => do
    if (← left.value text) = 0 then return 0
    return ofTruth ((← right.value text) != 0)
  | .either left right => do
    if (← left.value text) ≠ 0 then return 1
    return ofTruth ((← right.value text) != 0)
  | .choice condition yes no => do
    if (← condition.value text) ≠ 0 then yes.value text else no.value text
  | .assign name operator operand => do
    let value ← match operator with
      | none => operand.value text
      | some operator => do
        let old ← Formula.value text (.variable name)
        let new ← operand.value text
        combine operator old new
    Shell.assign name (toString value) false
    return value
where
  /-- The value of an operator, if it has one. -/
  combine (operator : Binary) (a b : Int) : Act Int :=
    match operator.apply? a b with
    | some n => return n
    | none => refuse s!"arithmetic expression: division by zero: \"{text}\""

def calculate (text : String) : Act Int :=
  match Formula.ofText text with
  | .ok formula => formula.value text
  | .error reason => refuse s!"arithmetic expression: {reason}: \"{text}\""

end DeviceLab.Shell
