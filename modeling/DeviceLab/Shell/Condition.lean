import DeviceLab.Shell.Arithmetic

namespace DeviceLab.Shell

open Text

def unaryTests : List String :=
  ["-r", "-w", "-x", "-e", "-f", "-d", "-c", "-b", "-p", "-u", "-g", "-k", "-s", "-t", "-z", "-n",
    "-h", "-O", "-G", "-L", "-S"]

def binaryTests : List String :=
  ["=", "!=", "<", ">", "-eq", "-ne", "-ge", "-gt", "-le", "-lt", "-nt", "-ot", "-ef"]

/-- The words of a condition. -/
structure Condition where
  words : Array String

namespace Condition

/-- The part that a word plays. -/
inductive Role
  | nothing
  | operand
  | unary
  | binary
  | negation
  | both
  | either
  | opening
  | closing
  deriving Repr, DecidableEq

def roleOf (word : String) : Role :=
  if unaryTests.contains word then .unary
  else if binaryTests.contains word then .binary
  else match word with
    | "!" => .negation
    | "-a" => .both
    | "-o" => .either
    | "(" => .opening
    | ")" => .closing
    | _ => .operand

/-- The part that a word plays where it stands: a word that asks something is an operand where
nothing follows, or where what follows compares it. -/
def role (c : Condition) (spot : Nat) : Role :=
  match c.words[spot]? with
  | none => .nothing
  | some word =>
    let next? := c.words[spot + 1]?
    match roleOf word with
    | .unary =>
      match next?, c.words[spot + 2]? with
      | none, _ => .operand
      | some _, none => .unary
      | some next, some _ => if roleOf next = .binary then .operand else .unary
    | .opening => if next?.isNone then .operand else .opening
    | role => role

def number (text : String) : Act Int := do
  let cs := text.toList
  let isWhite (c : Char) : Bool := c == ' ' || (0x09 ≤ c.toNat && c.toNat ≤ 0x0D)
  let cs := (cs.dropWhile isWhite).reverse.dropWhile isWhite |>.reverse
  let (negative, digits) := match cs with
    | '-' :: rest => (true, rest)
    | '+' :: rest => (false, rest)
    | rest => (false, rest)
  if digits.isEmpty || !digits.all Char.isDigit then refuse s!"Illegal number: {text}"
  else
    let n := Int.ofNat (ofDigits 10 digits)
    return clamp (if negative then -n else n)

def ask (word operand : String) : Act Bool := do
  match word with
  | "-z" => return operand.isEmpty
  | "-n" => return !operand.isEmpty
  | "-t" =>
    let _ ← number operand
    return false
  | _ =>
    match ← nodeAt operand with
    | .error _ => return false
    | .ok (place, node) =>
      match word with
      | "-e" | "-r" | "-w" | "-O" | "-G" => return true
      | "-f" => return node != .directory && node != .sink
      | "-d" => return node == .directory
      | "-c" => return node == .sink
      | "-s" =>
        return match node with
          | .file bytes => !bytes.isEmpty
          | .directory | .program => true
          | .sink => false
      | "-x" => return node == .directory || (← Act.machine).tree.isRunnable place
      | _ => return false

def compare (word left right : String) : Act Bool := do
  let numbers (f : Int → Int → Bool) : Act Bool := do
    let a ← number left
    let b ← number right
    return f a b
  match word with
  | "=" => return left == right
  | "!=" => return left != right
  | "<" => return left < right
  | ">" => return right < left
  | "-eq" => numbers (· == ·)
  | "-ne" => numbers (· != ·)
  | "-ge" => numbers (· ≥ ·)
  | "-gt" => numbers (· > ·)
  | "-le" => numbers (· ≤ ·)
  | "-lt" => numbers (· < ·)
  | "-ef" =>
    match ← nodeAt left, ← nodeAt right with
    | .ok (a, _), .ok (b, _) => return a == b
    | _, _ => return false
  | _ => return false

mutual

/-- The answer to primaries joined by `-o` from a word on, and the last word that has been read. -/
def anyOf (c : Condition) : Nat → Nat → Role → Act (Bool × Nat)
  | 0, spot, _ => return (false, spot)
  | fuel + 1, spot, role => do
    let (first, spot) ← allOf c fuel spot role
    if c.role (spot + 1) = .either then
      let (rest, spot) ← anyOf c fuel (spot + 2) (c.role (spot + 2))
      return (first || rest, spot)
    else return (first, spot)

/-- The answer to primaries joined by `-a`. -/
def allOf (c : Condition) : Nat → Nat → Role → Act (Bool × Nat)
  | 0, spot, _ => return (false, spot)
  | fuel + 1, spot, role => do
    let (first, spot) ← negated c fuel spot role
    if c.role (spot + 1) = .both then
      let (rest, spot) ← allOf c fuel (spot + 2) (c.role (spot + 2))
      return (first && rest, spot)
    else return (first, spot)

/-- The answer to a primary, perhaps negated. -/
def negated (c : Condition) : Nat → Nat → Role → Act (Bool × Nat)
  | 0, spot, _ => return (false, spot)
  | fuel + 1, spot, role => do
    if role ≠ .negation then primary c fuel spot role
    else
      let next := c.role (spot + 1)
      let (holds, spot) ← negated c fuel (if next = .nothing then spot else spot + 1) next
      return (!holds, spot)

def primary (c : Condition) : Nat → Nat → Role → Act (Bool × Nat)
  | 0, spot, _ => return (false, spot)
  | fuel + 1, spot, role => do
    let word := (c.words[spot]?).getD ""
    match role with
    | .nothing => return (false, spot)
    | .opening =>
      let next := c.role (spot + 1)
      if next = .closing then return (false, spot + 1)
      let (holds, spot) ← anyOf c fuel (spot + 1) next
      if c.role (spot + 1) ≠ .closing then refuse "closing paren expected"
      return (holds, spot + 1)
    | .unary =>
      match c.words[spot + 1]? with
      | none => refuse s!"{word}: argument expected"
      | some operand => return (← ask word operand, spot + 1)
    | _ =>
      if c.role (spot + 1) = .binary then
        let operator := (c.words[spot + 1]?).getD ""
        match c.words[spot + 2]? with
        | none => refuse s!"{operator}: argument expected"
        | some right => return (← compare operator word right, spot + 2)
      else return (!word.isEmpty, spot)

end

/-- The answer to a condition whose first word plays a given part. -/
def judge (words : List String) (role : Role) : Act Bool := do
  let c : Condition := ⟨words.toArray⟩
  let (holds, spot) ← anyOf c (4 * words.length + 4) 0 role
  match c.words[spot]?, c.words[spot + 1]? with
  | some word, some _ =>
    if word.isEmpty then refuse "unexpected operator" else refuse s!"{word}: unexpected operator"
  | _, _ => return holds

def holds : Nat → List String → Act Bool
  | 0, _ => return false
  | fuel + 1, words => do
    let role : Role := Condition.role ⟨words.toArray⟩ 0
    let bracketed := words.head? = some "(" && words.getLast? = some ")"
    let inside := words.drop 1 |>.dropLast
    match words with
    | [] => return false
    | [_, middle, _] =>
      if roleOf middle = .binary then judge words .operand
      else if bracketed then judge inside (Condition.role ⟨inside.toArray⟩ 0)
      else if words.head? = some "!" then return !(← holds fuel (words.drop 1))
      else judge words role
    | [_, _, _, _] =>
      if bracketed then judge inside (Condition.role ⟨inside.toArray⟩ 0)
      else if words.head? = some "!" then return !(← holds fuel (words.drop 1))
      else judge words role
    | words => judge words role

end Condition

def testCondition (words : List String) : Act Bool :=
  Condition.holds (words.length + 1) words

end DeviceLab.Shell
