namespace DeviceLab.Shell

abbrev Marked := Char × Bool

def classOf? (name : String) : Option (Char → Bool) :=
  let isGraph (c : Char) : Bool := 0x21 ≤ c.toNat && c.toNat ≤ 0x7E
  match name with
  | "alpha" => some Char.isAlpha
  | "digit" => some Char.isDigit
  | "alnum" => some Char.isAlphanum
  | "upper" => some Char.isUpper
  | "lower" => some Char.isLower
  | "space" => some fun c => c == ' ' || (0x09 ≤ c.toNat && c.toNat ≤ 0x0D)
  | "blank" => some fun c => c == ' ' || c == '\t'
  | "punct" => some fun c => isGraph c && !c.isAlphanum
  | "cntrl" => some fun c => c.toNat < 0x20 || c.toNat == 0x7F
  | "graph" => some isGraph
  | "print" => some fun c => c == ' ' || isGraph c
  | "xdigit" => some fun c => c.isDigit || ('a' ≤ c && c ≤ 'f') || ('A' ≤ c && c ≤ 'F')
  | _ => none

/-- A member of a set in brackets. -/
inductive SetMember
  | range (first last : Char)
  | named (name : String)
  deriving Repr, DecidableEq, Inhabited

def SetMember.holds (c : Char) : SetMember → Bool
  | .range first last => first ≤ c && c ≤ last
  | .named name => (classOf? name).any (· c)

/-- A piece of a pattern. -/
inductive PatternItem
  | many
  | one
  | exactly (c : Char)
  | set (negated : Bool) (members : List SetMember)
  deriving Repr, DecidableEq, Inhabited

abbrev Pattern := List PatternItem

/-- The name of a class up to its closing `:]`. -/
def readClassName (acc : List Char) : List Marked → Option (String × List Marked)
  | (':', false) :: (']', false) :: rest => some (String.ofList acc.reverse, rest)
  | (c, _) :: rest => if c.isLower then readClassName (c :: acc) rest else none
  | [] => none

/-- The members of a set up to its closing bracket; `first` says that none has been read. -/
def readMembers : Nat → Bool → List Marked → Option (List SetMember × List Marked)
  | 0, _, _ => none
  | _, _, [] => none
  | fuel + 1, first, (c, quoted) :: rest =>
    let next (member : SetMember) (rest : List Marked) : Option (List SetMember × List Marked) :=
      (readMembers fuel false rest).map fun (members, rest) => (member :: members, rest)
    if c = ']' ∧ !quoted ∧ !first then some ([], rest)
    else
      let named : Option (String × List Marked) :=
        match c, quoted, rest with
        | '[', false, (':', false) :: more => readClassName [] more
        | _, _, _ => none
      match named, rest with
      | some (name, rest), _ => next (.named name) rest
      | none, ('-', false) :: (last, lastQuoted) :: more =>
        if last = ']' ∧ !lastQuoted then next (.range c c) rest else next (.range c last) more
      | none, rest => next (.range c c) rest

namespace Pattern

/-- The pattern that marked characters write, in at most `fuel` pieces. -/
def read : Nat → List Marked → Pattern
  | 0, _ => []
  | _, [] => []
  | fuel + 1, (c, quoted) :: rest =>
    if quoted then .exactly c :: read fuel rest
    else match c with
      | '*' => .many :: read fuel rest
      | '?' => .one :: read fuel rest
      | '[' =>
        let (negated, inside) := match rest with
          | ('!', false) :: more | ('^', false) :: more => (true, more)
          | _ => (false, rest)
        match readMembers (inside.length + 1) true inside with
        | some (members, rest) => .set negated members :: read fuel rest
        | none => .exactly '[' :: read fuel rest
      | c => .exactly c :: read fuel rest

def ofMarked (cs : List Marked) : Pattern :=
  read cs.length cs

def fits : Pattern → List Char → Bool
  | [], cs => cs.isEmpty
  | .many :: pattern, [] => fits pattern []
  | .many :: pattern, c :: cs => fits pattern (c :: cs) || fits (.many :: pattern) cs
  | .one :: pattern, _ :: cs => fits pattern cs
  | .exactly p :: pattern, c :: cs => p == c && fits pattern cs
  | .set negated members :: pattern, c :: cs =>
    (members.any (SetMember.holds c) != negated) && fits pattern cs
  | _ :: _, [] => false
termination_by pattern cs => pattern.length + cs.length

def isOpen (pattern : Pattern) : Bool :=
  pattern.any fun item => match item with
    | .exactly _ => false
    | .many | .one | .set .. => true

/-- The first of some lengths at which the front of a text matches a pattern. -/
def frontLength? (pattern : Pattern) (cs : List Char) (lengths : List Nat) : Option Nat :=
  lengths.find? fun n => pattern.fits (cs.take n)

/-- A text without the shortest or longest front that matches. -/
def cutFront (pattern : Pattern) (longest : Bool) (cs : List Char) : List Char :=
  let lengths := List.range (cs.length + 1)
  match pattern.frontLength? cs (if longest then lengths.reverse else lengths) with
  | some n => cs.drop n
  | none => cs

/-- A text without the shortest or longest back that matches. -/
def cutBack (pattern : Pattern) (longest : Bool) (cs : List Char) : List Char :=
  let lengths := List.range (cs.length + 1)
  let lengths := if longest then lengths else lengths.reverse
  match lengths.find? fun n => pattern.fits (cs.drop n) with
  | some n => cs.take n
  | none => cs

end Pattern

end DeviceLab.Shell
