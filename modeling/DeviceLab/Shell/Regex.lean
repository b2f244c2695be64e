import DeviceLab.Shell.Arithmetic
import DeviceLab.Shell.Pattern

namespace DeviceLab.Shell

/-- A regular expression. -/
inductive Regex
  | empty
  | char (c : Char)
  | any
  | set (negated : Bool) (members : List SetMember)
  | start
  | finish
  | sequence (first second : Regex)
  | either (first second : Regex)
  | group (number : Nat) (inner : Regex)
  | repeated (inner : Regex) (least : Nat) (most : Option Nat)
  | back (number : Nat)
  deriving Repr, Inhabited

namespace Regex

/-- Where groups have matched, from a place to a place. -/
abbrev Groups := List (Nat × Nat × Nat)

/-- Where a match may end, with its groups. -/
abbrev Ends := List (Nat × Groups)

def distinct (ends : Ends) : Ends :=
  ends.foldr (fun e others => e :: others.filter (·.1 != e.1)) []

/-- The ends of repetitions; `step` tells the ends of one. -/
def repeatedEnds (step : Nat → Groups → Ends) : Nat → Nat → Option Nat → Nat → Groups → Ends
  | 0, least, _, spot, groups => if least = 0 then [(spot, groups)] else []
  | fuel + 1, least, most, spot, groups =>
    let more := if most = some 0 then []
      else (step spot groups).flatMap fun (next, inner) =>
        if next = spot ∧ least = 0 then []
        else repeatedEnds step fuel (least - 1) (most.map (· - 1)) next inner
    distinct (more ++ if least = 0 then [(spot, groups)] else [])

/-- Whether two characters are the same; `fold` says that case does not count. -/
def sameChar (fold : Bool) (a b : Char) : Bool :=
  a == b || (fold && a.toLower == b.toLower)

def inSet (fold negated : Bool) (members : List SetMember) (c : Char) : Bool :=
  let holds (c : Char) : Bool := members.any (SetMember.holds c)
  (holds c || (fold && (holds c.toLower || holds c.toUpper))) != negated

def ends (fold : Bool) (text : Array Char) : Regex → Nat → Groups → Ends
  | .empty, spot, groups => [(spot, groups)]
  | .char c, spot, groups =>
    if (text[spot]?).any (sameChar fold c) then [(spot + 1, groups)] else []
  | .any, spot, groups => if spot < text.size then [(spot + 1, groups)] else []
  | .set negated members, spot, groups =>
    if (text[spot]?).any (inSet fold negated members) then [(spot + 1, groups)] else []
  | .start, spot, groups => if spot = 0 then [(spot, groups)] else []
  | .finish, spot, groups => if spot = text.size then [(spot, groups)] else []
  | .sequence first second, spot, groups =>
    distinct ((ends fold text first spot groups).flatMap fun (next, inner) =>
      ends fold text second next inner)
  | .either first second, spot, groups =>
    distinct (ends fold text first spot groups ++ ends fold text second spot groups)
  | .group number inner, spot, groups =>
    (ends fold text inner spot groups).map fun (next, groups) =>
      (next, (number, spot, next) :: groups.filter (·.1 != number))
  | .repeated inner least most, spot, groups =>
    repeatedEnds (ends fold text inner) (text.size + least + 1) least most spot groups
  | .back number, spot, groups =>
    match groups.lookup number with
    | none => []
    | some (first, last) =>
      let wanted := text.extract first last
      if text.extract spot (spot + wanted.size) == wanted then [(spot + wanted.size, groups)] else []

/-- A match: where it begins and ends, and its groups. -/
structure Match where
  first : Nat
  last : Nat
  groups : Groups := []
  deriving Repr, DecidableEq, Inhabited

def matchAt? (r : Regex) (fold : Bool) (text : Array Char) (spot : Nat) : Option Match :=
  (r.ends fold text spot []).foldl (fun best (last, groups) =>
    if best.any fun m => last ≤ m.last then best else some { first := spot, last, groups }) none

def match? (r : Regex) (fold : Bool) (text : Array Char) (spot : Nat) : Option Match :=
  (List.range (text.size + 1 - spot)).findSome? fun n => r.matchAt? fold text (spot + n)

/-- The text of a group of a match; number 0 is the whole match. -/
def Match.text (m : Match) (text : Array Char) (number : Nat) : String :=
  if number = 0 then String.ofList (text.extract m.first m.last).toList
  else match m.groups.lookup number with
    | some (first, last) => String.ofList (text.extract first last).toList
    | none => ""

/-- A token of a regular expression. -/
inductive Piece
  | atom (r : Regex)
  | opening
  | closing
  | bar
  | times (least : Nat) (most : Option Nat)
  deriving Repr, Inhabited

def wordSet : List SetMember :=
  [.named "alnum", .range '_' '_']

/-- What stands after a backslash where it does not only take the meaning of a character away. -/
def escapedPiece? (extended : Bool) (c : Char) : Option Piece :=
  match c with
  | 'w' => some (.atom (.set false wordSet))
  | 'W' => some (.atom (.set true wordSet))
  | 's' => some (.atom (.set false [.named "space"]))
  | 'S' => some (.atom (.set true [.named "space"]))
  | c =>
    if c.isDigit && c != '0' then some (.atom (.back (c.toNat - '0'.toNat)))
    else if extended then none
    else match c with
      | '(' => some .opening
      | ')' => some .closing
      | '|' => some .bar
      | '+' => some (.times 1 none)
      | '?' => some (.times 0 (some 1))
      | _ => none

/-- The bounds of a repetition, up to the closing brace, and what stands after it. -/
def readBounds? (extended : Bool) (cs : List Char) : Option (Piece × List Char) :=
  let low := cs.takeWhile Char.isDigit
  let rest := cs.drop low.length
  let (comma, rest) := match rest with
    | ',' :: rest => (true, rest)
    | rest => (false, rest)
  let high := if comma then rest.takeWhile Char.isDigit else []
  let rest := rest.drop high.length
  let least := ofDigits 10 low
  let most := if !comma then some least else if high.isEmpty then none else some (ofDigits 10 high)
  let closed := match extended, rest with
    | true, '\x7d' :: rest => some rest
    | false, '\\' :: '\x7d' :: rest => some rest
    | _, _ => none
  if low.isEmpty && !comma then none else closed.map fun rest => (.times least most, rest)

/-- The tokens of a regular expression; `fresh` says that one begins, where some signs are no
signs. -/
def pieces (extended : Bool) : Nat → Bool → List Char → Except String (List Piece)
  | 0, _, _ => .ok []
  | _, _, [] => .ok []
  | fuel + 1, fresh, c :: cs => do
    let next (piece : Piece) (fresh : Bool) (rest : List Char) : Except String (List Piece) := do
      return piece :: (← pieces extended fuel fresh rest)
    let plain (c : Char) (rest : List Char) : Except String (List Piece) :=
      next (.atom (.char c)) false rest
    match c, cs with
    | '\\', [] => .error "Trailing backslash"
    | '\\', '\x7b' :: rest =>
      if extended then plain '\x7b' rest
      else match readBounds? false rest with
        | some (piece, rest) => next piece false rest
        | none => .error "Invalid content of \\\x7b\\\x7d"
    | '\\', e :: rest =>
      match escapedPiece? extended e with
      | some .opening => next .opening true rest
      | some .bar => next .bar true rest
      | some piece => next piece false rest
      | none => plain e rest
    | '[', rest =>
      let (negated, inside) := match rest with
        | '^' :: more => (true, more)
        | rest => (false, rest)
      match readMembers (inside.length + 1) true (inside.map fun c => (c, false)) with
      | some (members, after) => next (.atom (.set negated members)) false (after.map (·.1))
      | none => .error "Unmatched [, [^, [:, [., or [="
    | '.', rest => next (.atom .any) false rest
    | '*', rest => if fresh then plain '*' rest else next (.times 0 none) false rest
    | '^', rest => if extended || fresh then next (.atom .start) true rest else plain '^' rest
    | '$', rest =>
      let ends := match rest with
        | [] | '\\' :: ')' :: _ | '\\' :: '|' :: _ => true
        | _ => false
      if extended || ends then next (.atom .finish) false rest else plain '$' rest
    | c, rest =>
      if !extended then plain c rest
      else match c with
        | '(' => next .opening true rest
        | ')' => next .closing false rest
        | '|' => next .bar true rest
        | '+' => if fresh then plain c rest else next (.times 1 none) false rest
        | '?' => if fresh then plain c rest else next (.times 0 (some 1)) false rest
        | '\x7b' =>
          match readBounds? true rest with
          | some (piece, after) => if fresh then plain c rest else next piece false after
          | none => plain c rest
        | c => plain c rest

def followedBy (first second : Regex) : Regex :=
  match first with
  | .empty => second
  | first => .sequence first second

/-- Read alternatives: `done` are those before, `branch` is the one at work without its last atom.
The answer is the expression, the tokens after it, and how many groups have been begun. -/
def readAlternatives : Nat → Nat → Nat → Option Regex → Regex → Option Regex → List Piece →
    Except String (Regex × List Piece × Nat)
  | 0, _, _, _, _, _, _ => .error "Regular expression too big"
  | fuel + 1, depth, count, done, branch, last, tokens => do
    let whole := match last with
      | some r => followedBy branch r
      | none => branch
    let all := match done with
      | some d => Regex.either d whole
      | none => whole
    match tokens with
    | [] => if depth = 0 then return (all, [], count) else .error "Unmatched ( or \\("
    | .closing :: rest =>
      if depth = 0 then .error "Unmatched ) or \\)" else return (all, rest, count)
    | .bar :: rest => readAlternatives fuel depth count (some all) .empty none rest
    | .opening :: rest =>
      let (inner, rest, after) ← readAlternatives fuel (depth + 1) (count + 1) none .empty none rest
      readAlternatives fuel depth after done whole (some (.group (count + 1) inner)) rest
    | .atom r :: rest => readAlternatives fuel depth count done whole (some r) rest
    | .times least most :: rest =>
      match last with
      | some r => readAlternatives fuel depth count done branch (some (.repeated r least most)) rest
      | none => readAlternatives fuel depth count done branch none rest

/-- The largest number of a group that an expression refers to. -/
def largestBack : Regex → Nat
  | .back number => number
  | .sequence a b | .either a b => max a.largestBack b.largestBack
  | .group _ r | .repeated r _ _ => r.largestBack
  | _ => 0

/-- The regular expression that a text writes; else what is wrong with it. -/
def ofText (extended : Bool) (text : String) : Except String Regex := do
  let tokens ← pieces extended (text.length + 1) true text.toList
  let (r, _, count) ← readAlternatives (2 * tokens.length + 2) 0 0 none .empty none tokens
  if r.largestBack > count then .error "Invalid back reference" else return r

end Regex

end DeviceLab.Shell
