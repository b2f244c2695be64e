/-!
File paths as texts, and what they are made of.

Two paths are the same when they have the same components: repeated and trailing slashes count for
nothing, nor does `.` except at the very start of a relative path.  `..` is a component like any
other.  The text of a path is kept as it was written.
-/

namespace DeviceLab

/-- A path as it was written. -/
structure Path where
  text : String
  deriving Repr, DecidableEq, Inhabited

namespace Path

/-- A component of a path. -/
inductive Component
  | root
  | current
  | parent
  | name (text : String)
  deriving Repr, DecidableEq

/-- The pieces of a text between its slashes, given the current piece in reverse. -/
def piecesFrom (current : List Char) : List Char → List String
  | [] => [String.ofList current.reverse]
  | '/' :: rest => String.ofList current.reverse :: piecesFrom [] rest
  | c :: rest => piecesFrom (c :: current) rest

def pieces (cs : List Char) : List String :=
  piecesFrom [] cs

/-- The component that a piece stands for; an empty piece and `.` stand for none. -/
def Component.ofPiece? (piece : String) : Option Component :=
  if piece = "" ∨ piece = "." then none
  else if piece = ".." then some .parent
  else some (.name piece)

/-- How a path begins, and the characters after that. -/
def split (p : Path) : Option Component × List Char :=
  match p.text.toList with
  | '/' :: rest => (some .root, rest)
  | ['.'] => (some .current, [])
  | '.' :: '/' :: rest => (some .current, '/' :: rest)
  | cs => (none, cs)

def isAbsolute (p : Path) : Bool :=
  p.split.1 == some .root

def components (p : Path) : List Component :=
  p.split.1.toList ++ (pieces p.split.2).filterMap Component.ofPiece?

def same (p q : Path) : Bool :=
  p.components == q.components

@[simp] theorem same_iff {p q : Path} : p.same q = true ↔ p.components = q.components := by
  simp [same]

/-- Pieces, last first, without those at the end that stand for no component. -/
def dropBlankPieces (reversed : List String) : List String :=
  reversed.dropWhile fun piece => (Component.ofPiece? piece).isNone

def Component.lead : Component → String
  | .root => "/"
  | .current => "."
  | .parent => ".."
  | .name text => text

/-- The path without its last component; a root and an empty path have none to drop. -/
def parent? (p : Path) : Option Path :=
  let lead := p.split.1
  match dropBlankPieces (pieces p.split.2).reverse with
  | _ :: before =>
    let kept := (dropBlankPieces before).reverse
    some ⟨(lead.map Component.lead).getD "" ++ String.intercalate "/" kept⟩
  | [] => if lead = some .current then some ⟨""⟩ else none

/-- `target` as seen from the directory `base`. -/
def join (base target : Path) : Path :=
  if target.isAbsolute then target
  else
    let needsSlash := match base.text.toList.getLast? with
      | none => false
      | some c => c != '/'
    ⟨base.text ++ (if needsSlash then "/" else "") ++ target.text⟩

/-- `target` as seen from the directory that holds the file `p`. -/
def beside (p target : Path) : Path :=
  if target.isAbsolute then target else (p.parent?.getD ⟨"."⟩).join target

def Component.rank : Component → Nat
  | .root => 0
  | .current => 1
  | .parent => 2
  | .name _ => 3

/-- The order of components: by kind, names among themselves by code point. -/
def Component.before : Component → Component → Bool
  | .name a, .name b => a < b
  | a, b => a.rank < b.rank

/-- The order of paths: the first component that differs decides, and a path comes before those it
begins. -/
def componentsBefore : List Component → List Component → Bool
  | [], [] => false
  | [], _ :: _ => true
  | _ :: _, [] => false
  | a :: as, b :: bs => if a = b then componentsBefore as bs else a.before b

/-- Whether `p` sorts before `q`. -/
def before (p q : Path) : Bool :=
  componentsBefore p.components q.components

end Path

end DeviceLab
