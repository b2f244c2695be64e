import DeviceLab.Shell.Tool.Stream

namespace DeviceLab.Shell.Tool

open Text

/-- A decimal: a whole number, and how many of its digits are places. -/
structure Decimal where
  mantissa : Int
  places : Nat
  deriving Repr, DecidableEq, Inhabited

namespace Decimal

/-- The decimal at the start of a text, and what stands after it. -/
def read? (cs : List Char) : Option (Decimal × List Char) :=
  let (negative, cs) := match cs with
    | '-' :: cs => (true, cs)
    | '+' :: cs => (false, cs)
    | cs => (false, cs)
  let whole := cs.takeWhile Char.isDigit
  let rest := cs.drop whole.length
  let (places, rest) := match rest with
    | '.' :: more => (more.takeWhile Char.isDigit, more.dropWhile Char.isDigit)
    | rest => ([], rest)
  if whole.isEmpty && places.isEmpty then none
  else
    let n := Int.ofNat (ofDigits 10 (whole ++ places))
    some ({ mantissa := if negative then -n else n, places := places.length }, rest)

def scaled (d : Decimal) (places : Nat) : Int :=
  d.mantissa * Int.ofNat (Nat.pow 10 (places - d.places))

def atMost (a b : Decimal) : Bool :=
  let places := max a.places b.places
  a.scaled places ≤ b.scaled places

def text (mantissa : Int) (places : Nat) : String :=
  let digits := toString mantissa.natAbs
  let digits := String.ofList (List.replicate (places + 1 - digits.length) '0') ++ digits
  let cs := digits.toList
  let shown := if places = 0 then digits
    else String.ofList (cs.take (cs.length - places)) ++ "." ++ String.ofList (cs.drop (cs.length - places))
  if mantissa < 0 then "-" ++ shown else shown

end Decimal

/-- How two keys are compared. -/
structure KeyOrder where
  numeric : Bool := false
  folded : Bool := false
  reversed : Bool := false
  blanks : Bool := false

/-- A part of a line that is compared: from a field and character to a field and character. -/
structure SortKey where
  first : Nat × Nat
  last : Option (Nat × Nat)
  order : KeyOrder

/-- The fields of a line: at a separator, or at white space, which then belongs to the field after
it. -/
def fieldsOf (separator : Option Char) (line : List Char) : List (List Char) :=
  match separator with
  | some s => split s [] line
  | none => blankFields [] true line
where
  /-- The pieces between separators. -/
  split (s : Char) (field : List Char) : List Char → List (List Char)
    | [] => [field.reverse]
    | c :: rest => if c = s then field.reverse :: split s [] rest else split s (c :: field) rest
  /-- The pieces that each end where white space begins. -/
  blankFields (field : List Char) (leading : Bool) : List Char → List (List Char)
    | [] => [field.reverse]
    | c :: rest =>
      if c = ' ' ∨ c = '\t' then
        if leading then blankFields (c :: field) true rest
        else field.reverse :: blankFields [c] true rest
      else blankFields (c :: field) false rest

def SortKey.of (key : SortKey) (separator : Option Char) (line : List Char) : List Char :=
  let fields := fieldsOf separator line
  let gap := if separator.isSome then 1 else 0
  let startOf (field : Nat) : Nat :=
    (fields.take field).foldl (fun spot f => spot + f.length + gap) 0
  let skipBlanks (spot : Nat) : Nat :=
    spot + ((line.drop spot).takeWhile fun c => c == ' ' || c == '\t').length
  let place (field : Nat) : Nat :=
    let spot := min line.length (startOf field)
    if key.order.blanks then skipBlanks spot else spot
  let start := min line.length (place (key.first.1 - 1) + (key.first.2 - 1))
  let stop := match key.last with
    | none => line.length
    | some (field, 0) =>
      min line.length (startOf (field - 1) + ((fields[field - 1]?).getD []).length)
    | some (field, character) => min line.length (place (field - 1) + character)
  (line.take stop).drop start

def KeyOrder.compare (o : KeyOrder) (a b : List Char) : Ordering :=
  let answer :=
    if o.numeric then
      let value (cs : List Char) : Decimal :=
        ((Decimal.read? (cs.dropWhile fun c => c == ' ' || c == '\t')).map (·.1)).getD ⟨0, 0⟩
      let a := value a
      let b := value b
      if !a.atMost b then .gt else if !b.atMost a then .lt else .eq
    else
      let text (cs : List Char) : String :=
        String.ofList (if o.folded then cs.map Char.toUpper else cs)
      let a := text a
      let b := text b
      if a < b then Ordering.lt else if b < a then .gt else .eq
  if o.reversed then answer.swap else answer

/-- A field and a character in it, with letters after them. -/
def readSpot? (cs : List Char) : Option ((Nat × Option Nat) × List Char) :=
  let field := cs.takeWhile Char.isDigit
  if field.isEmpty then none
  else
    let rest := cs.drop field.length
    let (character, rest) := match rest with
      | '.' :: more => (some (ofDigits 10 (more.takeWhile Char.isDigit)), more.dropWhile Char.isDigit)
      | rest => (none, rest)
    some ((ofDigits 10 field, character), rest)

def sortKey? (order : KeyOrder) (text : String) : Option SortKey := do
  let ((field, character), rest) ← readSpot? text.toList
  let letters := rest.takeWhile Char.isAlpha
  let rest := rest.drop letters.length
  let (last, more) ← match rest with
    | [] => some (none, [])
    | ',' :: rest => do
      let ((field, character), rest) ← readSpot? rest
      some (some (field, character.getD 0), rest)
    | _ => none
  let letters := letters ++ more
  let own : KeyOrder := {
    numeric := letters.contains 'n'
    folded := letters.contains 'f'
    reversed := letters.contains 'r'
    blanks := letters.contains 'b' }
  return { first := (max 1 field, max 1 (character.getD 1)), last
           order := if letters.isEmpty then order else own }

def sort (args : List String) : Tool Nat := do
  let (flags, files) ← readArguments {
    plain := ['b', 'd', 'f', 'g', 'i', 'n', 'r', 'u', 's', 'c', 'C', 'm', 'z', 'V', 'h', 'M']
    valued := ['k', 't', 'o', 'S', 'T']
    long := [("numeric-sort", 'n'), ("reverse", 'r'), ("unique", 'u'), ("ignore-case", 'f'),
      ("stable", 's'), ("key", 'k'), ("field-separator", 't'), ("output", 'o'), ("check", 'c'),
      ("ignore-leading-blanks", 'b'), ("general-numeric-sort", 'g')]
    status := 2 } args
  let order : KeyOrder := {
    numeric := has flags 'n' || has flags 'g'
    folded := has flags 'f'
    reversed := has flags 'r'
    blanks := has flags 'b' }
  let keys ← (flags.filter (·.1 == 'k')).mapM fun (_, text) =>
    match sortKey? order text with
    | some key => pure key
    | none => quit 2 s!"invalid number at field start: invalid count at start of {quoted text}"
  let separator := (value? flags 't').bind (·.toList.head?)
  let mut text := ""
  for file in (if files.isEmpty then ["-"] else files) do
    match ← input file with
    | .ok bytes =>
      let more := ofBytes bytes
      text := text ++ more ++ (if more.isEmpty || more.endsWith "\n" then "" else "\n")
    | .error .isDirectory => quit 2 s!"read failed: {file}: Is a directory"
    | .error e => quit 2 s!"cannot read: {file}: {e.label}"
  let byKeys (a b : List Char) : Ordering :=
    if keys.isEmpty then order.compare a b
    else keys.foldl (fun answer key =>
      answer.then (key.order.compare (key.of separator a) (key.of separator b))) .eq
  let whole (a b : List Char) : Ordering :=
    let answer := byKeys a b
    if answer != .eq || has flags 's' || has flags 'u' then answer
    else ({ reversed := order.reversed } : KeyOrder).compare a b
  let lines := (linesOf text).1.map String.toList
  if has flags 'c' || has flags 'C' then
    let pairs := (lines.zip (lines.drop 1)).zipIdx
    match pairs.find? fun ((a, b), _) => whole a b == .gt || (has flags 'u' && byKeys a b == .eq) with
    | none => return 0
    | some ((_, b), index) =>
      if has flags 'c' then
        warn (files.headD "-" ++ s!":{index + 2}: disorder: " ++ String.ofList b)
      return 1
  let sorted := lines.mergeSort fun a b => whole a b != .gt
  let sorted := if has flags 'u' then
      sorted.foldr (fun line rest => match rest with
        | next :: others => if byKeys line next == .eq then line :: others else line :: rest
        | [] => [line]) []
    else sorted
  let result := unlines (sorted.map String.ofList)
  match value? flags 'o' with
  | none => put result
  | some file =>
    match ← locate file with
    | .ok place => Act.onMachine fun m => { m with tree := m.tree.put place (.file (bytesOf result)) }
    | .error e => quit 2 s!"open failed: {file}: {e.label}"
  return 0

def uniq (args : List String) : Tool Nat := do
  let (flags, files) ← readArguments {
    plain := ['c', 'd', 'u', 'i', 'z', 'D'], valued := ['f', 's', 'w']
    long := [("count", 'c'), ("repeated", 'd'), ("unique", 'u'), ("ignore-case", 'i')] } args
  let keyOf (line : String) : String :=
    let skip := ((value? flags 's').map fun t => ofDigits 10 t.toList).getD 0
    let line := String.ofList (line.toList.drop skip)
    if has flags 'i' then line.toLower else line
  eachInput (files.take 1) 1 plainComplaint fun _ text => do
    let groups := (linesOf text).1.splitBy fun a b => keyOf a == keyOf b
    let wanted := groups.filter fun g =>
      (!has flags 'd' || g.length > 1) && (!has flags 'u' || g.length = 1)
    put (unlines (wanted.map fun g =>
      let line := g.headD ""
      if has flags 'c' then padNumber 7 g.length ++ " " ++ line else line))

/-- The ranges that a list of numbers describes; the last number of a range may be missing. -/
def ranges? (text : String) : Option (List (Nat × Option Nat)) :=
  (text.splitOn ",").mapM fun piece =>
    let cs := piece.toList
    let low := cs.takeWhile Char.isDigit
    match cs.drop low.length with
    | [] => if low.isEmpty then none else some (ofDigits 10 low, some (ofDigits 10 low))
    | '-' :: high =>
      if !high.all Char.isDigit || (low.isEmpty && high.isEmpty) then none
      else some (if low.isEmpty then 1 else ofDigits 10 low,
        if high.isEmpty then none else some (ofDigits 10 high))
    | _ => none

def inRanges (ranges : List (Nat × Option Nat)) (n : Nat) : Bool :=
  ranges.any fun (low, high?) => low ≤ n && high?.all fun high => n ≤ high

def cut (args : List String) : Tool Nat := do
  let (flags, files) ← readArguments {
    plain := ['s', 'n', 'z', 'C']
    valued := ['b', 'c', 'd', 'f', 'O']
    long := [("bytes", 'b'), ("characters", 'c'), ("delimiter", 'd'), ("fields", 'f'),
      ("only-delimited", 's'), ("output-delimiter", 'O'), ("complement", 'C')] } args
  match flags.find? fun f => ['b', 'c', 'f'].contains f.1 with
  | none => misused 1 "you must specify a list of bytes, characters, or fields"
  | some (kind, list) =>
    let what := if kind = 'f' then "field" else "byte/character"
    let ranges ← match ranges? list with
      | some ranges => pure ranges
      | none => misused 1 s!"invalid {what} value {quoted list}"
    if ranges.any fun r => r.1 = 0 then
      misused 1 (if kind = 'f' then "fields are numbered from 1"
        else "byte/character positions are numbered from 1")
    if ranges.any fun r => r.2.any (· < r.1) then misused 1 "invalid decreasing range"
    let delimiter ← match (value? flags 'd').map String.toList with
      | none => pure '\t'
      | some [] => pure '\x00'
      | some [c] => pure c
      | some _ => misused 1 "the delimiter must be a single character"
    let wanted (n : Nat) : Bool := inRanges ranges (n + 1) != has flags 'C'
    eachInput files 1 plainComplaint fun _ text => do
      put (unlines ((linesOf text).1.filterMap fun line =>
        let cs := line.toList
        if kind ≠ 'f' then
          some (String.ofList ((cs.zipIdx.filter fun (_, n) => wanted n).map (·.1)))
        else if !cs.contains delimiter then if has flags 's' then none else some line
        else
          let fields := (fieldsOf.split delimiter [] cs).zipIdx
          let chosen := (fields.filter fun (_, n) => wanted n).map fun (f, _) => String.ofList f
          some (String.intercalate ((value? flags 'O').getD (String.singleton delimiter)) chosen)))

def rev (args : List String) : Tool Nat := do
  let (_, files) ← readArguments {} args
  eachInput files 1 (fun file e => s!"cannot open {file}: {e.label}") fun _ text => do
    let (lines, ended) := linesOf text
    let whole := unlines (lines.map fun line => String.ofList line.toList.reverse)
    put (if ended then whole else String.ofList whole.toList.dropLast)

def tac (args : List String) : Tool Nat := do
  let (_, files) ← readArguments { plain := ['b', 'r'], valued := ['s'] } args
  let complaint (file : String) (e : FileError) : String :=
    s!"failed to open {quotedName file} for reading: {e.label}"
  eachInput files 1 complaint fun _ text => do
    let (lines, ended) := linesOf text
    match lines.reverse, ended with
    | last :: rest, false => put (last ++ unlines rest)
    | lines, _ => put (unlines lines)

def fold (args : List String) : Tool Nat := do
  let args := match args with
    | first :: rest =>
      match first.toList with
      | '-' :: digits => if !digits.isEmpty && digits.all Char.isDigit then
          "-w" :: String.ofList digits :: rest else args
      | _ => args
    | [] => []
  let (flags, files) ← readArguments {
    plain := ['b', 's'], valued := ['w'], long := [("width", 'w')] } args
  let width := max 1 (((value? flags 'w').map fun t => ofDigits 10 t.toList).getD 80)
  eachInput files 1 plainComplaint fun _ text => do
    put (String.join ((linesOf text).1.map fun line =>
      if line.isEmpty then "\n" else wrapped width (line.length + 1) line.toList))

def paste (args : List String) : Tool Nat := do
  let (flags, files) ← readArguments {
    plain := ['s'], valued := ['d'], long := [("delimiters", 'd'), ("serial", 's')] } args
  let marks := (unescaped ((value? flags 'd').getD "\t")).1.toList
  let mark (n : Nat) : String :=
    match marks[n % max 1 marks.length]? with
    | some c => String.singleton c
    | none => ""
  let joined (cells : List String) : String :=
    String.join (cells.zipIdx.map fun (cell, n) => if n = 0 then cell else mark (n - 1) ++ cell)
  let mut columns := #[]
  for file in (if files.isEmpty then ["-"] else files) do
    match ← input file with
    | .ok bytes => columns := columns.push (linesOf (ofBytes bytes)).1
    | .error e => quit 1 (plainComplaint file e)
  if has flags 's' then put (unlines (columns.toList.map joined))
  else
    let height := columns.foldl (fun n column => max n column.length) 0
    put (unlines ((List.range height).map fun row =>
      joined (columns.toList.map fun column => (column[row]?).getD "")))
  return 0

def maxCounted : Nat := 1000000

def seq (args : List String) : Tool Nat := do
  let isNumber (arg : String) : Bool := (Decimal.read? arg.toList).any (·.2.isEmpty)
  let rec options (flags : List (Char × String)) : List String → Tool (List (Char × String) × List String)
    | "-w" :: rest | "--equal-width" :: rest => options (('w', "") :: flags) rest
    | "-s" :: value :: rest => options (('s', value) :: flags) rest
    | "-f" :: value :: rest => options (('f', value) :: flags) rest
    | "--" :: rest => return (flags, rest)
    | arg :: rest =>
      if arg.startsWith "-s" then options (('s', String.ofList (arg.toList.drop 2)) :: flags) rest
      else if arg.startsWith "-" && !isNumber arg then do
        let _ ← readArguments { plain := ['w'], valued := ['s', 'f'] } [arg]
        return (flags, arg :: rest)
      else return (flags, arg :: rest)
    | [] => return (flags, [])
  let (flags, operands) ← options [] args
  if operands.isEmpty then misused 1 "missing operand"
  if operands.length > 3 then misused 1 ("extra operand " ++ quoted ((operands[3]?).getD ""))
  let numbers ← operands.mapM fun text =>
    match Decimal.read? text.toList with
    | some (d, []) => pure d
    | _ => misused 1 s!"invalid floating point argument: {quoted text}"
  let one : Decimal := ⟨1, 0⟩
  let (first, step, last) := match numbers with
    | [last] => (one, one, last)
    | [first, last] => (first, one, last)
    | first :: step :: last :: _ => (first, step, last)
    | [] => (one, one, one)
  if step.mantissa = 0 then
    misused 1 ("invalid Zero increment value: " ++ quoted ((operands[1]?).getD ""))
  let common := max first.places (max step.places last.places)
  let places := max first.places step.places
  let low := first.scaled common
  let stride := step.scaled common
  let high := last.scaled common
  let count := if stride > 0 then (if low > high then 0 else ((high - low) / stride).toNat + 1)
    else (if low < high then 0 else ((low - high) / (-stride)).toNat + 1)
  let texts := (List.range (min count maxCounted)).map fun n =>
    Decimal.text ((low + stride * Int.ofNat n).tdiv (Int.ofNat (Nat.pow 10 (common - places)))) places
  let width := texts.foldl (fun n text => max n text.length) 0
  let texts := if !has flags 'w' then texts else texts.map fun text =>
    let (sign, digits) := match text.toList with
      | '-' :: digits => (['-'], digits)
      | digits => ([], digits)
    String.ofList (sign ++ List.replicate (width - text.length) '0' ++ digits)
  if !texts.isEmpty then
    put (String.intercalate ((value? flags 's').getD "\n") texts ++ "\n")
  return 0

end DeviceLab.Shell.Tool
