import DeviceLab.Digest.Sha256
import DeviceLab.Shell.Tool.Basic

namespace DeviceLab.Shell.Tool

open Text

/-- Pass the input on, piece by piece as it comes. -/
def passInput : Act Unit :=
  Act.iterate (fun (_ : Unit) => do
    match ← readChunk 0 with
    | none | some [] => return .error ()
    | some bytes => if ← writeBytes 1 bytes then return .ok () else return .error ()) maxChunks ()

/-- A number, filled up with spaces on the left. -/
def padNumber (width n : Nat) : String :=
  ({ width : Layout }).fill (toString n)

/-- Lines with numbers before them; `all` says whether empty lines get one too. -/
def numbered (all : Bool) (gap : String) : Nat → List String → List String
  | _, [] => []
  | n, line :: rest =>
    if line.isEmpty && !all then (gap ++ line) :: numbered all gap n rest
    else (padNumber 6 n ++ "\t" ++ line) :: numbered all gap (n + 1) rest

def cat (args : List String) : Tool Nat := do
  let (flags, files) ← readArguments {
    plain := ['n', 'b', 's', 'A', 'E', 'T', 'e', 't', 'u', 'v']
    long := [("number", 'n'), ("number-nonblank", 'b'), ("squeeze-blank", 's'), ("show-all", 'A'),
      ("show-ends", 'E'), ("show-tabs", 'T'), ("show-nonprinting", 'v')] } args
  let mut status := 0
  let mut text := ""
  for file in (if files.isEmpty then ["-"] else files) do
    if file = "-" ∧ ((← Act.process).handle? 0).isNone then
      warn s!"-: Bad file descriptor\n{(← Act.process).name}: closing standard input: Bad file descriptor"
      status := 1
    else if file = "-" ∧ flags.isEmpty then passInput
    else match ← input file with
      | .ok bytes => if flags.isEmpty then put (ofBytes bytes) else text := text ++ ofBytes bytes
      | .error e =>
        warn (plainComplaint file e)
        status := 1
  if !flags.isEmpty then
    let (lines, ended) := linesOf text
    let lines := if ['T', 'A', 't'].any (has flags) then lines.map (·.replace "\t" "^I") else lines
    let lines := if ['E', 'A', 'e'].any (has flags) then lines.map (· ++ "$") else lines
    let lines := if has flags 'b' then numbered false "" 1 lines
      else if has flags 'n' then numbered true "" 1 lines
      else lines
    let whole := unlines lines
    put (if ended then whole else String.ofList whole.toList.dropLast)
  return status

def nl (args : List String) : Tool Nat := do
  let (flags, files) ← readArguments { valued := ['b', 'w', 's', 'v', 'n', 'i'] } args
  let collected : List String × Nat ← do
    let mut texts := []
    let mut status := 0
    for file in (if files.isEmpty then ["-"] else files) do
      match ← input file with
      | .ok bytes => texts := texts ++ [ofBytes bytes]
      | .error e =>
        warn (plainComplaint file e)
        status := 1
    pure (texts, status)
  let (lines, _) := linesOf (String.join collected.1)
  put (unlines (numbered (value? flags 'b' == some "a") "       " 1 lines))
  return collected.2

/-! ### Parts -/

/-- A count of lines or bytes, with the sign before it. -/
structure Count where
  sign : Option Char := none
  n : Nat

def count? (text : String) : Option Count :=
  let (sign, cs) := match text.toList with
    | '-' :: cs => (some '-', cs)
    | '+' :: cs => (some '+', cs)
    | cs => (none, cs)
  let digits := cs.takeWhile Char.isDigit
  let factor? := match String.ofList (cs.drop digits.length) with
    | "" => some 1
    | "b" => some 512
    | "k" | "K" | "KiB" => some 1024
    | "kB" | "KB" => some 1000
    | "m" | "M" | "MiB" => some 1048576
    | _ => none
  if digits.isEmpty then none else factor?.map fun factor => { sign, n := ofDigits 10 digits * factor }

/-- Arguments with an old count such as `-5` or `+5` in the usual form. -/
def withoutOldCount : List String → List String
  | [] => []
  | arg :: rest =>
    match arg.toList with
    | '-' :: c :: cs =>
      if c.isDigit && cs.all Char.isDigit then "-n" :: String.ofList (c :: cs) :: rest else arg :: rest
    | _ => arg :: rest

def heading (first : Bool) (file : String) : String :=
  let name := if file = "-" then "standard input" else file
  (if first then "" else "\n") ++ s!"==> {name} <==\n"

/-- What a part of a text is cut out by. -/
structure PartOptions where
  bytes : Bool
  count : Count
  headings : Bool
  follows : Bool := false
  files : List String

def partOptions (extra : List Char) (args : List String) : Tool PartOptions := do
  let (flags, files) ← readArguments {
    plain := ['q', 'v', 'z'] ++ extra
    valued := ['n', 'c', 's']
    long := [("lines", 'n'), ("bytes", 'c'), ("quiet", 'q'), ("silent", 'q'), ("verbose", 'v')] }
    (withoutOldCount args)
  let last? := (flags.filter fun f => f.1 == 'n' || f.1 == 'c').getLast?
  let count ← match last? with
    | none => pure { n := 10 }
    | some (c, text) =>
      match count? text with
      | some count => pure count
      | none =>
        let unit := if c = 'n' then "lines" else "bytes"
        quit 1 s!"invalid number of {unit}: {quoted text}"
  return {
    bytes := last?.any (·.1 == 'c')
    count
    headings := has flags 'v' || (files.length > 1 && !has flags 'q')
    follows := has flags 'f' || has flags 'F'
    files }

def putParts (o : PartOptions) (verb : String) (cut : String → String)
    (fromInput : Option (Tool Unit)) : Tool Nat := do
  let mut status := 0
  let mut first := true
  for file in (if o.files.isEmpty then ["-"] else o.files) do
    let head := if o.headings then heading first file else ""
    match (if file = "-" then fromInput else none) with
    | some act =>
      put head
      act
      first := false
    | none =>
      match ← input file with
      | .ok bytes =>
        put (head ++ cut (ofBytes bytes))
        first := false
      | .error .isDirectory =>
        put head
        warn s!"error reading {quotedName file}: Is a directory"
        status := 1
        first := false
      | .error e =>
        warn s!"cannot open {quotedName file} for {verb}: {e.label}"
        status := 1
  return status

def firstLines (n : Nat) (text : String) : String :=
  let (lines, ended) := linesOf text
  if n ≥ lines.length && !ended then text else unlines (lines.take n)

def afterLines (n : Nat) (text : String) : String :=
  let (lines, ended) := linesOf text
  let rest := unlines (lines.drop n)
  if ended then rest else String.ofList rest.toList.dropLast

/-- Pass the first lines of the input on, as soon as they come. -/
def passLines (n : Nat) : Tool Unit := do
  for _ in List.range n do
    match ← readLine 0 with
    | none => return ()
    | some (bytes, ended) =>
      put (ofBytes bytes ++ (if ended then "\n" else ""))
      if !ended then return ()

def head (args : List String) : Tool Nat := do
  let o ← partOptions [] args
  let n := o.count.n
  let cut (text : String) : String :=
    match o.bytes, o.count.sign with
    | true, some '-' => String.ofList (text.toList.take (text.length - n))
    | true, _ => String.ofList (text.toList.take n)
    | false, some '-' => firstLines ((linesOf text).1.length - n) text
    | false, _ => firstLines n text
  let plain := !o.bytes && o.count.sign != some '-'
  putParts o "reading" cut (if plain then some (passLines n) else none)

def tail (args : List String) : Tool Nat := do
  let o ← partOptions ['f', 'F'] args
  let n := o.count.n
  let cut (text : String) : String :=
    match o.bytes, o.count.sign with
    | true, some '+' => String.ofList (text.toList.drop (n - 1))
    | true, _ => String.ofList (text.toList.drop (text.length - n))
    | false, some '+' => afterLines (n - 1) text
    | false, _ => afterLines ((linesOf text).1.length - n) text
  let status ← putParts o "reading" cut none
  if o.follows && !o.files.isEmpty then throwThe Halt .endless
  return status

/-! ### Counts -/

/-- The numbers of lines, words, characters and bytes of a text, and the length of its longest
line. -/
def measures (text : String) : List Nat :=
  let cs := text.toList
  let isSpace (c : Char) : Bool := c == ' ' || (0x09 ≤ c.toNat && c.toNat ≤ 0x0D)
  let words := (cs.foldl (fun (n, inside) c =>
    if isSpace c then (n, false) else (if inside then n else n + 1, true)) (0, false)).1
  [cs.count '\n', words, cs.length, cs.length,
    ((linesOf text).1.map String.length).foldl max 0]

/-- Counts of lines, words and bytes. -/
def wc (args : List String) : Tool Nat := do
  let (flags, files) ← readArguments {
    plain := ['l', 'w', 'm', 'c', 'L']
    long := [("lines", 'l'), ("words", 'w'), ("chars", 'm'), ("bytes", 'c'),
      ("max-line-length", 'L')] } args
  let letters := ['l', 'w', 'm', 'c', 'L']
  let wanted := if flags.isEmpty then [true, true, false, true, false] else letters.map (has flags)
  let mut rows := #[]
  let mut size := 0
  let mut irregular := false
  let mut status := 0
  for file in (if files.isEmpty then ["-"] else files) do
    let regular ← if file = "-" then pure ((← Act.process).handle? 0 matches some (.file _))
      else pure true
    match ← input file with
    | .ok bytes =>
      rows := rows.push (file, some (measures (ofBytes bytes)))
      if regular then size := size + bytes.length else irregular := true
    | .error .isDirectory =>
      warn s!"{file}: Is a directory"
      rows := rows.push (file, some [0, 0, 0, 0, 0])
      irregular := true
      status := 1
    | .error e =>
      warn (plainComplaint file e)
      status := 1
  let single := files.length ≤ 1 && (wanted.filter id).length = 1
  let width := if single then 1
    else max (toString size).length (if irregular then 7 else 1)
  let line (numbers : List Nat) (name : String) : String :=
    let shown := ((numbers.zip wanted).filter (·.2)).map fun (n, _) => padNumber width n
    String.intercalate " " shown ++ (if name.isEmpty then "" else " " ++ name) ++ "\n"
  for (file, numbers?) in rows do
    put (line (numbers?.getD []) (if files.isEmpty then "" else file))
  if files.length > 1 then
    let all := rows.toList.filterMap (·.2)
    let sums := all.foldl (fun sums row => (sums.zip row).mapIdx fun index (a, b) =>
      if index = 4 then max a b else a + b) [0, 0, 0, 0, 0]
    put (line sums "total")
  return status

/-! ### Characters -/

/-- The characters that a text in the notation of `tr` lists; `size` is the length that a repetition
without a count is meant to fill. -/
def listed (size : Nat) : Nat → List Char → Except String (List Char)
  | 0, _ => .ok []
  | _, [] => .ok []
  | fuel + 1, cs => do
    let classed : Option (Except String (List Char × List Char)) :=
      match cs with
      | '[' :: ':' :: rest =>
        let name := rest.takeWhile Char.isLower
        match rest.drop name.length with
        | ':' :: ']' :: after =>
          match classOf? (String.ofList name) with
          | some holds => some (.ok (((List.range 256).map Char.ofNat).filter holds, after))
          | none => some (.error s!"invalid character class {quoted (String.ofList name)}")
        | _ => none
      | '[' :: '=' :: c :: '=' :: ']' :: after => some (.ok ([c], after))
      | '[' :: c :: '*' :: rest =>
        let digits := rest.takeWhile Char.isDigit
        match rest.drop digits.length with
        | ']' :: after =>
          let n := ofDigits (if digits.head? = some '0' then 8 else 10) digits
          some (.ok (List.replicate (if n = 0 then size else n) c, after))
        | _ => none
      | _ => none
    match classed with
    | some found =>
      let (members, after) ← found
      return members ++ (← listed size fuel after)
    | none =>
      let one (cs : List Char) : Char × List Char :=
        match cs with
        | '\\' :: [] => ('\\', [])
        | '\\' :: c :: rest =>
          if isOctal c then
            let digits := ((c :: rest).take 3).takeWhile isOctal
            (octalCharacter digits, (c :: rest).drop digits.length)
          else ((escaped? c).getD c, rest)
        | c :: rest => (c, rest)
        | [] => ('\x00', [])
      let (low, rest) := one cs
      match rest with
      | '-' :: more =>
        if more.isEmpty then return low :: (← listed size fuel rest)
        else
          let (high, rest) := one more
          if high < low then
            let pair := String.ofList [low, '-', high]
            .error s!"range-endpoints of {quoted pair} are in reverse collating sequence order"
          else
            let members := (List.range (high.toNat - low.toNat + 1)).map fun n => Char.ofNat (low.toNat + n)
            return members ++ (← listed size fuel rest)
      | rest => return low :: (← listed size fuel rest)

/-- A text in which each of certain characters stands only once in a row. -/
def squeeze (set : List Char) : List Char → List Char
  | a :: b :: rest =>
    if a = b ∧ set.contains a then squeeze set (b :: rest) else a :: squeeze set (b :: rest)
  | cs => cs

/-- Characters changed, deleted or squeezed. -/
def tr (args : List String) : Tool Nat := do
  let (flags, sets) ← readArguments {
    plain := ['c', 'C', 'd', 's', 't']
    long := [("complement", 'c'), ("delete", 'd'), ("squeeze-repeats", 's'), ("truncate-set1", 't')]
    ordered := true } args
  let deletes := has flags 'd'
  let squeezes := has flags 's'
  let read (size : Nat) (text : String) : Tool (List Char) :=
    match listed size (text.length + 1) text.toList with
    | .ok set => return set
    | .error complaint => quit 1 complaint
  let complemented (set : List Char) : List Char :=
    if has flags 'c' || has flags 'C' then
      ((List.range 256).map Char.ofNat).filter fun c => !set.contains c
    else set
  match sets with
  | [] => misused 1 "missing operand"
  | [text] =>
    if !deletes && !squeezes then
      misused 1 s!"missing operand after {quoted text}\nTwo strings must be given when translating."
    if deletes && squeezes then
      misused 1 s!"missing operand after {quoted text}\nTwo strings must be given when both deleting and squeezing repeats."
    let set := complemented (← read 0 text)
    let cs := (ofBytes ((← readAll 0).getD [])).toList
    put (String.ofList (if deletes then cs.filter fun c => !set.contains c else squeeze set cs))
    return 0
  | first :: second :: more =>
    match more with
    | extra :: _ => misused 1 s!"extra operand {quoted extra}"
    | [] =>
      if deletes && !squeezes then
        misused 1 s!"extra operand {quoted second}\nOnly one string may be given when deleting without squeezing repeats."
      let set := complemented (← read 0 first)
      let into ← read (set.length) second
      let cs := (ofBytes ((← readAll 0).getD [])).toList
      if deletes then
        put (String.ofList (squeeze into (cs.filter fun c => !set.contains c)))
      else
        if into.isEmpty && !set.isEmpty then
          quit 1 "when not truncating set1, string2 must be non-empty"
        let filled := if has flags 't' then into
          else into ++ List.replicate (set.length - into.length) (into.getLastD ' ')
        let table : Array Char := (set.zip filled).foldl (fun table (a, b) => table.setIfInBounds a.toNat b)
          ((List.range 256).map Char.ofNat).toArray
        let changed := cs.map fun c => table.getD c.toNat c
        put (String.ofList (if squeezes then squeeze into changed else changed))
      return 0

def tee (args : List String) : Tool Nat := do
  let (flags, files) ← readArguments {
    plain := ['a', 'i', 'p'], long := [("append", 'a'), ("ignore-interrupts", 'i')] } args
  let bytes := (← readAll 0).getD []
  put (ofBytes bytes)
  let mut status := 0
  for file in files do
    match ← locate file with
    | .error e =>
      warn (plainComplaint file e)
      status := 1
    | .ok place =>
      match (← Act.machine).tree.at? place with
      | some .directory =>
        warn (plainComplaint file .isDirectory)
        status := 1
      | some .sink => pure ()
      | node? =>
        let old := match node?, has flags 'a' with
          | some (.file old), true => old
          | _, _ => []
        Act.onMachine fun m => { m with tree := m.tree.put place (.file (old ++ bytes)) }
  return status

def yes (args : List String) : Tool Nat := do
  let line := String.intercalate " " (if args.isEmpty then ["y"] else args) ++ "\n"
  let text := String.join (List.replicate 1000 line)
  for _ in List.range 100 do
    if !(← write 1 text) then return 1
  throwThe Halt .endless

def sha256sum (args : List String) : Tool Nat := do
  let (_, files) ← readArguments { plain := ['b', 't'] } args
  eachInput files 1 plainComplaint fun file text => do
    put s!"{Digest.hex (Digest.sha256 (bytesOf text))}  {file}\n"

def base64Digits : Array Char :=
  "ABCDEFGHIJKLMNOPQRSTUVWXYZabcdefghijklmnopqrstuvwxyz0123456789+/".toList.toArray

def base64Of : List UInt8 → List Char
  | [] => []
  | a :: rest =>
    let digit (n : Nat) : Char := base64Digits.getD (n % 64) '='
    let x := a.toNat
    match rest with
    | [] => [digit (x / 4), digit (x * 16), '=', '=']
    | [b] =>
      let y := b.toNat
      [digit (x / 4), digit (x * 16 + y / 16), digit (y * 4), '=']
    | b :: c :: rest =>
      let y := b.toNat
      let z := c.toNat
      digit (x / 4) :: digit (x * 16 + y / 16) :: digit (y * 4 + z / 64) :: digit z :: base64Of rest

def wrapped (width : Nat) : Nat → List Char → String
  | 0, _ => ""
  | _, [] => ""
  | fuel + 1, cs =>
    String.ofList (cs.take width) ++ "\n" ++ wrapped width fuel (cs.drop width)

def ofBase64 (cs : List Char) : List Char :=
  let values := cs.filterMap fun c => base64Digits.findIdx? (· == c)
  let bits := values.foldl (fun n d => n * 64 + d) 1
  let spare := values.length * 6 % 8
  let n := bits / Nat.pow 2 spare
  let count := values.length * 6 / 8
  (List.range count).map fun index => Char.ofNat (n / Nat.pow 256 (count - 1 - index) % 256)

/-- Files in base 64, or out of it. -/
def base64 (args : List String) : Tool Nat := do
  let (flags, files) ← readArguments {
    plain := ['d', 'i'], valued := ['w'], long := [("decode", 'd'), ("wrap", 'w')] } args
  let width := match value? flags 'w' with
    | some text => ofDigits 10 text.toList
    | none => 76
  eachInput (files.take 1) 1 plainComplaint fun _ text => do
    if has flags 'd' then put (String.ofList (ofBase64 text.toList))
    else
      let digits := base64Of (bytesOf text)
      put (if width = 0 then String.ofList digits else wrapped width (digits.length + 1) digits)

end DeviceLab.Shell.Tool
