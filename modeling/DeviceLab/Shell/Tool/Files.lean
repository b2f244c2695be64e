import DeviceLab.Shell.Tool.Stream

namespace DeviceLab.Shell.Tool

open Text

def withoutSlashes (path : String) : String :=
  let cs := (path.toList.reverse.dropWhile (· == '/')).reverse
  if cs.isEmpty && !path.isEmpty then "/" else String.ofList cs

def lastPiece (path : String) : String :=
  let path := withoutSlashes path
  if path = "/" then "/"
  else String.ofList (path.toList.reverse.takeWhile (· != '/')).reverse

def withoutLastPiece (path : String) : String :=
  let cs := (withoutSlashes path).toList
  if !cs.contains '/' then "."
  else
    let before := cs.reverse.dropWhile (· != '/') |>.dropWhile (· == '/')
    if before.isEmpty then "/" else String.ofList before.reverse

def basename (args : List String) : Tool Nat := do
  let (flags, names) ← readArguments {
    plain := ['a', 'z'], valued := ['s']
    long := [("multiple", 'a'), ("suffix", 's')], ordered := true } args
  let without (suffix name : String) : String :=
    if !suffix.isEmpty && name.endsWith suffix && name.length > suffix.length then
      String.ofList (name.toList.take (name.length - suffix.length))
    else name
  match names with
  | [] => misused 1 "missing operand"
  | first :: rest =>
    if flags.isEmpty then
      match rest with
      | _ :: extra :: _ => misused 1 s!"extra operand {quoted extra}"
      | rest => put (without (rest.headD "") (lastPiece first) ++ "\n")
    else
      put (unlines (names.map fun name => without ((value? flags 's').getD "") (lastPiece name)))
    return 0

def dirname (args : List String) : Tool Nat := do
  let (_, names) ← readArguments { plain := ['z'] } args
  if names.isEmpty then misused 1 "missing operand"
  put (unlines (names.map withoutLastPiece))
  return 0

def realpath (args : List String) : Tool Nat := do
  let (flags, names) ← readArguments {
    plain := ['e', 'm', 'L', 'P', 'q', 's', 'z'], long := [("canonicalize-existing", 'e')] } args
  if names.isEmpty then misused 1 "missing operand"
  let mut status := 0
  for name in names do
    let found ← if has flags 'e' then do
        match ← nodeAt name with
        | .ok (place, _) => pure (Except.ok place)
        | .error e => pure (.error e)
      else locate name
    match found with
    | .ok place => put (placeText place ++ "\n")
    | .error e =>
      if !has flags 'q' then warn s!"{quotedName name}: {e.label}"
      status := 1
  return status

def readlink (args : List String) : Tool Nat := do
  let (flags, names) ← readArguments { plain := ['f', 'e', 'm', 'n', 'q', 's', 'v', 'z'] } args
  if names.isEmpty then misused 1 "missing operand"
  if ['f', 'e', 'm'].any (has flags) then
    let mut status := 0
    for name in names do
      match ← locate name with
      | .ok place => put (placeText place ++ (if has flags 'n' then "" else "\n"))
      | .error _ => status := 1
    return status
  return 1

def ls (args : List String) : Tool Nat := do
  let (flags, names) ← readArguments {
    plain := ['a', 'A', '1', 'd', 'l', 'h', 'R', 'F', 'p', 'r', 't', 'S', 'C', 'x', 'i', 's', 'n', 'g',
      'G', 'q', 'b', 'Q', 'N', 'U', 'f', 'X', 'v', 'L', 'H', 'm', 'c', 'u', 'k', 'o', 'B', 'D', 'Z']
    valued := ['I', 'w', 'T']
    long := [("all", 'a'), ("almost-all", 'A'), ("directory", 'd'), ("recursive", 'R'),
      ("reverse", 'r'), ("classify", 'F')]
    status := 2 } args
  let tree := (← Act.machine).tree
  let ordered (names : List String) : List String :=
    let sorted := names.mergeSort fun a b => !(b < a)
    if has flags 'r' then sorted.reverse else sorted
  let marked (name : String) (node? : Option FileNode) : String :=
    if (has flags 'F' || has flags 'p') && node? == some .directory then name ++ "/" else name
  let inside (place : Place) : List String :=
    let found := tree.namesIn place
    let all := has flags 'a' || has flags 'f'
    let shown := if all || has flags 'A' then found
      else found.filter fun name => name.toList.head? != some '.'
    let shown := (if all then [".", ".."] else []) ++ shown
    ordered (shown.map fun name => marked (narrow name) (tree.at? (place ++ [name])))
  let mut status := 0
  let mut files := #[]
  let mut directories := #[]
  for name in (if names.isEmpty then ["."] else names) do
    match ← nodeAt name with
    | .error e =>
      warn s!"cannot access {quotedName name}: {e.label}"
      status := 2
    | .ok (place, .directory) =>
      if has flags 'd' then files := files.push name else directories := directories.push (name, place)
    | .ok _ => files := files.push name
  put (unlines (ordered files.toList))
  let sorted := directories.toList.mergeSort fun a b => !(b.1 < a.1)
  let mut first := files.isEmpty
  for (name, place) in sorted do
    if names.length > 1 then put ((if first then "" else "\n") ++ s!"{name}:\n")
    first := false
    put (unlines (inside place))
  return status

def touch (args : List String) : Tool Nat := do
  let (flags, names) ← readArguments {
    plain := ['a', 'c', 'm', 'f', 'h'], valued := ['d', 'r', 't']
    long := [("no-create", 'c')] } args
  if names.isEmpty then misused 1 "missing file operand"
  let mut status := 0
  for name in names do
    match ← locate name with
    | .error e =>
      warn s!"cannot touch {quotedName name}: {e.label}"
      status := 1
    | .ok place =>
      if ((← Act.machine).tree.at? place).isNone && !has flags 'c' then
        Act.onMachine fun m => { m with tree := m.tree.put place (.file []) }
  return status

def mkdir (args : List String) : Tool Nat := do
  let (flags, names) ← readArguments {
    plain := ['p', 'v', 'Z'], valued := ['m']
    long := [("parents", 'p'), ("mode", 'm'), ("verbose", 'v')] } args
  if names.isEmpty then misused 1 "missing operand"
  let mut status := 0
  for name in names do
    let refused (reason : String) : Tool Unit :=
      warn s!"cannot create directory {quotedName name}: {reason}"
    let p ← Act.process
    if has flags 'p' then
      let start : Place := if name.startsWith "/" then [] else p.place
      let tree := (← Act.machine).tree
      let places := ((Path.pieces (widen name).toList).foldl (fun places piece =>
        tree.step (places.headD []) piece :: places) [start]).reverse
      if places.any fun place => (tree.at? place).any (· != .directory) then
        refused (if (tree.at? (places.getLastD [])).any (· != .directory) then "File exists"
          else "Not a directory")
        status := 1
      else
        for place in places do
          Act.onMachine fun m => { m with tree := m.tree.makeDirectory place }
    else match ← locate name with
      | .error e =>
        refused e.label
        status := 1
      | .ok place =>
        if ((← Act.machine).tree.at? place).isSome then
          refused "File exists"
          status := 1
        else Act.onMachine fun m => { m with tree := m.tree.put place .directory }
  return status

def rmdir (args : List String) : Tool Nat := do
  let (_, names) ← readArguments { plain := ['p', 'v'] } args
  if names.isEmpty then misused 1 "missing operand"
  let mut status := 0
  for name in names do
    let refused (reason : String) : Tool Unit :=
      warn s!"failed to remove {quotedName name}: {reason}"
    match ← nodeAt name with
    | .error e =>
      refused e.label
      status := 1
    | .ok (place, .directory) =>
      if ((← Act.machine).tree.namesIn place).isEmpty then
        Act.onMachine fun m => { m with tree := m.tree.remove place }
      else
        refused "Directory not empty"
        status := 1
    | .ok _ =>
      refused "Not a directory"
      status := 1
  return status

def rm (args : List String) : Tool Nat := do
  let (flags, names) ← readArguments {
    plain := ['r', 'R', 'f', 'i', 'I', 'v', 'd']
    long := [("recursive", 'r'), ("force", 'f'), ("dir", 'd'), ("verbose", 'v')] } args
  let forced := has flags 'f'
  if names.isEmpty && !forced then misused 1 "missing operand"
  let mut status := 0
  for name in names do
    let refused (reason : String) : Tool Unit :=
      warn s!"cannot remove {quotedName name}: {reason}"
    let remove (place : Place) : Tool Unit :=
      Act.onMachine fun m => { m with tree := m.tree.remove place }
    let piece := lastPiece name
    match ← nodeAt name with
    | .error e =>
      if !(forced && (e = .notFound ∨ e = .notDirectory)) then
        refused e.label
        status := 1
    | .ok (place, .directory) =>
      if piece = "." ∨ piece = ".." then
        warn s!"refusing to remove '.' or '..' directory: skipping {quotedName name}"
        status := 1
      else if has flags 'r' || has flags 'R' then remove place
      else if has flags 'd' && ((← Act.machine).tree.namesIn place).isEmpty then remove place
      else
        refused (if has flags 'd' then "Directory not empty" else "Is a directory")
        status := 1
    | .ok (place, _) => remove place
  return status

/-- Everything at a place and below it, put at another place too. -/
def copied (tree : FileTree) (source target : Place) : FileTree :=
  let inside := tree.nodes.reverse.filter fun node => source.isPrefixOf node.1
  let tree := inside.foldl (fun t (place, node) =>
    t.put (target ++ place.drop source.length) node) tree
  { tree with
    runnable := (tree.runnable.filter (source.isPrefixOf ·)).map (fun place =>
      target ++ place.drop source.length) ++ tree.runnable }

/-- Copy or move files: to a file, or into a directory. -/
def transfer (moves : Bool) (args : List String) : Tool Nat := do
  let (flags, names) ← readArguments {
    plain := ['a', 'r', 'R', 'f', 'p', 'i', 'n', 'v', 'u', 'd', 'P', 'L', 'T', 'H', 'l', 's', 'x', 'b']
    valued := ['t', 'S']
    long := [("recursive", 'r'), ("archive", 'a'), ("force", 'f'), ("target-directory", 't'),
      ("no-clobber", 'n'), ("verbose", 'v')] } args
  let (sources, target) ← match names, value? flags 't' with
    | [], _ => misused 1 "missing file operand"
    | names, some target => pure (names, target)
    | [name], none => misused 1 s!"missing destination file operand after {quotedName name}"
    | names, none => pure (names.dropLast, names.getLastD "")
  let recursive := moves || ['a', 'r', 'R'].any (has flags)
  let into ← nodeAt target
  let isDirectory := match into with
    | .ok (_, .directory) => true
    | _ => false
  if sources.length > 1 && !isDirectory then
    let reason := match into with
      | .ok _ => "Not a directory"
      | .error e => e.label
    quit 1 s!"target {quotedName target}: {reason}"
  let mut status := 0
  for source in sources do
    match ← nodeAt source with
    | .error e =>
      warn s!"cannot stat {quotedName source}: {e.label}"
      status := 1
    | .ok (origin, node) =>
      if node = .directory && !recursive then
        warn s!"-r not specified; omitting directory {quotedName source}"
        status := 1
      else
        let path := if isDirectory then target ++ "/" ++ lastPiece source else target
        match ← locate path with
        | .error e =>
          let verb := if moves then "move" else "create regular file"
          let what := if moves then s!"cannot {verb} {quotedName source} to {quotedName path}"
            else s!"cannot {verb} {quotedName path}"
          warn s!"{what}: {e.label}"
          status := 1
        | .ok place =>
          if place = origin then
            warn s!"{quotedName source} and {quotedName path} are the same file"
            status := 1
          else
            let content := (← Act.machine).tree.content node
            Act.onMachine fun m => { m with
              tree :=
                let tree := match node, content with
                  | .directory, _ => copied (m.tree.makeDirectory place) origin place
                  | _, .ok bytes =>
                    let tree := m.tree.put place (.file bytes)
                    if m.tree.isRunnable origin then { tree with runnable := place :: tree.runnable }
                    else tree
                  | _, .error _ => m.tree
                if moves then tree.remove origin else tree }
  return status

def ln (args : List String) : Tool Nat := do
  let (flags, names) ← readArguments {
    plain := ['s', 'f', 'n', 'v', 'r', 'i', 'L', 'P', 'T'], valued := ['t']
    long := [("symbolic", 's'), ("force", 'f')] } args
  match names with
  | [] => misused 1 "missing file operand"
  | source :: rest =>
    let path := rest.headD (lastPiece source)
    match ← nodeAt source with
    | .error e =>
      if has flags 's' then return 0
      quit 1 s!"failed to access {quotedName source}: {e.label}"
    | .ok (_, node) =>
      match ← locate path with
      | .error e =>
        let kind := if has flags 's' then "symbolic" else "hard"
        quit 1 s!"failed to create {kind} link {quotedName path}: {e.label}"
      | .ok place =>
        let tree := (← Act.machine).tree
        let place := if tree.at? place = some .directory then place ++ [widen (lastPiece source)]
          else place
        if (tree.at? place).isSome && !has flags 'f' then
          let kind := if has flags 's' then "symbolic" else "hard"
          quit 1 s!"failed to create {kind} link {quotedName path}: File exists"
        Act.onMachine fun m => { m with tree := m.tree.put place node }
        return 0

/-- Whether a mode lets files be run; `none` if it is no mode, and the present state if it does not
say. -/
def runsUnder? (mode : String) (now : Bool) : Option Bool :=
  let cs := mode.toList
  if !cs.isEmpty && cs.all isOctal then
    some ((ofDigits 8 cs) % 8 % 2 = 1 || (ofDigits 8 cs) / 8 % 2 = 1 || (ofDigits 8 cs) / 64 % 2 = 1)
  else
    (mode.splitOn ",").foldlM (fun (runs : Bool) clause =>
      let cs := clause.toList.dropWhile fun c => ['u', 'g', 'o', 'a'].contains c
      match cs with
      | sign :: rights =>
        if !rights.all fun c => ['r', 'w', 'x', 'X', 's', 't', 'u', 'g', 'o'].contains c then none
        else match sign with
          | '+' => some (runs || rights.contains 'x')
          | '-' => some (runs && !rights.contains 'x')
          | '=' => some (rights.contains 'x')
          | _ => none
      | [] => none) now

def chmod (args : List String) : Tool Nat := do
  let args := match args with
    | first :: rest =>
      if (first.toList.drop 1).any fun c => ['r', 'w', 'x'].contains c && first.length ≤ 4 &&
          !first.startsWith "--" && first ≠ "-R" then "--" :: first :: rest else args
    | [] => []
  let (_, names) ← readArguments {
    plain := ['R', 'v', 'c', 'f'], long := [("recursive", 'R')] } args
  match names with
  | [] => misused 1 "missing operand"
  | [mode] => misused 1 s!"missing operand after {quoted mode}"
  | mode :: files =>
    if (runsUnder? mode false).isNone then misused 1 s!"invalid mode: {quoted mode}"
    let mut status := 0
    for file in files do
      match ← nodeAt file with
      | .error e =>
        warn s!"cannot access {quotedName file}: {e.label}"
        status := 1
      | .ok (place, _) =>
        Act.onMachine fun m =>
          let runs := (runsUnder? mode (m.tree.runnable.contains place)).getD false
          let others := m.tree.runnable.filter (· != place)
          { m with tree := { m.tree with runnable := if runs then place :: others else others } }
    return status

def cmp (args : List String) : Tool Nat := do
  let (flags, names) ← readArguments {
    plain := ['s', 'l', 'b'], long := [("quiet", 's'), ("silent", 's')], status := 2 } args
  match names with
  | [] => misused 2 "missing operand after 'cmp'"
  | first :: rest =>
    let second := rest.headD "-"
    let read (name : String) : Tool (List UInt8) := do
      match ← input name with
      | .ok bytes => return bytes
      | .error e => quit 2 (plainComplaint name e)
    let a ← read first
    let b ← read second
    if a == b then return 0
    let same := ((a.zip b).takeWhile fun (x, y) => x == y).length
    if !has flags 's' then
      if same = min a.length b.length then
        let shorter := if a.length < b.length then first else second
        let line := (a.take same).count 10
        warn s!"EOF on {shorter} after byte {same}, in line {line + 1}"
      else
        put s!"{first} {second} differ: byte {same + 1}, line {(a.take same).count 10 + 1}\n"
    return 1

end DeviceLab.Shell.Tool
