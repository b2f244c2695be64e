import DeviceLab.Shell.Reader

namespace DeviceLab.Shell

open Reader

def specialNames : List String :=
  [".", ":", "break", "continue", "eval", "exec", "exit", "export", "local", "readonly", "return",
    "set", "shift", "times", "trap", "unset"]

/-- Whether a character stands for itself in every surrounding. -/
def isOrdinary (c : Char) : Bool :=
  !(endsWord c || ['\\', '\'', '"', '$', '\x60', '\x7d'].contains c)

/-- Whether all arguments are among parts, each as a field of its own. -/
def hasAll (parts : Word) : Bool :=
  parts.any fun part => match part with
    | .parameter "@" _ _ => true
    | _ => false

/-- The operator that begins with a character which stands for no redirection. -/
def readOperator (c : Char) : Reads Token := do
  let double (second : String) : Reads Token := do
    if ← takeIf c then return .operator second else return .operator (String.singleton c)
  match c with
  | '&' => double "&&"
  | '|' => double "||"
  | ';' => double ";;"
  | c => return .operator (String.singleton c)

def readRedirectionOperator : Reads String := do
  let operator := if (← take) = some '<' then "<" else ">"
  let next ← peek
  let longer (c : Char) : Reads String := do
    let _ ← takeRaw
    return operator.push c
  match operator, next with
  | "<", some '<' =>
    let _ ← takeRaw
    if ← takeIf '-' then return "<<-" else return "<<"
  | "<", some '&' => longer '&'
  | "<", some '>' => longer '>'
  | ">", some '>' => longer '>'
  | ">", some '|' => longer '|'
  | ">", some '&' => longer '&'
  | _, _ => return operator

/-- The mark that ends a document, without its quotes, and whether it had any; `none` if a quote is
not closed. -/
def readDocumentMark (acc : List Char) (quoted : Bool) :
    List Char → Option (String × Bool × List Char)
  | [] => some (String.ofList acc.reverse, quoted, [])
  | '\\' :: c :: rest => readDocumentMark (c :: acc) true rest
  | c :: rest =>
    if c = '\'' ∨ c = '"' then readQuoted c acc rest
    else if endsWord c then some (String.ofList acc.reverse, quoted, c :: rest)
    else readDocumentMark (c :: acc) quoted rest
where
  /-- The mark from inside quotes on. -/
  readQuoted (quote : Char) (acc : List Char) : List Char → Option (String × Bool × List Char)
    | [] => none
    | c :: rest =>
      if c = quote then readDocumentMark acc true rest else readQuoted quote (c :: acc) rest

mutual

/-- The parts of a word, or of what is quoted, up to its end. -/
def readParts : Nat → Surroundings → List Part → Reads Word
  | 0, _, _ => fail "too long"
  | fuel + 1, s, acc => do
    match ← peek with
    | none =>
      match s with
      | .bare | .document => return assemble acc
      | .braces => fail "Missing '\x7d'"
      | .arithmetic _ => fail "Missing '))'"
      | .quotes | .quotedBraces _ => fail "Unterminated quoted string"
    | some c =>
      if s = .bare && endsWord c then return assemble acc
      let _ ← takeRaw
      let literal : Reads Word := readParts fuel s (.text (String.singleton c) s.isQuoted :: acc)
      match c with
      | '\\' =>
        match ← takeRaw with
        | none => readParts fuel s (.text "\\" true :: acc)
        | some e =>
          let text := if s.escapes e then String.singleton e else String.ofList ['\\', e]
          readParts fuel s (.text text true :: acc)
      | '\'' =>
        if s.isQuoted then literal
        else
          let r ← get
          match readSingle [] r.rest with
          | none =>
            set { r with line := r.line + countLines r.rest }
            fail "Unterminated quoted string"
          | some (text, rest) =>
            set { r with rest, line := r.line + countLines text }
            readParts fuel s (.text (String.ofList text) true :: acc)
      | '"' =>
        match s with
        | .bare | .braces =>
          let inner ← readParts fuel .quotes []
          let anchor : Word := if hasAll inner then [] else [.text "" true]
          readParts fuel s (inner.reverse ++ anchor ++ acc)
        | .quotes => return assemble acc
        | .quotedBraces inner => readParts fuel (.quotedBraces !inner) acc
        | .document | .arithmetic _ => literal
      | '\x60' =>
        let r ← get
        match readBackquoted s.isQuoted [] r.rest with
        | none =>
          set { r with line := r.line + countLines r.rest }
          fail "EOF in backquote substitution"
        | some (script, rest) =>
          set { r with rest := script, held := none, announced := [] }
          let commands ← readList fuel false true []
          modify fun inner => { inner with
            rest
            line := r.line + countLines script
            held := r.held
            announced := r.announced }
          readParts fuel s (.substitution commands s.isQuoted :: acc)
      | '$' =>
        let part ← readDollar fuel s
        readParts fuel s (part :: acc)
      | '\x7d' =>
        match s with
        | .braces | .quotedBraces false => return assemble acc
        | _ => literal
      | '(' =>
        match s with
        | .arithmetic depth =>
          readParts fuel (.arithmetic (depth + 1)) (.text "(" true :: acc)
        | _ => literal
      | ')' =>
        match s with
        | .arithmetic 0 => if ← takeIf ')' then return assemble acc else literal
        | .arithmetic (depth + 1) =>
          readParts fuel (.arithmetic depth) (.text ")" true :: acc)
        | _ => literal
      | c =>
        let r ← get
        let more := r.rest.takeWhile isOrdinary
        set { r with rest := r.rest.drop more.length }
        readParts fuel s (.text (String.ofList (c :: more)) s.isQuoted :: acc)

def readDollar : Nat → Surroundings → Reads Part
  | 0, _ => fail "too long"
  | fuel + 1, s => do
    let quoted := s.isQuoted
    match ← peek with
    | some '(' =>
      let _ ← takeRaw
      if ← takeIf '(' then return .arithmetic (← readParts fuel (.arithmetic 0) []) quoted
      let r ← get
      set { r with held := none, announced := [] }
      let commands ← readList fuel false true []
      match ← readToken fuel false false with
      | .operator ")" =>
        readDocuments fuel
        modify fun inner => { inner with held := r.held, announced := r.announced }
        return .substitution commands quoted
      | token => unexpected token (some (.operator ")"))
    | some '\x7b' =>
      let _ ← takeRaw
      let inside : Surroundings := if quoted then .quotedBraces false else .braces
      match ← readParameterName with
      | none =>
        let _ ← readParts fuel inside []
        return .parameter "" .bad quoted
      | some (name, asked) =>
        match ← readSign asked with
        | none => return .parameter name (if asked then .length else .value) quoted
        | some (operation, isPattern) =>
          let word ← readParts fuel (if isPattern then .braces else inside) []
          return .parameter name (operation word) quoted
    | some c =>
      if beginsName c then
        let r ← get
        let name := r.rest.takeWhile inName
        set { r with rest := r.rest.drop name.length }
        return .parameter (String.ofList name) .value quoted
      else if isSpecial c then
        let _ ← takeRaw
        return .parameter (String.singleton c) .value quoted
      else return .text "$" quoted
    | none => return .text "$" quoted

def readDocuments : Nat → Reads Unit
  | 0 => fail "too long"
  | fuel + 1 => do
    let r ← get
    match r.announced with
    | [] => return ()
    | d :: others =>
      let (lines, rest) := readLines d false [] (r.rest.length + 1) r.rest
      let body := lines.reverse.flatten
      let line := r.line + countLines r.rest - countLines rest
      set { r with rest := body, announced := [], held := none }
      let word ←
        if d.quoted then pure [.text (String.ofList body) true] else readParts fuel .document []
      modify fun inner => { inner with
        rest, line
        announced := others
        held := r.held
        documents := (d.number, word) :: inner.documents }
      readDocuments fuel

/-- The next token that is not held back, as it is written. -/
def scanToken : Nat → Reads Token
  | 0 => fail "too long"
  | fuel + 1 => do
    match ← peek with
    | none => return .finish
    | some c =>
      if c = ' ' ∨ c = '\t' then
        let _ ← takeRaw
        scanToken fuel
      else if c = '#' then
        skipComment
        scanToken fuel
      else if c = '\n' then
        let _ ← takeRaw
        return .newline
      else if endsWord c && c != '<' && c != '>' then
        let _ ← takeRaw
        readOperator c
      else
        let word ← readParts fuel .bare []
        let next ← peek
        match Word.plain? word with
        | some text =>
          let isStream := text.length ≤ 1 && text.toList.all Char.isDigit
          if (next = some '<' ∨ next = some '>') ∧ isStream then
            return .redirection { stream := text.toNat?, operator := ← readRedirectionOperator }
          else return .word word
        | none => return .word word

/-- The next token; line feeds before it may be skipped, and a word may be taken for a keyword. -/
def readToken : Nat → Bool → Bool → Reads Token
  | 0, _, _ => fail "too long"
  | fuel + 1, keywords, lines => do
    let r ← get
    let token ← match r.held with
      | some token =>
        set { r with held := none }
        pure token
      | none => scanToken fuel
    match token with
    | .newline =>
      if lines then
        readDocuments fuel
        readToken fuel keywords lines
      else return token
    | .word word =>
      match Word.plain? word with
      | some text =>
        if keywords && Token.keywords.contains text then return .keyword text else return token
      | none => return token
    | _ => return token

def readTarget : Nat → RedirectionMark → Reads Redirection
  | 0, _ => fail "too long"
  | fuel + 1, mark => do
    let reading := mark.operator.toList.head? = some '<'
    let stream := mark.stream.getD (if reading then 0 else 1)
    if mark.operator = "<<" ∨ mark.operator = "<<-" then
      modify fun r => { r with rest := r.rest.dropWhile fun c => c == ' ' || c == '\t' }
      match ← peek with
      | none => unexpected .finish none
      | some c =>
        if endsWord c then unexpected (← scanToken fuel) none
        let r ← get
        match readDocumentMark [] false r.rest with
        | none =>
          set { r with line := r.line + countLines r.rest }
          fail "Unterminated quoted string"
        | some (text, quoted, rest) =>
          let d : AnnouncedDocument :=
            { number := r.nextDocument, mark := text, quoted, strips := mark.operator = "<<-" }
          set { r with
            rest
            announced := r.announced ++ [d]
            nextDocument := r.nextDocument + 1 }
          return .document stream d.number
    else
      match ← readToken fuel false false with
      | .word word =>
        match mark.operator with
        | "<" => return .file stream .read word
        | "<>" => return .file stream .readWrite word
        | ">>" => return .file stream .append word
        | "<&" | ">&" => return .duplicate stream word
        | _ => return .file stream .write word
      | token => unexpected token none

/-- Redirections that follow a command, after those read so far. -/
def readRedirections : Nat → List Redirection → Reads (List Redirection)
  | 0, _ => fail "too long"
  | fuel + 1, acc => do
    match ← readToken fuel true false with
    | .redirection mark =>
      let redirection ← readTarget fuel mark
      readRedirections fuel (acc ++ [redirection])
    | token =>
      hold token
      return acc

/-- Commands up to a token that ends a list, or up to the end of the line; `optional` says whether
there may be none. -/
def readList : Nat → Bool → Bool → List Tree → Reads (List Tree)
  | 0, _, _, _ => fail "too long"
  | fuel + 1, isLine, optional, acc => do
    match ← readToken fuel true !isLine with
    | .newline =>
      readDocuments fuel
      return acc
    | .finish =>
      readDocuments fuel
      hold .finish
      return acc
    | token =>
      hold token
      if optional && token.endsList then return acc
      let line := (← get).line
      let command ← readAndOr fuel
      let separator ← readToken fuel false false
      let command := if let .operator "&" := separator then .background line command else command
      let acc := acc ++ [command]
      match separator with
      | .finish =>
        readDocuments fuel
        hold .finish
        return acc
      | .newline =>
        hold .newline
        readList fuel isLine (optional || !isLine) acc
      | .operator "&" | .operator ";" => readList fuel isLine (optional || !isLine) acc
      | token =>
        if isLine then unexpected token none
        hold token
        return acc

/-- Pipelines joined by `&&` and `||`, which bind alike and to the left. -/
def readAndOr : Nat → Reads Tree
  | 0 => fail "too long"
  | fuel + 1 => do
    let first ← readPipeline fuel false
    joinAndOr fuel first

/-- What is joined to a command by `&&` and `||`. -/
def joinAndOr : Nat → Tree → Reads Tree
  | 0, _ => fail "too long"
  | fuel + 1, first => do
    match ← readToken fuel false false with
    | .operator "&&" =>
      let second ← readPipeline fuel true
      joinAndOr fuel (.conjunction first second)
    | .operator "||" =>
      let second ← readPipeline fuel true
      joinAndOr fuel (.disjunction first second)
    | token =>
      hold token
      return first

/-- Commands joined by `|`, perhaps negated. -/
def readPipeline : Nat → Bool → Reads Tree
  | 0, _ => fail "too long"
  | fuel + 1, lines => do
    let token ← readToken fuel true lines
    let negated := token matches .keyword "!"
    if !negated then hold token
    let first ← readCommand fuel true false
    let stages ← readStages fuel [first]
    let command := match stages with
      | [command] => command
      | stages => .pipeline stages
    return if negated then .negation command else command

/-- The stages of a pipeline, after those read so far. -/
def readStages : Nat → List Tree → Reads (List Tree)
  | 0, _ => fail "too long"
  | fuel + 1, acc => do
    match ← readToken fuel false false with
    | .operator "|" =>
      let stage ← readCommand fuel true true
      readStages fuel (acc ++ [stage])
    | token =>
      hold token
      return acc

def expectKeyword : Nat → Bool → String → Reads Unit
  | 0, _, _ => fail "too long"
  | fuel + 1, lines, text => do
    match ← readToken fuel true lines with
    | .keyword found =>
      if found ≠ text then unexpected (.keyword found) (some (.keyword text))
    | token => unexpected token (some (.keyword text))

def readCommand : Nat → Bool → Bool → Reads Tree
  | 0, _, _ => fail "too long"
  | fuel + 1, keywords, lines => do
    let token ← readToken fuel keywords lines
    let line := (← get).line
    let finish (command : Tree) : Reads Tree := do
      match ← readRedirections fuel [] with
      | [] => return command
      | redirections =>
        match command with
        | .subshell line commands _ => return .subshell line commands redirections
        | command => return .redirected line command redirections
    match token with
    | .keyword "if" =>
      let command ← readConditional fuel
      finish command
    | .keyword "while" | .keyword "until" =>
      let condition ← readList fuel false false []
      expectKeyword fuel false "do"
      let body ← readList fuel false false []
      expectKeyword fuel false "done"
      finish (.loop condition body (token matches .keyword "while"))
    | .keyword "for" =>
      let name ← match ← readToken fuel false false with
        | .word word =>
          match Word.plain? word with
          | some text => if isName text then pure text else fail "Bad for loop variable"
          | none => fail "Bad for loop variable"
        | _ => fail "Bad for loop variable"
      let words ← match ← readToken fuel true true with
        | .keyword "in" => some <$> readWords fuel []
        | .operator ";" => pure none
        | token => do
          hold token
          pure none
      expectKeyword fuel true "do"
      let body ← readList fuel false false []
      expectKeyword fuel false "done"
      finish (.each line name words body)
    | .keyword "case" =>
      match ← readToken fuel false false with
      | .word subject =>
        expectKeyword fuel true "in"
        let branches ← readBranches fuel []
        finish (.choice line subject branches)
      | token => unexpected token (some (.word []))
    | .operator "(" =>
      let commands ← readList fuel false false []
      match ← readToken fuel false false with
      | .operator ")" => finish (.subshell line commands [])
      | token => unexpected token (some (.operator ")"))
    | .keyword "\x7b" =>
      let commands ← readList fuel false false []
      expectKeyword fuel false "\x7d"
      finish (.group commands)
    | .word _ | .redirection _ =>
      hold token
      readSimple fuel line true [] [] []
    | token => unexpected token none

/-- The rest of a conditional, from its condition on. -/
def readConditional : Nat → Reads Tree
  | 0 => fail "too long"
  | fuel + 1 => do
    let condition ← readList fuel false false []
    expectKeyword fuel false "then"
    let yes ← readList fuel false false []
    match ← readToken fuel true false with
    | .keyword "elif" =>
      let no ← readConditional fuel
      return .conditional condition yes [no]
    | .keyword "else" =>
      let no ← readList fuel false false []
      expectKeyword fuel false "fi"
      return .conditional condition yes no
    | .keyword "fi" => return .conditional condition yes []
    | token => unexpected token (some (.keyword "fi"))

/-- The words of a loop, after those read so far. -/
def readWords : Nat → List Word → Reads (List Word)
  | 0, _ => fail "too long"
  | fuel + 1, acc => do
    match ← readToken fuel false false with
    | .word word => readWords fuel (acc ++ [word])
    | .newline =>
      readDocuments fuel
      return acc
    | .operator ";" => return acc
    | token => unexpected token none

/-- The branches of a choice, after those read so far, with the keyword that ends it. -/
def readBranches : Nat → List (List Word × List Tree) → Reads (List (List Word × List Tree))
  | 0, _ => fail "too long"
  | fuel + 1, acc => do
    match ← readToken fuel true true with
    | .keyword "esac" => return acc
    | token =>
      let token ← if token matches .operator "(" then readToken fuel false false else pure token
      let patterns ← readPatterns fuel token []
      let body ← readList fuel false true []
      let acc := acc ++ [(patterns, body)]
      match ← readToken fuel true true with
      | .keyword "esac" => return acc
      | .operator ";;" => readBranches fuel acc
      | token => unexpected token (some (.operator ";;"))

/-- The patterns of a branch, from a token on, with the parenthesis that ends them. -/
def readPatterns : Nat → Token → List Word → Reads (List Word)
  | 0, _, _ => fail "too long"
  | fuel + 1, token, acc => do
    let pattern : Word := match token with
      | .word word => word
      | .keyword text => [.text text false]
      | _ => []
    match ← readToken fuel false false with
    | .operator "|" =>
      let next ← readToken fuel false false
      readPatterns fuel next (acc ++ [pattern])
    | .operator ")" => return acc ++ [pattern]
    | token => unexpected token (some (.operator ")"))

/-- A simple command or the definition of a function, after what has been read of it.  Assignments
come before words. -/
def readSimple : Nat → Nat → Bool → List (String × Word) → List Word → List Redirection →
    Reads Tree
  | 0, _, _, _, _, _ => fail "too long"
  | fuel + 1, line, assigning, assignments, words, redirections => do
    match ← readToken fuel false false with
    | .word word =>
      match assigning, assignment? word with
      | true, some a => readSimple fuel line true (assignments ++ [a]) words redirections
      | _, _ => readSimple fuel line false assignments (words ++ [word]) redirections
    | .redirection mark =>
      let redirection ← readTarget fuel mark
      readSimple fuel line assigning assignments words (redirections ++ [redirection])
    | .operator "(" =>
      match assignments, words, redirections with
      | [], [word], [] =>
        match ← readToken fuel false false with
        | .operator ")" =>
          match Word.plain? word with
          | some name =>
            if !isName name || specialNames.contains name then fail "Bad function name"
            let line := (← get).line
            let body ← readCommand fuel true true
            return .definition line name body
          | none => fail "Bad function name"
        | token => unexpected token (some (.operator ")"))
      | _, _, _ =>
        hold (.operator "(")
        return .simple line assignments words redirections
    | token =>
      hold token
      return .simple line assignments words redirections

end

namespace Script

/-- The word that a text is when all of it is quoted; a text that cannot be read stands for
itself. -/
def quotedWord (text : String) : Word :=
  let r : Reader := { rest := text.toList }
  match (readParts (32 * (text.length + 32)) .document []).run r with
  | .ok (word, _) => word
  | .error _ => [.text text true]

def patience (r : Reader) : Nat :=
  32 * (r.rest.length + 32)

/-- The commands of the next line that has not been read; `none` at the end of the script. -/
def next? (r : Reader) : Except SyntaxFault (Option (List Tree) × Reader) := do
  let (first, r) ← (readToken (patience r) true false).run r
  match first with
  | .finish => return (none, r)
  | token =>
    let (commands, r) ← (readList (patience r) true false []).run { r with held := some token }
    return (some commands, r)

end Script

end DeviceLab.Shell
