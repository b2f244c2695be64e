import DeviceLab.Shell.Arithmetic

namespace DeviceLab.Shell

def isOctal (c : Char) : Bool :=
  '0' ≤ c && c ≤ '7'

/-- The character that a letter stands for after a backslash. -/
def escaped? (c : Char) : Option Char :=
  match c with
  | '\\' => some '\\'
  | 'a' => some '\x07'
  | 'b' => some '\x08'
  | 'f' => some '\x0c'
  | 'n' => some '\n'
  | 'r' => some '\r'
  | 't' => some '\t'
  | 'v' => some '\x0b'
  | _ => none

def octalCharacter (digits : List Char) : Char :=
  Char.ofNat (ofDigits 8 digits % 256)

/-- The character that stands after a backslash, and what follows; a backslash that begins no escape
stands for itself. -/
def readEscape (cs : List Char) : Char × List Char :=
  match cs with
  | [] => ('\\', [])
  | c :: rest =>
    if isOctal c then
      let digits := (cs.take 3).takeWhile isOctal
      (octalCharacter digits, cs.drop digits.length)
    else match escaped? c with
      | some e => (e, rest)
      | none => ('\\', cs)

/-- A text with its escapes worked off; the flag tells whether it ended at a `\c`. -/
def unescape : Nat → List Char → List Char × Bool
  | 0, _ => ([], false)
  | _, [] => ([], false)
  | fuel + 1, c :: cs =>
    let next (c : Char) (rest : List Char) : List Char × Bool :=
      let (more, ended) := unescape fuel rest
      (c :: more, ended)
    if c ≠ '\\' then next c cs
    else match cs with
      | 'c' :: _ => ([], true)
      | '0' :: d :: rest =>
        let (e, rest) := readEscape (if isOctal d then d :: rest else '0' :: d :: rest)
        next e rest
      | cs =>
        let (e, rest) := readEscape cs
        next e rest

/-- A text with its escapes worked off, and whether it ended at a `\c`. -/
def unescaped (text : String) : String × Bool :=
  let (cs, ended) := unescape (text.length + 1) text.toList
  (String.ofList cs, ended)

/-- What `echo` writes. -/
def echoText (args : List String) : String :=
  let (args, quiet) := match args with
    | "-n" :: rest => (rest, true)
    | args => (args, false)
  let rec go (quiet : Bool) : List String → String
    | [] => if quiet then "" else "\n"
    | [last] =>
      let (text, ended) := unescaped last
      if quiet || ended then text else text ++ "\n"
    | first :: rest =>
      let (text, ended) := unescaped first
      text ++ " " ++ go (quiet || ended) rest
  go quiet args

/-- How a value is laid out. -/
structure Layout where
  left : Bool := false
  plus : Bool := false
  space : Bool := false
  alternative : Bool := false
  zeros : Bool := false
  width : Nat := 0
  precision : Option Nat := none
  deriving Repr, DecidableEq, Inhabited

namespace Layout

def withFlag (l : Layout) (c : Char) : Layout :=
  match c with
  | '-' => { l with left := true }
  | '+' => { l with plus := true }
  | ' ' => { l with space := true }
  | '#' => { l with alternative := true }
  | '0' => { l with zeros := true }
  | _ => l

/-- A layout with a width, which a minus sign turns to the left. -/
def withWidth (l : Layout) (width : Int) : Layout :=
  if width < 0 then { l with left := true, width := width.natAbs } else { l with width := width.toNat }

def fill (l : Layout) (text : String) : String :=
  let spaces := String.ofList (List.replicate (l.width - text.length) ' ')
  if l.left then text ++ spaces else spaces ++ text

/-- A text, cut and filled up. -/
def text (l : Layout) (text : String) : String :=
  l.fill (match l.precision with
    | some n => String.ofList (text.toList.take n)
    | none => text)

/-- Digits with what stands before them, filled up with zeros or spaces. -/
def digits (l : Layout) (before digits : String) : String :=
  let digits := match l.precision with
    | some 0 => if digits = "0" then "" else digits
    | some n => String.ofList (List.replicate (n - digits.length) '0') ++ digits
    | none => digits
  if l.zeros && !l.left && l.precision.isNone then
    let zeros := List.replicate (l.width - before.length - digits.length) '0'
    before ++ String.ofList zeros ++ digits
  else l.fill (before ++ digits)

def sign (l : Layout) (negative : Bool) : String :=
  if negative then "-" else if l.plus then "+" else if l.space then " " else ""

def integer (l : Layout) (n : Int) : String :=
  l.digits (l.sign (n < 0)) (toString n.natAbs)

def natural (l : Layout) (base : Nat) (upper : Bool) (n : Nat) : String :=
  let digits := String.ofList (Nat.toDigits base n)
  let digits := if upper then digits.map Char.toUpper else digits
  let before :=
    if !l.alternative || n = 0 then ""
    else if base = 16 then (if upper then "0X" else "0x")
    else if base = 8 then "0"
    else ""
  l.digits before digits

end Layout

/-- A fraction of two natural numbers with a sign. -/
structure Ratio where
  negative : Bool := false
  above : Nat
  below : Nat
  deriving Repr, DecidableEq, Inhabited

/-- A quotient rounded to the nearest number, a half to the even one. -/
def roundedQuotient (a b : Nat) : Nat :=
  let q := a / b
  let twice := 2 * (a % b)
  if twice < b ∨ (twice = b ∧ q % 2 = 0) then q else q + 1

/-- The fraction that a decimal stands for once it is held in 64 bits. -/
def ratioOfDecimal (negative : Bool) (mantissa : Nat) (exponent : Int) : Ratio :=
  let bits := (Float.ofScientific mantissa (exponent < 0) exponent.natAbs).toBits.toNat
  let power := bits / 4503599627370496 % 2048
  let fraction := bits % 4503599627370496
  let (m, e) : Nat × Int :=
    if power = 0 then (fraction, -1074) else (fraction + 4503599627370496, Int.ofNat power - 1075)
  if e < 0 then { negative, above := m, below := Nat.pow 2 e.natAbs }
  else { negative, above := m * Nat.pow 2 e.toNat, below := 1 }

def Ratio.fixed (r : Ratio) (places : Nat) : String :=
  let scaled := roundedQuotient (r.above * Nat.pow 10 places) r.below
  let digits := toString scaled
  let digits := String.ofList (List.replicate (places + 1 - digits.length) '0') ++ digits
  if places = 0 then digits
  else
    let cs := digits.toList
    String.ofList (cs.take (cs.length - places)) ++ "." ++ String.ofList (cs.drop (cs.length - places))

/-- The digits of a fraction rounded to one digit before the point and some places after it, and the
power of ten that they are multiplied with. -/
def Ratio.rounded (r : Ratio) (places : Nat) : Nat × Int :=
  if r.above = 0 then (0, 0)
  else
    let shifted (n : Nat) (power : Int) : Nat := n * Nat.pow 10 power.toNat
    let reaches (e : Int) : Bool := shifted r.above (-e) ≥ shifted r.below e
    let guess := Int.ofNat (toString r.above).length - Int.ofNat (toString r.below).length
    let e := if reaches guess then guess else guess - 1
    let digitsAt (e : Int) : Nat :=
      let power := Int.ofNat places - e
      roundedQuotient (shifted r.above power) (shifted r.below (-power))
    let n := digitsAt e
    if n ≥ Nat.pow 10 (places + 1) then (digitsAt (e + 1), e + 1) else (n, e)

/-- A fraction with one digit before the point and a power of ten after the places. -/
def Ratio.scientific (r : Ratio) (places : Nat) : String :=
  let (n, e) := r.rounded places
  let digits := (toString n).toList
  let digits := digits ++ List.replicate (places + 1 - digits.length) '0'
  let power := toString e.natAbs
  let power := if power.length < 2 then "0" ++ power else power
  String.ofList (digits.take 1) ++ (if places = 0 then "" else "." ++ String.ofList (digits.drop 1)) ++
    (if e < 0 then "e-" else "e+") ++ power

def withoutZeros (text : String) : String :=
  if !text.toList.contains '.' then text
  else
    let cs := text.toList.reverse.dropWhile (· == '0')
    String.ofList (cs.dropWhile (· == '.')).reverse

/-- A fraction with a number of digits, in the shorter of both ways. -/
def Ratio.general (r : Ratio) (digits : Nat) (keepsZeros : Bool) : String :=
  let digits := max 1 digits
  let e := (r.rounded (digits - 1)).2
  if -4 ≤ e && e < Int.ofNat digits then
    let text := r.fixed (Int.ofNat digits - 1 - e).toNat
    if keepsZeros then text else withoutZeros text
  else
    let cs := (r.scientific (digits - 1)).toList
    let before := String.ofList (cs.takeWhile (· != 'e'))
    let after := String.ofList (cs.dropWhile (· != 'e'))
    (if keepsZeros then before else withoutZeros before) ++ after

/-- The decimal at the start of a text, and what stands after it; where there is none, the whole
text stands after it. -/
def readDecimal (cs : List Char) : Ratio × List Char :=
  let start := cs.dropWhile fun c => c == ' ' || (0x09 ≤ c.toNat && c.toNat ≤ 0x0D)
  let (negative, body) := match start with
    | '-' :: rest => (true, rest)
    | '+' :: rest => (false, rest)
    | rest => (false, rest)
  let whole := body.takeWhile Char.isDigit
  let rest := body.drop whole.length
  let (places, rest) := match rest with
    | '.' :: more => (more.takeWhile Char.isDigit, more.dropWhile Char.isDigit)
    | rest => ([], rest)
  if whole.isEmpty && places.isEmpty then ({ above := 0, below := 1 }, cs)
  else
    let (power, rest) : Int × List Char := match rest with
      | e :: more =>
        if e = 'e' ∨ e = 'E' then
          let (minus, digits) := match more with
            | '-' :: digits => (true, digits)
            | '+' :: digits => (false, digits)
            | digits => (false, digits)
          let power := digits.takeWhile Char.isDigit
          if power.isEmpty then (0, rest)
          else
            let n := Int.ofNat (min (ofDigits 10 power) 400)
            (if minus then -n else n, digits.drop power.length)
        else (0, rest)
      | [] => (0, rest)
    (ratioOfDecimal negative (ofDigits 10 (whole ++ places)) (power - Int.ofNat places.length), rest)

/-- What a format has come to: what it writes, the complaints on the way, the arguments left, and
whether it has ended for good. -/
structure Formatting where
  text : String := ""
  complaints : List String := []
  args : List String := []
  ended : Bool := false
  refusal : Option String := none
  deriving Repr, Inhabited

namespace Formatting

def next (f : Formatting) : Option String × Formatting :=
  (f.args.head?, { f with args := f.args.drop 1 })

def say (f : Formatting) (text : String) : Formatting :=
  { f with text := f.text ++ text }

/-- Complain of an argument of which only a part is a number. -/
def judge (f : Formatting) (arg : String) (rest : List Char) (fitting : Bool) : Formatting :=
  let complaint :=
    if rest.isEmpty then
      if fitting then none else some s!"{arg}: Numerical result out of range"
    else if rest.length = arg.length then some s!"{arg}: expected numeric value"
    else some s!"{arg}: not completely converted"
  { f with complaints := f.complaints ++ complaint.toList }

/-- The number that the next argument stands for; after a quote it is that of a character. -/
def number (f : Formatting) : Int × Formatting :=
  match f.next with
  | (none, f) => (0, f)
  | (some arg, f) =>
    match arg.toList with
    | '\'' :: cs | '"' :: cs => (Int.ofNat ((cs.head?.map Char.toNat).getD 0), f)
    | cs =>
      let (n, rest) := readSigned cs
      let inRange := -(Int.ofNat (wordSize / 2)) ≤ n && n < Int.ofNat wordSize
      (n, f.judge arg rest inRange)

/-- The width or precision that stands in a format or that an argument gives. -/
def size (f : Formatting) (cs : List Char) : Option Int × Formatting × List Char :=
  match cs with
  | '*' :: rest =>
    let (n, f) := f.number
    (some n, f, rest)
  | cs =>
    let digits := cs.takeWhile Char.isDigit
    (if digits.isEmpty then none else some (Int.ofNat (ofDigits 10 digits)), f,
      cs.drop digits.length)

def direct (f : Formatting) (l : Layout) (c : Char) (written : String) : Formatting :=
  match c with
  | 's' =>
    let (arg, f) := f.next
    f.say (l.text (arg.getD ""))
  | 'b' =>
    let (arg, f) := f.next
    let (text, ended) := unescaped (arg.getD "")
    { f.say (l.text text) with ended }
  | 'c' =>
    let (arg, f) := f.next
    f.say (l.fill (String.singleton (((arg.getD "").toList.head?).getD '\x00')))
  | 'd' | 'i' =>
    let (n, f) := f.number
    f.say (l.integer (clamp n))
  | 'u' | 'o' | 'x' | 'X' =>
    let (n, f) := f.number
    let n := if n < 0 then (n.emod wordSize).toNat else min n.toNat (wordSize - 1)
    let base := if c = 'u' then 10 else if c = 'o' then 8 else 16
    f.say (l.natural base (c == 'X') n)
  | 'f' | 'F' | 'e' | 'E' | 'g' | 'G' =>
    let (arg, f) := f.next
    let arg := arg.getD "0"
    let (r, rest) := readDecimal arg.toList
    let f := f.judge arg rest true
    let places := (l.precision).getD 6
    let text := match c with
      | 'e' | 'E' => r.scientific places
      | 'g' | 'G' => r.general places l.alternative
      | _ => r.fixed places
    f.say ({ l with precision := none }.digits (l.sign r.negative)
      (if c.isUpper then text.map Char.toUpper else text))
  | _ => { f with refusal := some s!"{written}: invalid directive" }

def pass : Nat → List Char → Formatting → Formatting
  | 0, _, f => f
  | _, [], f => f
  | fuel + 1, c :: cs, f =>
    if f.ended || f.refusal.isSome then f
    else if c = '\\' then
      let (e, rest) := readEscape cs
      pass fuel rest (f.say (String.singleton e))
    else if c ≠ '%' then pass fuel cs (f.say (String.singleton c))
    else match cs with
      | '%' :: rest => pass fuel rest (f.say "%")
      | cs =>
        let flags := cs.takeWhile fun c => ['#', '-', '+', ' ', '0'].contains c
        let l := flags.foldl Layout.withFlag {}
        let (width, f, rest) := f.size (cs.drop flags.length)
        let l := l.withWidth (width.getD 0)
        let (l, f, rest) := match rest with
          | '.' :: rest =>
            let (precision, f, rest) := f.size rest
            let n := precision.getD 0
            ({ l with precision := if n < 0 then none else some n.toNat }, f, rest)
          | rest => (l, f, rest)
        match rest with
        | [] => { f with refusal := some "missing format character" }
        | c :: rest =>
          let written := String.ofList ('%' :: cs.take (cs.length - rest.length))
          pass fuel rest (f.direct l c written)

/-- Work a format off, again and again as long as there are arguments. -/
def run (format : List Char) : Nat → Formatting → Formatting
  | 0, f => f
  | fuel + 1, f =>
    let after := pass (format.length + 1) format f
    if after.ended || after.refusal.isSome || after.args.isEmpty then after
    else if after.args.length = f.args.length then after
    else run format fuel after

end Formatting

/-- What `printf` writes, and what it complains of. -/
def formatted (format : String) (args : List String) : Formatting :=
  Formatting.run format.toList (args.length + 1) { args }

end DeviceLab.Shell
