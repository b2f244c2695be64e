import DeviceLab.Text.Utf8

namespace DeviceLab.Text

/-- Where a reader of terminal output stands. -/
inductive TerminalState
  | text
  | escape
  | intermediate
  | control
  | command
  | device
  | deviceParameter
  | deviceIntermediate
  | hidden
  deriving Repr, DecidableEq

/-- Whether a control character is white space that is shown. -/
def isShownControl (c : Char) : Bool :=
  c == '\t' || c == '\n' || c == '\x0c' || c == '\r'

/-- Whether the byte that ends a string is among the bytes of a character. -/
def endsString (c : Char) : Bool :=
  (encode (String.singleton c)).contains 0x9C

/-- Where the reader stands after `c`, and whether `c` is shown. -/
def TerminalState.next (s : TerminalState) (c : Char) : TerminalState × Bool :=
  let n := c.toNat
  if n = 0x1B then (.escape, false)
  else if n = 0x18 ∨ n = 0x1A then (.text, false)
  else match s with
    | .text => (.text, (0x20 ≤ n && n != 0x7F) || isShownControl c)
    | .escape =>
      if n < 0x20 then (if isShownControl c then .text else .escape, isShownControl c)
      else if n < 0x30 then (.intermediate, false)
      else if c == '[' then (.control, false)
      else if c == ']' then (.command, false)
      else if c == 'P' then (.device, false)
      else if c == 'X' || c == '^' || c == '_' then (.hidden, false)
      else if n < 0x7F then (.text, false)
      else (.escape, false)
    | .intermediate =>
      if n < 0x20 then (if isShownControl c then .text else .intermediate, isShownControl c)
      else if n < 0x30 then (.intermediate, false)
      else if n < 0x7F then (.text, false)
      else (.intermediate, false)
    | .control =>
      if n < 0x20 then (if isShownControl c then .text else .control, isShownControl c)
      else if n < 0x40 then (.control, false)
      else if n < 0x7F then (.text, false)
      else (.control, false)
    | .command => (if n = 0x07 then .text else .command, false)
    | .device =>
      if n < 0x20 then (.device, false)
      else if n < 0x30 then (.deviceIntermediate, false)
      else if n < 0x40 then (if c == ':' then .hidden else .deviceParameter, false)
      else if n < 0x7F then (.hidden, false)
      else (.device, false)
    | .deviceParameter =>
      if n < 0x20 then (.deviceParameter, false)
      else if n < 0x30 then (.deviceIntermediate, false)
      else if n < 0x40 then (if c.isDigit || c == ';' then .deviceParameter else .hidden, false)
      else if n < 0x7F then (.hidden, false)
      else (.deviceParameter, false)
    | .deviceIntermediate =>
      if n < 0x30 then (.deviceIntermediate, false)
      else if n < 0x7F then (.hidden, false)
      else (.deviceIntermediate, false)
    | .hidden => (if endsString c then .text else .hidden, false)

/-- What is shown of a text by a reader who stands at `s`. -/
def shownFrom (s : TerminalState) : List Char → List Char
  | [] => []
  | c :: cs =>
    let (next, shows) := s.next c
    if shows then c :: shownFrom next cs else shownFrom next cs

def shown (cs : List Char) : List Char :=
  shownFrom .text cs

/-- What is shown of a text that stands in a style of its own: where the style ends, so does
whatever its text has begun to hide. -/
def styled (text : String) : String :=
  String.ofList (shown text.toList)

end DeviceLab.Text
