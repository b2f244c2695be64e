namespace DeviceLab.Text

def maxNatural64 : Nat := 0xFFFFFFFFFFFFFFFF

def maxNatural32 : Nat := 0xFFFFFFFF

def maxInteger64 : Nat := 0x7FFFFFFFFFFFFFFF

def maxInteger32 : Nat := 0x7FFFFFFF

/-- Why a text is not a numeral within its bounds. -/
inductive NumeralFault
  | empty
  | invalidDigit
  | tooLarge
  | tooSmall
  deriving Repr, DecidableEq

def NumeralFault.message : NumeralFault → String
  | .empty => "cannot parse integer from empty string"
  | .invalidDigit => "invalid digit found in string"
  | .tooLarge => "number too large to fit in target type"
  | .tooSmall => "number too small to fit in target type"

/-- Continue reading digits onto `value`; `beyond` is the fault of exceeding `max`. -/
def readDigits (max : Nat) (beyond : NumeralFault) (value : Nat) :
    List Char → Except NumeralFault Nat
  | [] => .ok value
  | c :: cs =>
    if c.isDigit then
      let next := value * 10 + (c.toNat - '0'.toNat)
      if next ≤ max then readDigits max beyond next cs else .error beyond
    else .error .invalidDigit

/-- A natural number of at most `max`. -/
def readNatural (max : Nat) : List Char → Except NumeralFault Nat
  | [] => .error .empty
  | ['+'] => .error .invalidDigit
  | '+' :: digits => readDigits max .tooLarge 0 digits
  | digits => readDigits max .tooLarge 0 digits

/-- An integer between `-(max + 1)` and `max`. -/
def readInteger (max : Nat) : List Char → Except NumeralFault Int
  | [] => .error .empty
  | ['+'] => .error .invalidDigit
  | ['-'] => .error .invalidDigit
  | '+' :: digits => (readDigits max .tooLarge 0 digits).map Int.ofNat
  | '-' :: digits => (readDigits (max + 1) .tooSmall 0 digits).map fun n => -Int.ofNat n
  | digits => (readDigits max .tooLarge 0 digits).map Int.ofNat

theorem readDigits_le {max : Nat} {beyond : NumeralFault} {value : Nat} {cs : List Char} {n : Nat}
    (hvalue : value ≤ max) (h : readDigits max beyond value cs = .ok n) : n ≤ max := by
  induction cs generalizing value with
  | nil =>
    simp only [readDigits, Except.ok.injEq] at h
    omega
  | cons c cs ih =>
    simp only [readDigits] at h
    split at h
    · split at h
      · next hnext => exact ih hnext h
      · simp at h
    · simp at h

end DeviceLab.Text
