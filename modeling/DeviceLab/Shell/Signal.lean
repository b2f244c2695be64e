namespace DeviceLab.Shell

def signalNames : List String :=
  ["EXIT", "HUP", "INT", "QUIT", "ILL", "TRAP", "ABRT", "BUS", "FPE", "KILL", "USR1", "SEGV", "USR2",
    "PIPE", "ALRM", "TERM", "STKFLT", "CHLD", "CONT", "STOP", "TSTP", "TTIN", "TTOU", "URG", "XCPU",
    "XFSZ", "VTALRM", "PROF", "WINCH", "POLL", "PWR", "SYS"]

def terminate : Nat := 15

def killSignal : Nat := 9

def maxSignal : Nat := 64

def signalNumber? (text : String) : Option Nat :=
  if text.toList.isEmpty || !text.toList.all Char.isDigit then none
  else match text.toNat? with
    | some n => if n ≤ maxSignal then some n else none
    | none => none

def signal? (text : String) : Option Nat :=
  match signalNumber? text with
  | some n => some n
  | none => signalNames.findIdx? (· == text.map Char.toUpper)

def signalName (number : Nat) : String :=
  (signalNames[number]?).getD (toString number)

/-- What a signal does to a process that has made no provision for it. -/
inductive SignalEffect
  | nothing
  | stop
  | finish
  deriving Repr, DecidableEq

def signalEffect (number : Nat) : SignalEffect :=
  if [0, 17, 18, 23, 28].contains number then .nothing
  else if [19, 20, 21, 22].contains number then .stop
  else .finish

def signalStatus (number : Nat) : Nat :=
  128 + number

end DeviceLab.Shell
