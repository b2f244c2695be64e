namespace DeviceLab

/-- The longest sleep: thirty years of 365 days. -/
def longestSleep : Nat := 946080000000

def sleepTime (time : Nat) : Nat :=
  min time longestSleep

end DeviceLab
