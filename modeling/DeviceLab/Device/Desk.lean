import DeviceLab.Clock
import DeviceLab.Device.Pool

/-!
A lease desk: named leases over a pool, on a clock.

Errands to come are kept in an agenda.  Only waiting moves the clock: it goes to the next errand or
to the deadline, whichever is first, and an errand due exactly at the deadline comes too late for
the one who waits.  A waiter is woken by every device that becomes free and every registration.
-/

namespace DeviceLab

/-- What somebody else will do to the pool. -/
inductive Errand
  | giveBack (lease : String) (report : ReturnReport)
  | register (device : Device)
  deriving DecidableEq

/-- A pool with its leases, a clock in milliseconds, and the errands to come. -/
structure Desk where
  pool : Pool := {}
  leases : List (String × Device) := []
  now : Nat := 0
  agenda : List (Nat × Errand) := []
  deriving DecidableEq, Inhabited

namespace Desk

def lease? (desk : Desk) (name : String) : Option Device :=
  desk.leases.lookup name

def withoutLease (desk : Desk) (name : String) : Desk :=
  { desk with leases := desk.leases.filter (·.1 != name) }

/-- Hand the device of a lease back, and say which state it got. -/
def giveBack (desk : Desk) (name : String) (report : ReturnReport) : Option SlotState × Desk :=
  match desk.lease? name with
  | none => (none, desk)
  | some d =>
    (some (Pool.returnState d report),
      { desk.withoutLease name with pool := desk.pool.release d report })

/-- Keep a device under a name.  A device already under that name is handed back unreported. -/
def keep (desk : Desk) (name : String) (d : Device) : Desk :=
  let rest := (desk.giveBack name .unknown).2
  { rest with leases := (name, d) :: rest.leases }

def allocate (desk : Desk) (s : Selection) (name : String) : Option String × Desk :=
  match desk.pool.allocate s with
  | none => (none, desk)
  | some (d, pool) => (some d.serial, { desk with pool }.keep name d)

def register (desk : Desk) (d : Device) : Bool × Desk :=
  let (accepted, pool) := desk.pool.register d
  (accepted, { desk with pool })

def edit (desk : Desk) (name : String) (edits : List DeviceEdit) : Option Device × Desk :=
  match desk.lease? name with
  | none => (none, desk)
  | some d =>
    let d := edits.foldl Device.edit d
    (some d, { desk with leases := (name, d) :: (desk.withoutLease name).leases })

/-- Run an errand, and say whether it wakes a waiter. -/
def run (desk : Desk) : Errand → Bool × Desk
  | .giveBack lease report =>
    let (state, desk) := desk.giveBack lease report
    (state == some .free, desk)
  | .register d => desk.register d

/-- An errand entered into the agenda after those due no later. -/
def enter (time : Nat) (errand : Errand) : List (Nat × Errand) → List (Nat × Errand)
  | [] => [(time, errand)]
  | first :: rest =>
    if time < first.1 then (time, errand) :: first :: rest
    else first :: enter time errand rest

/-- Put an errand into the agenda, after a sleep of `delay` milliseconds from now. -/
def plan (desk : Desk) (delay : Nat) (errand : Errand) : Desk :=
  { desk with agenda := enter (desk.now + sleepTime delay) errand desk.agenda }

/-- Run the errands of the agenda up to the deadline.  Once an instant with all its errands has
passed, the waiter goes on if one of them woke it and the pool now is as it wants; `woken` says
whether one did.  At the deadline the clock stops there. -/
def waitUntil (desk : Desk) (deadline : Nat) (done : Pool → Bool) (woken : Bool) :
    List (Nat × Errand) → Desk
  | [] =>
    { desk with
      now := if woken && done desk.pool then desk.now else max desk.now deadline
      agenda := [] }
  | (time, errand) :: rest =>
    if woken && decide (desk.now < time) && done desk.pool then
      { desk with agenda := (time, errand) :: rest }
    else if max desk.now time < deadline then
      let (wakes, next) := { desk with now := max desk.now time }.run errand
      waitUntil next deadline done (wakes || (woken && time ≤ desk.now)) rest
    else { desk with now := max desk.now deadline, agenda := (time, errand) :: rest }

/-- Claim a device, waiting for one at most `timeout` milliseconds, and keep it under a name. -/
def allocateWait (desk : Desk) (s : Selection) (name : String) (timeout : Nat) :
    Option String × Desk :=
  if (desk.pool.candidate? s).isSome then desk.allocate s name
  else (desk.waitUntil (desk.now + timeout) (fun pool => (pool.candidate? s).isSome)
    false desk.agenda).allocate s name

/-- Wait for the next device that becomes free or is registered, at most `timeout` milliseconds. -/
def waitForFree (desk : Desk) (timeout : Nat) : Desk :=
  desk.waitUntil (desk.now + timeout) (fun _ => true) false desk.agenda

end Desk

end DeviceLab
