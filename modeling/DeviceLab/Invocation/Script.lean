import DeviceLab.Clock
import DeviceLab.Command.Configuration
import DeviceLab.Invocation.Outcome

/-!
Invocations as scripts.

All that an invocation does that others can see is: it takes time, changes its device, asks for
follow-up commands, and ends.  A script lists this in order.  Between two pauses everything happens
at one instant; such a stretch is a burst.
-/

namespace DeviceLab

/-- What an invocation does before it ends.  Pauses are in milliseconds. -/
inductive Action
  | pause (time : Nat)
  | edit (change : DeviceEdit)
  | reschedule (args : List String) (selection : Option Selection)
  deriving DecidableEq

def Action.sleep (time : Nat) : Action :=
  .pause (sleepTime time)

/-- All that an invocation does. -/
structure Script where
  actions : List Action := []
  ending : Ending := .ok
  deriving DecidableEq, Inhabited

/-- A follow-up command that a run asks for.  It inherits the command file for display, and the
device constraints unless others are given. -/
structure FollowUp where
  args : List String
  selection : Selection
  file : Option Path
  deriving DecidableEq, Inhabited

/-- What follow-up commands inherit, and whether somebody still takes them. -/
structure Rescheduler where
  selection : Selection := {}
  file : Option Path := none
  accepts : Bool := true
  deriving DecidableEq, Inhabited

def Rescheduler.followUp (r : Rescheduler) (args : List String) (selection : Option Selection) :
    FollowUp :=
  { args, selection := selection.getD r.selection, file := r.file }

/-- The follow-up commands that are taken of those asked for. -/
def Rescheduler.sent (r : Rescheduler) (requests : List FollowUp) : List FollowUp :=
  if r.accepts then requests else []

/-- What happens between two pauses: the device afterwards, the follow-up commands asked for, and
the pause after which the rest of the actions goes on; `none` when nothing is left. -/
structure Burst where
  device : Device
  requests : List FollowUp := []
  rest : Option (Nat × List Action) := none
  deriving DecidableEq

def burst (r : Rescheduler) (d : Device) : List Action → Burst
  | [] => { device := d }
  | .pause time :: rest =>
    if time = 0 then burst r d rest else { device := d, rest := some (time, rest) }
  | .edit change :: rest => burst r (d.edit change) rest
  | .reschedule args selection :: rest =>
    let after := burst r d rest
    { after with requests := r.followUp args selection :: after.requests }

theorem burst_rest_length {r : Rescheduler} {d : Device} {actions : List Action} {time : Nat}
    {rest : List Action} (h : (burst r d actions).rest = some (time, rest)) :
    rest.length < actions.length := by
  fun_induction burst r d actions with
  | case1 => simp at h
  | case2 d rest' ih =>
    have := ih h
    simp only [List.length_cons]
    omega
  | case3 d time' rest' hpos =>
    simp only [Option.some.injEq, Prod.mk.injEq] at h
    simp [h.2]
  | case4 d change rest' ih =>
    have := ih h
    simp only [List.length_cons]
    omega
  | case5 d args selection rest' after ih =>
    have := ih h
    simp only [List.length_cons]
    omega

@[simp] theorem burst_device_serial (r : Rescheduler) (d : Device) (actions : List Action) :
    (burst r d actions).device.serial = d.serial := by
  fun_induction burst r d actions with
  | case1 => rfl
  | case2 d rest ih => exact ih
  | case3 => rfl
  | case4 d change rest ih => simpa using ih
  | case5 d args selection rest after ih => exact ih

end DeviceLab
