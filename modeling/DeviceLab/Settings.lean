import DeviceLab.Command.Shard
import DeviceLab.Device.Pool
import DeviceLab.Invocation.Runner
import DeviceLab.Scheduler.Basic

/-!
Settings of the program.

The inventory is listed device by device, and a number of null devices is generated on top of it.
-/

namespace DeviceLab

/-- All that can be set.  Times are in milliseconds. -/
structure Settings where
  logLevel : Option String := some "info"
  scheduler : SchedulerSettings := {}
  reloadInterval : Nat := 5000
  devices : List Device := []
  nullDevices : Nat := 0
  runner : Runner := {}
  catalog : Catalog := ∅
  deriving DecidableEq, Inhabited

namespace Settings

/-- The pool of the inventory with the generated null devices. -/
def buildPool (settings : Settings) : Pool :=
  let pool := Pool.ofDevices settings.devices
  if settings.nullDevices = 0 then pool else pool.setNullCount settings.nullDevices

end Settings

end DeviceLab
