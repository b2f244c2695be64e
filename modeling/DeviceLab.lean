import DeviceLab.Device.Desk
import DeviceLab.Main
import DeviceLab.Proofs.Device.Conservation
import DeviceLab.Proofs.Scheduler.Survival
import DeviceLab.Proofs.Command.Rendering
import DeviceLab.Proofs.Queue.Diff
import DeviceLab.Proofs.Queue.Groups
import DeviceLab.Proofs.Scheduler.Provenance
import DeviceLab.Proofs.Scheduler.Reload
import DeviceLab.Proofs.Scheduler.Deeds
import DeviceLab.Proofs.Scheduler.Notices
import DeviceLab.Proofs.Scheduler.Invoked
import DeviceLab.Proofs.Scheduler.Shutdown
import DeviceLab.Proofs.Scheduler.Interleaving
import DeviceLab.Proofs.Scheduler.Accounts
import DeviceLab.Proofs.Scheduler.Draining
import DeviceLab.Proofs.Scheduler.Admission
import DeviceLab.Proofs.Scheduler.Budget
import DeviceLab.Proofs.Invocation.Bursts
import DeviceLab.Proofs.Scheduler.Execution
import DeviceLab.Proofs.Scheduler.Pace
import DeviceLab.Proofs.Scheduler.Constraints
import DeviceLab.Proofs.Device.Rotation
import DeviceLab.Proofs.Scheduler.Refusals
import DeviceLab.Proofs.Watcher.Registration
import DeviceLab.Proofs.Watcher.Settling
import DeviceLab.Proofs.Scheduler.Loads
import DeviceLab.Proofs.CommandFile.Sources
import DeviceLab.Proofs.Watcher.Fingerprint
import DeviceLab.Proofs.Watcher.Checks
import DeviceLab.Proofs.Watcher.Edits
import DeviceLab.Proofs.Command.Partition
import DeviceLab.Proofs.Queue.Plan
import DeviceLab.Proofs.Device.Inventory
import DeviceLab.Proofs.Command.Acceptance
import DeviceLab.Proofs.CommandFile.Writing
import DeviceLab.Proofs.Device.Returns
import DeviceLab.Proofs.Device.Resizing
import DeviceLab.Proofs.Device.FirstChance
import DeviceLab.Proofs.Scheduler.LineByLine
import DeviceLab.Proofs.Command.Classes
import DeviceLab.Proofs.CommandFile.Macros
import DeviceLab.Proofs.CommandFile.Passages
import DeviceLab.Proofs.CommandFile.Progress
import DeviceLab.Proofs.FileTree.Neighbours
import DeviceLab.Proofs.FileTree.Walks
import DeviceLab.Proofs.CommandFile.Nesting
import DeviceLab.Proofs.CommandFile.Inclusion
import DeviceLab.Proofs.CommandFile.Depth
import DeviceLab.Proofs.CommandFile.Comments
import DeviceLab.Proofs.Watcher.Delimiters
import DeviceLab.Proofs.Queue.Partition
