import DeviceLab.Proofs.Device.Slots
import DeviceLab.Proofs.Invocation.Bursts
import DeviceLab.Scheduler.Basic

namespace DeviceLab

theorem Ending.returnState_report_iff {d : Device} {ending : Ending} :
    Pool.returnState d (ending.report d) = .unavailable ↔
      d.kind = .real ∧
        ((∃ detail serial, ending = .lost detail serial) ∨ d.connection = .notAvailable) := by
  rcases d with ⟨serial, kind, emulator, properties, connection, recovery⟩
  cases kind <;> cases ending <;> cases connection <;>
    simp [Pool.returnState, Device.isPlaceholder, DeviceKind.isPlaceholder, Ending.report]

namespace Executor

theorem notices_stamp (time : Nat) (notices : List Notice) :
    (stamp time notices).map JournalEntry.notice = notices := by
  simp [stamp, Function.comp_def]

theorem play_eq (r : Rescheduler) (time : Nat) (d : Device) (ending : Ending)
    (actions : List Action) :
    let report := play r time d ending actions
    let asked := actions.filterMap (Action.followUp? r)
    report.conclusion = conclude (actions.foldl Device.after d) ending ∧
      report.requests = r.sent asked ∧
      report.journal.map JournalEntry.notice = askedFor r asked := by
  have hsent (front back : List FollowUp) : r.sent (front ++ back) = r.sent front ++ r.sent back := by
    unfold Rescheduler.sent
    split <;> rfl
  fun_induction play r time d ending actions with
  | case1 time d actions b told hrest =>
      obtain ⟨hrequests, hdevice⟩ := burst_end hrest
      simp only [told, b, hrequests, hdevice, notices_stamp, and_self]
  | case2 time d actions b told pause rest hrest after ih =>
      obtain ⟨hrequests, hdevice⟩ := burst_pause hrest
      obtain ⟨hconclusion, hsends, hjournal⟩ := ih
      refine ⟨?_, ?_, ?_⟩
      · rw [← hdevice]
        exact hconclusion
      · rw [← hrequests, hsent]
        exact congrArg _ hsends
      · rw [List.map_append, notices_stamp, hjournal, ← hrequests]
        exact (List.map_append ..).symm

end Executor

namespace Run

/-- The actions that a run has to play yet. -/
def pending (r : Run) (invocation : Configuration → Script) : List Action :=
  match r.phase with
  | .underway _ rest _ => rest
  | .assigned =>
    match Configuration.ofArgs r.entry.command.args with
    | .error _ => []
    | .ok configuration => (invocation configuration).actions

/-- What listeners are told when a run begins: nothing, if its arguments cannot be read. -/
def opening (r : Run) (listeners : List String) : List Notice :=
  match Configuration.ofArgs r.entry.command.args with
  | .error _ => []
  | .ok configuration => Executor.opening listeners r.entry.command r.device configuration

/-- How a run is left that is played from its start. -/
def conclusion (r : Run) (invocation : Configuration → Script) : Executor.Conclusion :=
  match Configuration.ofArgs r.entry.command.args with
  | .error error => Executor.rejected r.device error
  | .ok configuration =>
    let script := invocation configuration
    Executor.conclude (script.deviceAfter r.device) script.ending

def error? (r : Run) : Option ConfigurationError :=
  match Configuration.ofArgs r.entry.command.args with
  | .error error => some error
  | .ok _ => none

def failure (r : Run) (invocation : Configuration → Script) : String :=
  match Configuration.ofArgs r.entry.command.args with
  | .error error => error.message
  | .ok _ => (r.conclusion invocation).outcome.text

def closing (r : Run) (invocation : Configuration → Script) (listeners : List String) :
    List Notice :=
  let c := r.conclusion invocation
  (if c.outcome.isFailure then
    listeners.map (.failed · r.entry.command.args (r.failure invocation)) else []) ++
    listeners.map (.complete · c.device c.report)

/-- Whether the device of a run is not free again afterwards: it is real hardware, and was reported as
lost, or is not available as the invocation left it. -/
def Withheld (r : Run) (invocation : Configuration → Script) : Prop :=
  r.device.kind = .real ∧ ∃ configuration,
    Configuration.ofArgs r.entry.command.args = .ok configuration ∧
    ((∃ detail serial, (invocation configuration).ending = .lost detail serial) ∨
      ((invocation configuration).deviceAfter r.device).connection = .notAvailable)

/-- The slot of a device after a run: it holds the device as the invocation left it, free and to be
recovered fully unless it is withheld. -/
inductive ReturnsTo (r : Run) (invocation : Configuration → Script) : Slot → Prop
  | withheld (h : r.Withheld invocation) :
      ReturnsTo r invocation ⟨r.device.serial, .unavailable, some (r.conclusion invocation).device⟩
  | free (h : ¬r.Withheld invocation) :
      ReturnsTo r invocation ⟨r.device.serial, .free,
        some { (r.conclusion invocation).device with recovery := .available }⟩

def rescheduler (r : Run) : Rescheduler :=
  { selection := r.entry.selection, file := r.entry.command.file }

variable {r : Run} {invocation : Configuration → Script}

theorem conclusion_device_serial : (r.conclusion invocation).device.serial = r.device.serial := by
  unfold conclusion
  split
  · rfl
  · rw [Executor.conclude, Script.deviceAfter_eq, Device.foldl_after_serial]

theorem withheld_iff :
    r.Withheld invocation ↔
      Pool.returnState (r.conclusion invocation).device (r.conclusion invocation).report =
        .unavailable := by
  unfold Withheld conclusion
  cases hargs : Configuration.ofArgs r.entry.command.args with
  | error error =>
      simp [Executor.rejected, Pool.returnState_available]
  | ok configuration =>
      have hkind : ((invocation configuration).deviceAfter r.device).kind = r.device.kind := by
        rw [Script.deviceAfter_eq, Device.foldl_after_kind]
      simp [Executor.conclude, Ending.returnState_report_iff, hkind]

theorem returnsTo (r : Run) (invocation : Configuration → Script) :
    let c := r.conclusion invocation
    r.ReturnsTo invocation ⟨r.device.serial, Pool.returnState c.device c.report,
      some (Pool.returned c.device c.report)⟩ := by
  intro c
  have hwithheld : r.Withheld invocation ↔ Pool.returnState c.device c.report = .unavailable :=
    withheld_iff
  rw [Pool.returned]
  cases hstate : Pool.returnState c.device c.report with
  | unavailable => exact .withheld (hwithheld.mpr hstate)
  | free =>
      refine .free fun h => ?_
      rw [hwithheld, hstate] at h
      cases h
  | allocated => exact (Pool.returnState_ne_allocated _ _ hstate).elim

theorem error?_conclusion :
    (r.conclusion invocation).error? r.error? =
      if (r.conclusion invocation).outcome.isFailure then some (r.failure invocation) else none := by
  unfold error? conclusion failure conclusion
  cases Configuration.ofArgs r.entry.command.args <;> rfl

theorem closing_eq (listeners : List String) :
    Executor.closing listeners r.entry.command.args ((r.conclusion invocation).error? r.error?)
        (r.conclusion invocation) = r.closing invocation listeners := by
  rw [error?_conclusion, Executor.closing, closing]
  cases (r.conclusion invocation).outcome.isFailure <;> simp

/-- A run that is executed in one go is told of like one that is executed step by step. -/
theorem execute_eq (hr : r.phase = .assigned) (listeners : List String) (accepts : Bool)
    (time : Nat) :
    let report := Executor.execute listeners invocation { r.rescheduler with accepts }
      r.entry.command r.device time
    let asked := (r.pending invocation).filterMap (Action.followUp? r.rescheduler)
    report.conclusion = r.conclusion invocation ∧
      report.requests = (if accepts then asked else []) ∧
      report.journal.map JournalEntry.notice =
        r.opening listeners ++ (asked.map fun request => .rescheduled request.args accepts) ++
          r.closing invocation listeners := by
  intro report asked
  rw [← closing_eq]
  unfold report asked Executor.execute error? conclusion opening pending
  cases Configuration.ofArgs r.entry.command.args with
  | error error =>
      simp only [hr, true_and]
      constructor
      · cases accepts <;> rfl
      · rw [Executor.notices_stamp]
        rfl
  | ok configuration =>
      simp only [hr]
      obtain ⟨hconclusion, hrequests, hjournal⟩ := Executor.play_eq
        { r.rescheduler with accepts } time r.device (invocation configuration).ending
        (invocation configuration).actions
      rw [Action.followUp?_accepts] at hrequests hjournal
      refine ⟨hconclusion, hrequests, ?_⟩
      rw [List.map_append, List.map_append, Executor.notices_stamp, Executor.notices_stamp, hjournal,
        hconclusion]
      rfl

end Run

end DeviceLab
