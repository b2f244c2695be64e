import DeviceLab.Invocation.Runner

namespace DeviceLab

namespace Action

/-- Whether an action takes time, so that a burst ends with it. -/
def isPause : Action → Bool
  | .pause time => time != 0
  | .edit _ | .reschedule .. => false

def followUp? (r : Rescheduler) : Action → Option FollowUp
  | .reschedule args selection => some (r.followUp args selection)
  | .pause _ | .edit _ => none

theorem followUp?_accepts (r : Rescheduler) (accepts : Bool) :
    followUp? { r with accepts } = followUp? r := by
  funext action
  cases action <;> rfl

end Action

/-- The actions up to the next pause. -/
def stretch (actions : List Action) : List Action :=
  actions.takeWhile (!·.isPause)

def Device.after (d : Device) : Action → Device
  | .edit change => d.edit change
  | .pause _ | .reschedule .. => d

theorem Script.deviceAfter_eq (script : Script) (d : Device) :
    script.deviceAfter d = script.actions.foldl Device.after d := rfl

@[simp] theorem Device.foldl_after_serial (actions : List Action) (d : Device) :
    (actions.foldl Device.after d).serial = d.serial := by
  induction actions generalizing d with
  | nil => rfl
  | cons action rest ih =>
      rw [List.foldl_cons, ih]
      cases action <;> simp [Device.after]

@[simp] theorem Device.foldl_after_kind (actions : List Action) (d : Device) :
    (actions.foldl Device.after d).kind = d.kind := by
  induction actions generalizing d with
  | nil => rfl
  | cons action rest ih =>
      rw [List.foldl_cons, ih]
      cases action <;> simp [Device.after]

theorem burst_requests (r : Rescheduler) (d : Device) (actions : List Action) :
    (burst r d actions).requests = (stretch actions).filterMap (Action.followUp? r) := by
  fun_induction burst r d actions with
  | case1 => rfl
  | case2 d rest ih => exact ih
  | case3 d time rest hpos =>
      have hpause : (Action.pause time).isPause = true := bne_iff_ne.mpr hpos
      simp [stretch, hpause]
  | case4 d change rest ih => exact ih
  | case5 d args selection rest after ih => exact congrArg (r.followUp args selection :: ·) ih

theorem burst_end {r : Rescheduler} {d : Device} {actions : List Action}
    (h : (burst r d actions).rest = none) :
    (burst r d actions).requests = actions.filterMap (Action.followUp? r) ∧
      (burst r d actions).device = actions.foldl Device.after d := by
  fun_induction burst r d actions with
  | case1 => exact ⟨rfl, rfl⟩
  | case2 d rest ih => exact ih h
  | case3 d time rest hpos => cases h
  | case4 d change rest ih => exact ih h
  | case5 d args selection rest after ih =>
      obtain ⟨hrequests, hdevice⟩ := ih h
      exact ⟨congrArg (r.followUp args selection :: ·) hrequests, hdevice⟩

theorem burst_pause {r : Rescheduler} {d : Device} {actions rest : List Action} {time : Nat}
    (h : (burst r d actions).rest = some (time, rest)) :
    (burst r d actions).requests ++ rest.filterMap (Action.followUp? r) =
        actions.filterMap (Action.followUp? r) ∧
      rest.foldl Device.after (burst r d actions).device = actions.foldl Device.after d := by
  fun_induction burst r d actions with
  | case1 => cases h
  | case2 d later ih => exact ih h
  | case3 d time later hpos =>
      cases h
      exact ⟨rfl, rfl⟩
  | case4 d change later ih => exact ih h
  | case5 d args selection later after ih =>
      obtain ⟨hrequests, hdevice⟩ := ih h
      exact ⟨congrArg (r.followUp args selection :: ·) hrequests, hdevice⟩

end DeviceLab
