import DeviceLab.Proofs.Scheduler.Deeds
import DeviceLab.Proofs.Scheduler.Runs

/-!
A scheduler among its users.

Everything that anybody does with a scheduler is an act at one instant: submissions, passes of the
loop, steps of runs, and the dealings of outside holders with the pool.  Acts follow one another in
any order, and an invocation does whatever its script says.
-/

namespace DeviceLab

/-- A scheduler and the devices that outside holders have claimed from its pool. -/
structure World where
  scheduler : Scheduler := {}
  held : List Device := []
  deriving Inhabited

namespace World

inductive Act
  | add (args : List String)
  | addFile (tree : FileTree) (path : Path) (extraArgs : List String)
  | notifyChanged (tree : FileTree) (path : Path) (extraArgs : List String)
  | setReload (on : Bool)
  | removeAll
  | shutdown
  | drain
  | start
  | pass
  | step (id : Nat) (invocation : Configuration → Script)
  | exec (listener : String) (d : Device) (args : List String)
  | register (d : Device)
  | setNullCount (count : Nat)
  | lease (s : Selection)
  | giveBack (d : Device) (report : ReturnReport)
  | edit (d edited : Device)
  | wait (time : Nat)

def fresh (settings : SchedulerSettings) (catalog : Catalog) (listeners : List String) : World :=
  { scheduler := { settings, catalog, listeners } }

/-- An act.  What is refused changes nothing.  The loop passes from its start to its end; who holds
a device may hand it back, have a command executed on it, or edit it, which leaves serial and
kind. -/
def act (w : World) : Act → World
  | .add args =>
    match w.scheduler.addCommand args with
    | .error _ => w
    | .ok (_, s) => { w with scheduler := s }
  | .addFile tree path extraArgs =>
    match w.scheduler.addFile tree path extraArgs with
    | .error _ => w
    | .ok (_, s) => { w with scheduler := s }
  | .notifyChanged tree path extraArgs =>
    match w.scheduler.notifyChanged tree path extraArgs with
    | .error _ => w
    | .ok s => { w with scheduler := s }
  | .setReload on => { w with scheduler := { w.scheduler with reload := on } }
  | .removeAll => { w with scheduler := w.scheduler.removeAll.2 }
  | .shutdown => { w with scheduler := w.scheduler.shutdown }
  | .drain => { w with scheduler := w.scheduler.drain }
  | .start => { w with scheduler := w.scheduler.start }
  | .pass =>
    if w.scheduler.started && !w.scheduler.stopped then
      { w with scheduler := w.scheduler.pass }
    else w
  | .step id invocation =>
    match w.scheduler.step id invocation with
    | none => w
    | some (_, s) => { w with scheduler := s }
  | .exec listener d args =>
    if d ∈ w.held then
      { scheduler := (w.scheduler.execCommand listener d args).2, held := w.held.erase d }
    else w
  | .register d => { w with scheduler := (w.scheduler.register d).2 }
  | .setNullCount count => { w with scheduler := w.scheduler.setNullCount count }
  | .lease s =>
    match w.scheduler.lease s with
    | none => w
    | some (d, s) => { scheduler := s, held := d :: w.held }
  | .giveBack d report =>
    if d ∈ w.held then
      { scheduler := w.scheduler.release d report, held := w.held.erase d }
    else w
  | .edit d edited =>
    if d ∈ w.held ∧ edited.serial = d.serial ∧ edited.kind = d.kind then
      { w with held := edited :: w.held.erase d }
    else w
  | .wait time => { w with scheduler := { w.scheduler with now := w.scheduler.now + time } }

/-- Whether an act concerns no more than the pool, the clock and how the loop is to go on. -/
def Act.isAside : Act → Bool
  | .setReload _ | .drain | .start | .register _ | .setNullCount _ | .lease _ | .giveBack ..
  | .edit .. | .wait _ => true
  | .add _ | .addFile .. | .notifyChanged .. | .removeAll | .shutdown | .pass | .step ..
  | .exec .. => false

theorem exists_aside_act (w : World) {a : Act} (ha : a.isAside = true) :
    ∃ pool reload draining started now signalled, w.scheduler.now ≤ now ∧ (w.act a).scheduler =
      { w.scheduler with pool, reload, draining, started, now, signalled } := by
  have hsame : ∃ pool reload draining started now signalled, w.scheduler.now ≤ now ∧ w.scheduler =
      { w.scheduler with pool, reload, draining, started, now, signalled } :=
    ⟨_, _, _, _, _, _, Nat.le_refl _, rfl⟩
  cases a with
  | wait time => exact ⟨_, _, _, _, _, _, Nat.le_add_right _ time, rfl⟩
  | setReload _ | drain | start | setNullCount _ => exact ⟨_, _, _, _, _, _, Nat.le_refl _, rfl⟩
  | register d =>
      change ∃ pool reload draining started now signalled, w.scheduler.now ≤ now ∧
        (if (w.scheduler.pool.register d).1 then
          { w.scheduler with pool := (w.scheduler.pool.register d).2 }.signal
          else w.scheduler) = _
      split
      · exact ⟨_, _, _, _, _, _, Nat.le_refl _, rfl⟩
      · exact hsame
  | lease s =>
      rw [act]
      split
      · exact hsame
      · rename_i hlease
        obtain ⟨claim, -, hclaim⟩ := Option.map_eq_some_iff.mp hlease
        cases hclaim
        exact ⟨_, _, _, _, _, _, Nat.le_refl _, rfl⟩
  | giveBack d report =>
      rw [act]
      split
      · obtain ⟨signalled, hrelease⟩ := w.scheduler.exists_release_eq d report
        exact ⟨_, _, _, _, _, _, Nat.le_refl _, hrelease⟩
      · exact hsame
  | edit d edited =>
      rw [act]
      split <;> exact hsame
  | add | addFile | notifyChanged | removeAll | shutdown | pass | step | exec => cases ha

/-- What an act comes to: nothing where it is refused, and else what it does to the scheduler. -/
inductive Does (w : World) : Act → World → Prop
  | nothing {a : Act} : Does w a w
  | aside {a : Act} {pool : Pool} {reload draining started signalled : Bool} {now : Nat}
      (held : List Device) (ha : a.isAside = true) (hnow : w.scheduler.now ≤ now) :
      Does w a ⟨{ w.scheduler with pool, reload, draining, started, now, signalled }, held⟩
  | added {args : List String} {queued : Bool} {t : Scheduler}
      (hadd : w.scheduler.addCommand args = .ok (queued, t)) : Does w (.add args) ⟨t, w.held⟩
  | addedFile {tree : FileTree} {path : Path} {extraArgs : List String} {count : Nat}
      {t : Scheduler} (hadd : w.scheduler.addFile tree path extraArgs = .ok (count, t)) :
      Does w (.addFile tree path extraArgs) ⟨t, w.held⟩
  | notified {tree : FileTree} {path : Path} {extraArgs : List String} {t : Scheduler}
      (hnotify : w.scheduler.notifyChanged tree path extraArgs = .ok t) :
      Does w (.notifyChanged tree path extraArgs) ⟨t, w.held⟩
  | removed : Does w .removeAll ⟨w.scheduler.removeAll.2, w.held⟩
  | shutDown : Does w .shutdown ⟨w.scheduler.shutdown, w.held⟩
  | passed (hpasses : (w.scheduler.started && !w.scheduler.stopped) = true) :
      Does w .pass ⟨w.scheduler.pass, w.held⟩
  | stepped {id : Nat} {invocation : Configuration → Script} {answer : Nat ⊕ Outcome}
      {t : Scheduler} (hstep : w.scheduler.step id invocation = some (answer, t)) :
      Does w (.step id invocation) ⟨t, w.held⟩
  | executed {listener : String} {d : Device} {args : List String} (hd : d ∈ w.held) :
      Does w (.exec listener d args)
        ⟨(w.scheduler.execCommand listener d args).2, w.held.erase d⟩

theorem does (w : World) (a : Act) : w.Does a (w.act a) := by
  cases haside : a.isAside with
  | true =>
      obtain ⟨pool, reload, draining, started, now, signalled, hnow, hact⟩ :=
        w.exists_aside_act haside
      generalize w.act a = v at hact
      obtain ⟨s, held⟩ := v
      cases hact
      exact .aside held haside hnow
  | false =>
      cases a with
      | add args =>
          rw [act]
          split
          · exact .nothing
          · exact .added ‹_›
      | addFile tree path extraArgs =>
          rw [act]
          split
          · exact .nothing
          · exact .addedFile ‹_›
      | notifyChanged tree path extraArgs =>
          rw [act]
          split
          · exact .nothing
          · exact .notified ‹_›
      | pass =>
          rw [act]
          split
          · exact .passed ‹_›
          · exact .nothing
      | step id invocation =>
          rw [act]
          split
          · exact .nothing
          · exact .stepped ‹_›
      | exec listener d args =>
          rw [act]
          split
          · exact .executed ‹_›
          · exact .nothing
      | removeAll => exact .removed
      | shutdown => exact .shutDown
      | setReload | drain | start | register | setNullCount | lease | giveBack | edit | wait =>
          cases haside

def run (w : World) (acts : List Act) : World :=
  acts.foldl act w

@[simp] theorem run_append (w : World) (before after : List Act) :
    w.run (before ++ after) = (w.run before).run after :=
  List.foldl_append

/-- The run that an act brings to its end, and how it ends. -/
def ended? (w : World) : Act → Option (Nat × Outcome)
  | .step id invocation =>
    match w.scheduler.step id invocation with
    | some (.inr outcome, _) => some (id, outcome)
    | _ => none
  | _ => none

theorem exists_of_ended? {w : World} {a : Act} {id : Nat} {outcome : Outcome}
    (h : w.ended? a = some (id, outcome)) :
    ∃ invocation t, a = .step id invocation ∧
      w.scheduler.step id invocation = some (.inr outcome, t) := by
  cases a with
  | step other invocation =>
      rw [ended?] at h
      split at h
      · rename_i t hstep
        cases h
        exact ⟨invocation, t, rfl, hstep⟩
      · cases h
  | _ => cases h

/-- How many runs of a command an act brings to their end. -/
def endedCount (w : World) (a : Act) (id : Nat) : Nat :=
  if (w.ended? a).any (·.1 == id) then 1 else 0

/-- How many runs of a command come to their end in the course of some acts. -/
def runsEnded (id : Nat) : World → List Act → Nat
  | _, [] => 0
  | w, a :: rest => w.endedCount a id + runsEnded id (w.act a) rest

end World

end DeviceLab
