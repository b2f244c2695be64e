import DeviceLab.Proofs.Scheduler.Reload

namespace DeviceLab

/-- An operation under way.  Where it fails, the scheduler stays as it is by then. -/
abbrev Attempt (ε α : Type) :=
  EStateM ε Scheduler α

namespace Attempt

open Scheduler

/-- An operation that is done as a whole, or fails and leaves everything as it was. -/
def whole {ε α : Type} (f : Scheduler → Except ε (α × Scheduler)) : Attempt ε α := fun s =>
  match f s with
  | .error error => .error error s
  | .ok (a, t) => .ok a t

def number (command : Command) : List Configuration → Attempt ConfigurationError (List Command)
  | [] => return []
  | shard :: rest => do
    let id ← modifyGet takeId
    let others ← number command rest
    return { id, args := shard.toArgs, file := command.file, line := command.line,
             expected := command.expected } :: others

/-- Split a command, whose arguments are read once more for that. -/
def split (command : Command) (desired : Nat) :
    Attempt ConfigurationError (Option (List Command)) := do
  let c ← MonadExcept.ofExcept (Configuration.ofArgs command.args)
  match c.shards? (← get).catalog desired with
  | none => return none
  | some shards => return some (← number command shards)

/-- The entries that a configuration is queued as.  Its command takes an id before it is split. -/
def entriesOf (c : Configuration) (args : List String) (origin : Origin) :
    Attempt ConfigurationError (List QueuedCommand) := do
  let s ← get
  let (command, selection) := s.unsplitCommand c args origin
  let _ ← modifyGet takeId
  let wrap (command : Command) : QueuedCommand :=
    { command, selection, mode := c.options.runMode
      minLoopTime := s.effectiveMinLoopTime c.options }
  match c.options.shardCount with
  | none => return [wrap command]
  | some count => return ((← split command count).getD [command]).map wrap

def prepare (args : List String) (origin : Origin) :
    Attempt ConfigurationError (Option (List QueuedCommand)) := do
  let c ← MonadExcept.ofExcept (Configuration.ofArgs args)
  match c.options.runMode with
  | .help =>
    modify (·.note (.printed (Usage.ofArgs args)))
    return none
  | .dryRun =>
    modify (·.note (.printed (Usage.dryRun c)))
    return none
  | .oneShot | .loop => return some (← entriesOf c args origin)

def submit (args : List String) (origin : Origin) : Attempt ConfigurationError Bool := do
  match ← prepare args origin with
  | none => return false
  | some entries =>
    modify (·.pushAll entries)
    return true

def addFrom (args : List String) (origin : Origin) : Attempt SchedulerError Bool := do
  if (← get).shuttingDown then
    return false
  let queued ← (submit args origin).adaptExcept .configuration
  if queued then
    modify signal
  return queued

def addCommand (args : List String) : Attempt SchedulerError Bool :=
  addFrom args .direct

/-- Submit lines of the file at `path` one by one.  Only an error other than that a line is no
command ends this early. -/
def addLines (path : Path) : List (List String) → Attempt SchedulerError Nat
  | [] => return 0
  | args :: rest => do
    let queued ← try addFrom args (.fileLine path) catch
      | .configuration error => do
        modify (·.reportFailed args error.message)
        pure false
      | error => throw error
    let count ← addLines path rest
    return (if queued then 1 else 0) + count

def readFile (tree : FileTree) (path : Path) : Attempt SchedulerError CommandFile.Document :=
  MonadExcept.ofExcept ((CommandFile.Document.ofFile tree path).mapError (·.toError))

def addFile (tree : FileTree) (path : Path) (extraArgs : List String) :
    Attempt SchedulerError Nat := do
  if (← get).watched.any (·.path.same path) then
    return 0
  let document ← readFile tree path
  let count ← addLines path (linesWith document extraArgs)
  if (← get).reload then
    modify fun s => { s with
      watched := enterWatched { path, extraArgs, included := document.included } s.watched }
  return count

/-- Submit lines of the file at `path` that is read again; an error is reported and no more. -/
def reloadLines (path : Path) : List (List String) → Attempt SchedulerError Unit
  | [] => return
  | args :: rest => do
    try
      let _ ← (submit args (.fileLine path)).adaptExcept .configuration
    catch error => modify (·.reportFailed args error.message)
    reloadLines path rest

def notifyChanged (tree : FileTree) (path : Path) (extraArgs : List String) :
    Attempt SchedulerError Unit := do
  let document ← readFile tree path
  let plan := ReloadPlan.between ((← get).queue.fromFile path) (linesWith document extraArgs)
  if plan.isEmpty then
    modify (·.updateWatched path extraArgs document.included)
  else
    modify fun s => { s with queue := plan.remove.foldl Queue.erase s.queue }
    reloadLines path plan.add
    modify fun s => (s.updateWatched path extraArgs document.included).signal

variable {ε α : Type}

theorem eq_of_run {x y : Attempt ε α} (h : ∀ s, x.run s = y.run s) : x = y :=
  funext h

theorem run_whole (f : Scheduler → Except ε (α × Scheduler)) (s : Scheduler) :
    (whole f).run s =
      match f s with
      | .error error => .error error s
      | .ok (a, t) => .ok a t := rfl

theorem run_ofExcept (x : Except ε α) (s : Scheduler) :
    (MonadExcept.ofExcept x : Attempt ε α).run s =
      match x with
      | .error error => .error error s
      | .ok a => .ok a s := by
  cases x <;> rfl

theorem run_tryCatch (x : Attempt ε α) (handle : ε → Attempt ε α) (s : Scheduler) :
    (tryCatch x handle).run s =
      match x.run s with
      | .error error t => (handle error).run t
      | .ok a t => .ok a t := by
  change EStateM.tryCatch x handle s =
    match x s with
    | .error error t => handle error t
    | .ok a t => .ok a t
  rw [EStateM.tryCatch]
  cases x s <;> rfl

theorem run_number (command : Command) (shards : List Configuration) (s : Scheduler) :
    (number command shards).run s =
      .ok (command.number s.nextId shards) { s with nextId := s.nextId + shards.length } := by
  induction shards generalizing s with
  | nil => rfl
  | cons shard rest ih =>
      simp only [number, EStateM.run_bind, EStateM.run_modifyGet, EStateM.run_pure, takeId, ih]
      rw [Command.number, List.length_cons, Nat.add_right_comm, Nat.add_assoc]

theorem run_split (command : Command) (desired : Nat) (s : Scheduler) :
    (split command desired).run s =
      match command.split s.catalog desired s.nextId with
      | .error error => .error error s
      | .ok none => .ok none s
      | .ok (some shards) => .ok (some shards) { s with nextId := s.nextId + shards.length } := by
  rw [split, Command.split, EStateM.run_bind, run_ofExcept]
  cases Configuration.ofArgs command.args with
  | error error => rfl
  | ok c =>
      simp only [EStateM.run_bind, EStateM.run_get, Except.map]
      cases c.shards? s.catalog desired with
      | none => rfl
      | some shards =>
          simp only [EStateM.run_bind, run_number, EStateM.run_pure, Option.map_some,
            Command.length_number]

theorem run_entriesOf {c : Configuration} {args : List String}
    (hargs : Configuration.ofArgs args = .ok c) (origin : Origin) (s : Scheduler) :
    ∃ entries nextId, s.entriesOf c args origin = .ok (entries, nextId) ∧
      (entriesOf c args origin).run s = .ok entries { s with nextId } := by
  rw [Scheduler.entriesOf, entriesOf]
  have hunsplit := (s.unsplitCommand_line c args origin).1
  simp only [EStateM.run_bind, EStateM.run_get, EStateM.run_modifyGet, takeId]
  cases c.options.shardCount with
  | none => exact ⟨_, _, rfl, rfl⟩
  | some count =>
      simp only [EStateM.run_bind, run_split, Command.split, hunsplit, hargs, Except.map]
      cases c.shards? s.catalog count with
      | none => exact ⟨_, _, rfl, rfl⟩
      | some shards => exact ⟨_, _, rfl, rfl⟩

theorem run_prepare (args : List String) (origin : Origin) (s : Scheduler) :
    (prepare args origin).run s =
      match s.prepare args origin with
      | .error error => .error error s
      | .ok (.printed text, t) => .ok none (t.note (.printed text))
      | .ok (.queued entries, t) => .ok (some entries) t := by
  rw [prepare, Scheduler.prepare, EStateM.run_bind, run_ofExcept]
  cases hargs : Configuration.ofArgs args with
  | error error => rfl
  | ok c =>
      obtain ⟨entries, nextId, hentries, hrun⟩ := run_entriesOf hargs origin s
      cases hmode : c.options.runMode with
      | help | dryRun =>
          simp only [bind, Except.bind, hmode]
          rfl
      | oneShot | loop =>
          simp only [bind, Except.bind, hmode, hentries]
          change ((entriesOf c args origin >>= fun entries => pure (some entries)).run s) = _
          rw [EStateM.run_bind, hrun]
          rfl

theorem submit_eq (args : List String) (origin : Origin) :
    submit args origin = whole (·.submit args origin) := by
  refine eq_of_run fun s => ?_
  rw [submit, EStateM.run_bind, run_prepare, run_whole, Scheduler.submit]
  cases s.prepare args origin with
  | error error => rfl
  | ok answer =>
      obtain ⟨prepared, t⟩ := answer
      cases prepared <;> rfl

theorem addFrom_eq (args : List String) (origin : Origin) :
    addFrom args origin = whole fun s => (s.addFrom args origin).mapError .configuration := by
  refine eq_of_run fun s => ?_
  simp only [addFrom, Scheduler.addFrom, EStateM.run_bind, EStateM.run_get, run_whole]
  cases s.shuttingDown with
  | true => rfl
  | false =>
      simp only [Bool.false_eq_true, if_false, EStateM.run_bind, EStateM.run_adaptExcept, submit_eq,
        run_whole]
      cases s.submit args origin with
      | error error => rfl
      | ok answer =>
          obtain ⟨queued, t⟩ := answer
          cases queued <;> rfl

theorem addCommand_eq (args : List String) : addCommand args = whole (·.addCommand args) :=
  addFrom_eq args .direct

theorem run_addLines (path : Path) (lines : List (List String)) (s : Scheduler) :
    (addLines path lines).run s = .ok (s.addLines path lines).1 (s.addLines path lines).2 := by
  induction lines generalizing s with
  | nil => rfl
  | cons args rest ih =>
      simp only [addLines, Scheduler.addLines, EStateM.run_bind, run_tryCatch, addFrom_eq,
        run_whole]
      cases s.addFrom args (.fileLine path) with
      | error error =>
          simp only [Except.mapError, EStateM.run_bind, EStateM.run_modify, EStateM.run_pure, ih]
          rw [if_neg Bool.false_ne_true, Nat.zero_add]
      | ok answer => simp only [Except.mapError, EStateM.run_pure, ih]

theorem addFile_eq (tree : FileTree) (path : Path) (extraArgs : List String) :
    addFile tree path extraArgs = whole (·.addFile tree path extraArgs) := by
  refine eq_of_run fun s => ?_
  simp only [addFile, Scheduler.addFile, EStateM.run_bind, EStateM.run_get, run_whole]
  cases s.watched.any (·.path.same path) with
  | true => rfl
  | false =>
      simp only [Bool.false_eq_true, if_false, EStateM.run_bind, readFile, run_ofExcept]
      cases CommandFile.Document.ofFile tree path with
      | error failure => rfl
      | ok document =>
          simp only [Except.mapError, run_addLines, EStateM.run_get]
          split <;> rfl

theorem run_reloadLines (path : Path) (lines : List (List String)) (s : Scheduler) :
    (reloadLines path lines).run s = .ok () (s.reloadLines path lines) := by
  induction lines generalizing s with
  | nil => rfl
  | cons args rest ih =>
      simp only [reloadLines, EStateM.run_bind, run_tryCatch]
      rw [Scheduler.reloadLines, submit_eq]
      simp only [EStateM.run_adaptExcept, run_whole]
      cases s.submit args (.fileLine path) with
      | error error => exact ih _
      | ok answer => exact ih answer.2

theorem notifyChanged_eq (tree : FileTree) (path : Path) (extraArgs : List String) :
    notifyChanged tree path extraArgs =
      whole fun s => (s.notifyChanged tree path extraArgs).map fun t => ((), t) := by
  refine eq_of_run fun s => ?_
  rw [notifyChanged, EStateM.run_bind, readFile, run_ofExcept, run_whole, Scheduler.notifyChanged]
  cases CommandFile.Document.ofFile tree path with
  | error failure => rfl
  | ok document =>
      simp only [Except.mapError, EStateM.run_bind, EStateM.run_get]
      split
      · rfl
      · simp only [EStateM.run_bind, EStateM.run_modify, run_reloadLines]
        rfl

end Attempt

end DeviceLab
