import DeviceLab.Proofs.Scheduler.Admission
import DeviceLab.Proofs.Scheduler.Reload

namespace DeviceLab.World

open Scheduler (Brings BringsIn Feeds addLine reloadLine EventBrings)

/-- An act submits an argument list that comes from somewhere, and the scheduler is found before and
left after it is read.  Of a file it is one line, and only if the file is not watched yet; of a file
that has changed, a line that is new; of the channel, one that a run has asked for. -/
inductive Submits (w : World) : Act → List String → Origin → Scheduler → Scheduler → Prop
  | direct {args : List String} :
      Submits w (.add args) args .direct w.scheduler (w.scheduler.addDirect args)
  | executed {listener : String} {d : Device} {args : List String} (hd : d ∈ w.held) :
      Submits w (.exec listener d args) args .direct w.scheduler
        (w.scheduler.execCommand listener d args).2
  | line {tree : FileTree} {path : Path} {extraArgs args : List String}
      {document : CommandFile.Document} {older younger : List (List String)} {s : Scheduler}
      (hunwatched : w.scheduler.watched.any (·.path.same path) = false)
      (hdocument : CommandFile.Document.ofFile tree path = .ok document)
      (hlines : Scheduler.linesWith document extraArgs = older ++ args :: younger)
      (hs : s = older.foldl (addLine path) w.scheduler) :
      Submits w (.addFile tree path extraArgs) args (.fileLine path) s (s.addLine path args)
  | newLine {tree : FileTree} {path : Path} {extraArgs args : List String}
      {document : CommandFile.Document} {lines older younger : List (List String)} {s : Scheduler}
      (hdocument : CommandFile.Document.ofFile tree path = .ok document)
      (hlines : lines = Scheduler.linesWith document extraArgs)
      (hnew : (ReloadPlan.between (w.scheduler.queue.fromFile path) lines).add =
        older ++ args :: younger)
      (hs : s = older.foldl (reloadLine path)
        { w.scheduler with queue := w.scheduler.queue.cleared path lines }) :
      Submits w (.notifyChanged tree path extraArgs) args (.fileLine path) s
        (s.reloadLine path args)
  | followUp {older younger : List Event} {request : FollowUp} {s : Scheduler}
      (hpasses : (w.scheduler.started && !w.scheduler.stopped) = true)
      (hchannel : w.scheduler.channel = older ++ .reschedule request :: younger)
      (hs : s = older.foldl Scheduler.handle
        { w.scheduler with channel := [], signalled := false }) :
      Submits w .pass request.args (.reschedule request.file request.selection) s
        (s.handle (.reschedule request))

/-- A command comes in with an act: it was read from an argument list that the act submits. -/
def Enters (w : World) (a : Act) (e : QueuedCommand) : Prop :=
  ∃ args origin s t, w.Submits a args origin s t ∧ Brings args origin s t e

/-- All that an act brings to hand comes in with the inputs that are worked off from `start` on. -/
structure Fed {α : Type} (w : World) (a : Act) (f : Scheduler → α → Scheduler)
    (brings : α → Scheduler → Scheduler → QueuedCommand → Prop) (inputs : List α)
    (start : Scheduler) : Prop where
  feeds : Feeds f w.scheduler.nextId brings inputs
  nextId_start : start.nextId = w.scheduler.nextId
  old : ∀ q ∈ start.books.entries, q.id < w.scheduler.nextId
  nextId_end : (w.act a).scheduler.nextId = (inputs.foldl f start).nextId
  entries : ∀ e ∈ (w.act a).scheduler.books.entries, e ∈ (inputs.foldl f start).books.entries

namespace Fed

variable {α : Type} {w : World} {a : Act} {f : Scheduler → α → Scheduler}
  {brings : α → Scheduler → Scheduler → QueuedCommand → Prop} {inputs older younger : List α}
  {x : α} {start : Scheduler} {e : QueuedCommand}

theorem exists_of_new (h : w.Fed a f brings inputs start)
    (he : e ∈ (w.act a).scheduler.books.entries) (hnew : w.scheduler.nextId ≤ e.id) :
    ∃ older x younger, inputs = older ++ x :: younger ∧
      brings x (older.foldl f start) (f (older.foldl f start) x) e := by
  obtain ⟨older, x, younger, hsplit, -, -, hbrings⟩ :=
    h.feeds.exists_of_mem h.old hnew (h.entries e he)
  exact ⟨older, x, younger, hsplit, hbrings⟩

theorem of_new (h : w.Fed a f brings [x] start) (he : e ∈ (w.act a).scheduler.books.entries)
    (hnew : w.scheduler.nextId ≤ e.id) : brings x start (f start x) e := by
  obtain ⟨older, y, younger, hsplit, hbrings⟩ := h.exists_of_new he hnew
  rcases older with _ | ⟨first, older⟩
  · obtain ⟨rfl, -⟩ := List.cons.inj hsplit
    exact hbrings
  · simp at hsplit

theorem bounds (h : w.Fed a f brings inputs start) (hsplit : inputs = older ++ x :: younger) :
    w.scheduler.nextId ≤ (older.foldl f start).nextId ∧
      (f (older.foldl f start) x).nextId ≤ (w.act a).scheduler.nextId := by
  have holder : Feeds f w.scheduler.nextId brings older :=
    h.feeds.mono (by simp [hsplit])
  have hyounger : Feeds f w.scheduler.nextId brings younger :=
    h.feeds.mono (by simp [hsplit])
  constructor
  · rw [← h.nextId_start]
    exact holder.nextId_le start
  · rw [h.nextId_end, hsplit, List.foldl_append]
    exact hyounger.nextId_le _

theorem brings_of_id (h : w.Fed a f brings inputs start)
    (he : e ∈ (w.act a).scheduler.books.entries) (hsplit : inputs = older ++ x :: younger)
    (hle : (older.foldl f start).nextId ≤ e.id)
    (hlt : e.id < (f (older.foldl f start) x).nextId) :
    brings x (older.foldl f start) (f (older.foldl f start) x) e :=
  h.feeds.brings_of_id h.old (Nat.le_trans (h.bounds hsplit).1 hle) (h.entries e he) hsplit hle hlt

end Fed

section fed

variable {w : World}

theorem fed_add (h : w.scheduler.books.Orderly) (args : List String) :
    w.Fed (.add args) Scheduler.addDirect (fun args => BringsIn args .direct) [args] w.scheduler := by
  have hact : (w.act (.add args)).scheduler = w.scheduler.addDirect args := by
    rw [act, Scheduler.addDirect]
    cases w.scheduler.addCommand args <;> rfl
  exact ⟨Scheduler.feeds_addDirect _ _, rfl, h.lt_nextId, by rw [hact]; rfl,
    fun e he => by rwa [hact] at he⟩

theorem fed_exec (h : w.scheduler.books.Orderly) {listener : String} {d : Device}
    (hd : d ∈ w.held) (args : List String) :
    w.Fed (.exec listener d args) (fun s args => (s.execCommand listener d args).2)
      (fun args => BringsIn args .direct) [args] w.scheduler := by
  have hact : (w.act (.exec listener d args)).scheduler =
      (w.scheduler.execCommand listener d args).2 := by
    rw [act, if_pos hd]
  exact ⟨Scheduler.feeds_execCommand listener d _ _, rfl, h.lt_nextId, by rw [hact]; rfl,
    fun e he => by rwa [hact] at he⟩

theorem books_act_addFile {tree : FileTree} {path : Path} {document : CommandFile.Document}
    (hunwatched : w.scheduler.watched.any (·.path.same path) = false)
    (hdocument : CommandFile.Document.ofFile tree path = .ok document) (extraArgs : List String) :
    (w.act (.addFile tree path extraArgs)).scheduler.books =
      ((Scheduler.linesWith document extraArgs).foldl (addLine path) w.scheduler).books := by
  rw [← Scheduler.addLines_eq_foldl, act, Scheduler.addFile, hunwatched, hdocument]
  simp only [Bool.false_eq_true, if_false]
  split <;> rfl

theorem fed_addFile (h : w.scheduler.books.Orderly) {tree : FileTree} {path : Path}
    {extraArgs : List String} {document : CommandFile.Document}
    (hunwatched : w.scheduler.watched.any (·.path.same path) = false)
    (hdocument : CommandFile.Document.ofFile tree path = .ok document) :
    w.Fed (.addFile tree path extraArgs) (addLine path) (fun args => BringsIn args (.fileLine path))
      (Scheduler.linesWith document extraArgs) w.scheduler := by
  have hbooks := books_act_addFile hunwatched hdocument extraArgs
  exact ⟨Scheduler.feeds_addLine path _ _, rfl, h.lt_nextId, congrArg Books.nextId hbooks,
    fun e he => by rwa [hbooks] at he⟩

theorem fed_notifyChanged (h : w.scheduler.books.Orderly) {tree : FileTree} {path : Path}
    {document : CommandFile.Document}
    (hdocument : CommandFile.Document.ofFile tree path = .ok document) (extraArgs : List String) :
    let lines := Scheduler.linesWith document extraArgs
    w.Fed (.notifyChanged tree path extraArgs) (reloadLine path)
      (fun args => BringsIn args (.fileLine path))
      (ReloadPlan.between (w.scheduler.queue.fromFile path) lines).add
      { w.scheduler with queue := w.scheduler.queue.cleared path lines } := by
  intro lines
  obtain ⟨t, hnotify, hbooks⟩ :=
    Scheduler.exists_notifyChanged_eq_ok hdocument w.scheduler extraArgs
  have hact : (w.act (.notifyChanged tree path extraArgs)).scheduler = t := by
    rw [act, hnotify]
  rw [Scheduler.reloadLines_eq_foldl] at hbooks
  refine ⟨Scheduler.feeds_reloadLine path _ _, rfl, ?_, ?_, fun e he => ?_⟩
  · exact (h.erase _).lt_nextId
  · rw [hact]
    exact congrArg Books.nextId hbooks
  · rwa [hact, hbooks] at he

theorem fed_pass (h : w.scheduler.books.Orderly)
    (hpasses : (w.scheduler.started && !w.scheduler.stopped) = true) :
    w.Fed .pass Scheduler.handle EventBrings w.scheduler.channel
      { w.scheduler with channel := [], signalled := false } := by
  let start := { w.scheduler with channel := [], signalled := false }
  let received := w.scheduler.channel.foldl Scheduler.handle start
  have hact : (w.act .pass).scheduler =
      if received.mayStop (w.scheduler.inFlight == 0) then received.stop
      else received.scheduleReady := by
    rw [act, if_pos hpasses]
    rfl
  have hnext : (w.act .pass).scheduler.nextId = received.nextId := by
    rw [hact]
    split
    · rfl
    · rw [Scheduler.scheduleReady_eq]
  refine ⟨Scheduler.feeds_handle fun q hq => ?_, rfl, fun q hq => ?_, hnext, fun e he => ?_⟩
  · exact h.lt_nextId q (Books.mem_entries.mpr (.inr (.inr (Scheduler.mem_requeues_iff.mpr hq))))
  · rcases Books.mem_entries.mp hq with hq | hq | hq
    · exact h.lt_nextId q (Books.mem_entries_of_mem_queue hq)
    · obtain ⟨r, hr, rfl⟩ := hq
      exact h.lt_nextId r.entry (Books.mem_entries_of_mem_runs hr)
    · simp [Scheduler.books] at hq
  · rw [hact] at he
    split at he
    · exact he
    · exact received.entries_scheduleReady_perm.mem_iff.mp he

end fed

variable {w : World} {a : Act}

theorem lt_nextId_of_nextId_eq (h : w.Balanced)
    (hnext : (w.act a).scheduler.nextId = w.scheduler.nextId) {e : QueuedCommand}
    (he : e ∈ (w.act a).scheduler.books.entries) : e.id < w.scheduler.nextId :=
  Nat.lt_of_lt_of_eq ((h.act a).orderly.lt_nextId e he) hnext

theorem nextId_act_step (id : Nat) (invocation : Configuration → Script) :
    (w.act (.step id invocation)).scheduler.nextId = w.scheduler.nextId := by
  rw [act]
  split
  · rfl
  · rename_i answer t hstep
    obtain ⟨r, -, -, hadvances⟩ := Scheduler.step_cases hstep
    change t.books.nextId = w.scheduler.nextId
    generalize t.books = after at hadvances ⊢
    cases hadvances with
    | pause time phase hserial => rfl
    | ending outcome elapsed startedAt report hserial => rfl

/-- What is new after an act came in with one of the argument lists that the act submits. -/
theorem exists_submits_of_new (h : w.Balanced) {e : QueuedCommand}
    (he : e ∈ (w.act a).scheduler.books.entries) (hnew : w.scheduler.nextId ≤ e.id) :
    ∃ args origin s t, w.Submits a args origin s t ∧ BringsIn args origin s t e := by
  have hstays (hnext : (w.act a).scheduler.nextId = w.scheduler.nextId) : False :=
    Nat.not_lt.mpr hnew (lt_nextId_of_nextId_eq h hnext he)
  cases haside : a.isAside with
  | true =>
      obtain ⟨pool, reload, draining, started, now, signalled, -, hact⟩ := w.exists_aside_act haside
      exact (hstays (by rw [hact])).elim
  | false =>
      cases a with
      | add args =>
          exact ⟨args, .direct, _, _, .direct, (fed_add h.orderly args).of_new he hnew⟩
      | exec listener d args =>
          by_cases hd : d ∈ w.held
          · exact ⟨args, .direct, _, _, .executed hd, (fed_exec h.orderly hd args).of_new he hnew⟩
          · exact (hstays (by rw [act, if_neg hd])).elim
      | addFile tree path extraArgs =>
          cases hwatched : w.scheduler.watched.any (·.path.same path) with
          | true => exact (hstays (by rw [act, Scheduler.addFile, if_pos hwatched])).elim
          | false =>
              cases hdocument : CommandFile.Document.ofFile tree path with
              | error failure =>
                  refine (hstays ?_).elim
                  rw [act, Scheduler.addFile, hwatched, hdocument]
                  rfl
              | ok document =>
                  obtain ⟨older, args, younger, hlines, hbrings⟩ :=
                    (fed_addFile h.orderly hwatched hdocument).exists_of_new he hnew
                  exact ⟨args, _, _, _, .line hwatched hdocument hlines rfl, hbrings⟩
      | notifyChanged tree path extraArgs =>
          cases hdocument : CommandFile.Document.ofFile tree path with
          | error failure =>
              refine (hstays ?_).elim
              rw [act, Scheduler.notifyChanged, hdocument]
          | ok document =>
              obtain ⟨older, args, younger, hlines, hbrings⟩ :=
                (fed_notifyChanged h.orderly hdocument extraArgs).exists_of_new he hnew
              exact ⟨args, _, _, _, .newLine hdocument rfl hlines rfl, hbrings⟩
      | pass =>
          by_cases hpasses : (w.scheduler.started && !w.scheduler.stopped) = true
          · obtain ⟨older, event, younger, hchannel, request, rfl, hbrings⟩ :=
              (fed_pass h.orderly hpasses).exists_of_new he hnew
            exact ⟨request.args, _, _, _, .followUp hpasses hchannel rfl, hbrings⟩
          · exact (hstays (by rw [act, if_neg hpasses])).elim
      | step id invocation => exact (hstays (nextId_act_step id invocation)).elim
      | removeAll | shutdown => exact (hstays rfl).elim
      | setReload | drain | start | register | setNullCount | lease | giveBack | edit | wait =>
          cases haside

theorem enters_of_new (h : w.Balanced) {e : QueuedCommand}
    (he : e ∈ (w.act a).scheduler.books.entries) (hnew : w.scheduler.nextId ≤ e.id) :
    w.Enters a e := by
  obtain ⟨args, origin, s, t, hsubmits, hbrings⟩ := exists_submits_of_new h he hnew
  exact ⟨args, origin, s, t, hsubmits, hbrings.toBrings⟩

theorem Submits.bounds (h : w.Balanced) {args : List String} {origin : Origin} {s t : Scheduler}
    (hsubmits : w.Submits a args origin s t) :
    w.scheduler.nextId ≤ s.nextId ∧ t.nextId ≤ (w.act a).scheduler.nextId := by
  cases hsubmits with
  | direct => exact (fed_add h.orderly args).bounds (List.nil_append _).symm
  | executed hd => exact (fed_exec h.orderly hd args).bounds (List.nil_append _).symm
  | line hunwatched hdocument hlines hs =>
      rw [hs]
      exact (fed_addFile h.orderly hunwatched hdocument).bounds hlines
  | newLine hdocument hlines hnew hs =>
      subst hlines
      rw [hs]
      exact (fed_notifyChanged h.orderly hdocument _).bounds hnew
  | followUp hpasses hchannel hs =>
      rw [hs]
      exact (fed_pass h.orderly hpasses).bounds hchannel

theorem Submits.brings (h : w.Balanced) {args : List String} {origin : Origin} {s t : Scheduler}
    (hsubmits : w.Submits a args origin s t) {e : QueuedCommand}
    (he : e ∈ (w.act a).scheduler.books.entries) (hle : s.nextId ≤ e.id) (hlt : e.id < t.nextId) :
    BringsIn args origin s t e := by
  cases hsubmits with
  | direct => exact (fed_add h.orderly args).brings_of_id he (List.nil_append _).symm hle hlt
  | executed hd =>
      exact (fed_exec h.orderly hd args).brings_of_id he (List.nil_append _).symm hle hlt
  | line hunwatched hdocument hlines hs =>
      rw [hs] at hle hlt ⊢
      exact (fed_addFile h.orderly hunwatched hdocument).brings_of_id he hlines hle hlt
  | newLine hdocument hlines hnew hs =>
      subst hlines
      rw [hs] at hle hlt ⊢
      exact (fed_notifyChanged h.orderly hdocument _).brings_of_id he hnew hle hlt
  | followUp hpasses hchannel hs =>
      rw [hs] at hle hlt ⊢
      obtain ⟨request, heq, hbrings⟩ :=
        (fed_pass h.orderly hpasses).brings_of_id he hchannel hle hlt
      cases heq
      exact hbrings

end DeviceLab.World
