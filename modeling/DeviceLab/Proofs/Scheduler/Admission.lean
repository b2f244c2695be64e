import DeviceLab.Proofs.Scheduler.Balance
import DeviceLab.Proofs.Scheduler.Notices
import Mathlib.Data.List.Induction

/-!
What is queued for which arguments.

A file is read line by line and the channel is worked off event by event, and each argument list takes
ids of its own.  So an entry that comes into the queue was read from one argument list, the one that
took its id, and says what that list asks for.
-/

namespace DeviceLab

/-- The device constraints of what is submitted for a configuration: its own, unless it was asked for
by a run. -/
def Origin.selection (c : Configuration) : Origin → Selection
  | .direct | .fileLine _ => c.requirements
  | .reschedule _ selection => selection

/-- Arguments that a configuration is run with: its own, or those of one of its shards. -/
def Configuration.Covers (c : Configuration) (catalog : Catalog) (args : List String) : Prop :=
  args = c.args ∨ ∃ desired shards, c.shards? catalog desired = some shards ∧
    ∃ shard ∈ shards, args = shard.toArgs

/-- An entry as it comes in for a configuration: it has not been run and need not wait, and if it is
to loop then because the configuration says so, at the pace that it says or that is set for all. -/
structure Admitted (settings : SchedulerSettings) (catalog : Catalog) (c : Configuration)
    (selection : Selection) (q : QueuedCommand) : Prop where
  selection : q.selection = selection
  unrun : q.command.executions = 0
  expected_le : ∀ n, q.command.expected = some n → n ≤ maxCount
  ready : q.readyAt = none
  looping : q.mode = .loop → c.options.runMode = .loop ∧ c.Covers catalog q.command.args ∧
    q.minLoopTime = if c.options.minLoopTime = 0 then settings.defaultMinLoopTime
      else c.options.minLoopTime

theorem Queue.mem_foldl_push {queue : Queue} {added : List QueuedCommand} {e : QueuedCommand}
    (h : e ∈ (added.foldl push queue).entries) : e ∈ queue.entries ∨ e ∈ added := by
  induction added generalizing queue with
  | nil => exact .inl h
  | cons q rest ih =>
      rcases ih h with h | h
      · rcases eq_or_mem_of_mem_enterBy h with rfl | h
        · exact .inr List.mem_cons_self
        · exact .inl h
      · exact .inr (List.mem_cons_of_mem q h)

namespace Scheduler

variable {s t : Scheduler} {args : List String} {origin : Origin} {e : QueuedCommand}

/-- An argument list that is read between `s` and `t` takes the id of an entry and brings it in. -/
structure Brings (args : List String) (origin : Origin) (s t : Scheduler)
    (e : QueuedCommand) : Prop where
  le : s.nextId ≤ e.id
  lt : e.id < t.nextId
  admitted : ∃ c, Configuration.ofArgs args = .ok c ∧
    Admitted s.settings s.catalog c (origin.selection c) e

/-- What is brought in stands for a line of a file only if it comes from that file. -/
structure BringsIn (args : List String) (origin : Origin) (s t : Scheduler)
    (e : QueuedCommand) : Prop extends Brings args origin s t e where
  comesFrom : ∀ line, e.command.line = some line →
    ∃ path, origin = .fileLine path ∧ e.command.file = some path

theorem admitted_of_mem_entriesOf {c : Configuration} {entries : List QueuedCommand} {nextId : Nat}
    (hargs : Configuration.ofArgs args = .ok c)
    (h : s.entriesOf c args origin = .ok (entries, nextId)) (he : e ∈ entries) :
    Admitted s.settings s.catalog c (origin.selection c) e := by
  have hread : args = c.args := (Configuration.args_of_ofArgs hargs).symm
  have hunsplit := (s.unsplitCommand_line c args origin).1
  have hselection : (s.unsplitCommand c args origin).2 = origin.selection c := by
    cases origin <;> rfl
  have hunrun : (s.unsplitCommand c args origin).1.executions = 0 := by
    cases origin <;> rfl
  have hexpected : ∀ n, (s.unsplitCommand c args origin).1.expected = some n → n ≤ maxCount := by
    intro n hn
    refine Configuration.expectedExecutions_le hargs ?_
    cases origin <;> exact hn
  rcases entriesOf_cases h with ⟨rfl, -⟩ | ⟨desired, shards, hsplit, rfl, -⟩
  · obtain rfl := List.mem_singleton.mp he
    exact ⟨hselection, hunrun, hexpected, rfl,
      fun hmode => ⟨hmode, .inl (hunsplit.trans hread), rfl⟩⟩
  · obtain ⟨shard, hshard, rfl⟩ := List.mem_map.mp he
    obtain ⟨whole, parts, hwhole, hparts, rfl⟩ := Command.of_split_eq_ok hsplit
    obtain rfl : whole = c := Except.ok.inj (hwhole.symm.trans (by rw [hunsplit, hargs]))
    obtain ⟨id, part, hpart, rfl⟩ := Command.of_mem_number hshard
    refine ⟨hselection, rfl, hexpected, rfl, fun hmode => ⟨hmode, ?_, rfl⟩⟩
    exact .inr ⟨desired, parts, hparts, part, hpart, rfl⟩

theorem prepare_queued {entries : List QueuedCommand}
    (h : s.prepare args origin = .ok (.queued entries, t)) :
    ∃ c, Configuration.ofArgs args = .ok c ∧ c.options.runMode.isRunnable = true ∧
      s.entriesOf c args origin = .ok (entries, t.nextId) := by
  obtain ⟨c, hargs, h⟩ := bind_eq_ok_iff.mp h
  cases hmode : c.options.runMode with
  | help | dryRun =>
      rw [hmode] at h
      cases h
  | oneShot | loop =>
      rw [hmode] at h
      obtain ⟨⟨entries, nextId⟩, hentries, h⟩ := bind_eq_ok_iff.mp h
      cases h
      exact ⟨c, hargs, by rw [hmode]; rfl, hentries⟩

theorem comesFrom_of_mem_entriesOf {c : Configuration} {entries : List QueuedCommand}
    {nextId : Nat} (hargs : Configuration.ofArgs args = .ok c)
    (hrun : c.options.runMode.isRunnable = true)
    (h : s.entriesOf c args origin = .ok (entries, nextId)) (he : e ∈ entries) {line : FileLine}
    (hline : e.command.line = some line) :
    ∃ path, origin = .fileLine path ∧ e.command.file = some path := by
  obtain ⟨hfile, hsame, -⟩ := of_mem_entriesOf hargs hrun h he
  rw [hline] at hsame
  cases origin with
  | fileLine path => exact ⟨path, rfl, hfile⟩
  | direct => cases hsame
  | reschedule file selection => cases hsame

theorem mem_queue_of_grows {b c : Books} (h : b.Grows c) (he : e ∈ c.entries) :
    e ∈ b.entries ∨ e ∈ c.queue.entries := by
  obtain ⟨new, -, hc⟩ := h
  rcases Books.mem_entries.mp he with he | hrest
  · exact .inr he
  · rw [hc] at hrest
    exact .inl (Books.mem_entries.mpr (.inr hrest))

theorem brings_submit {queued : Bool} (h : s.submit args origin = .ok (queued, t))
    (he : e ∈ t.books.entries) : e ∈ s.books.entries ∨ BringsIn args origin s t e := by
  rcases mem_queue_of_grows (grows_submit h) he with he | he
  · exact .inl he
  · rcases submit_cases h with ⟨-, text, rfl⟩ | ⟨-, entries, nextId, hprepare, hnew, rfl⟩
    · exact .inl (Books.mem_entries_of_mem_queue he)
    · rcases Queue.mem_foldl_push he with he | he
      · exact .inl (Books.mem_entries_of_mem_queue he)
      · right
        obtain ⟨c, hargs, hrun, hentries⟩ := prepare_queued hprepare
        obtain ⟨hle, hlt⟩ := hnew.bounds e he
        exact ⟨⟨hle, hlt, c, hargs, admitted_of_mem_entriesOf hargs hentries he⟩,
          fun line hline => comesFrom_of_mem_entriesOf hargs hrun hentries he hline⟩

theorem BringsIn.congr {u : Scheduler} (h : BringsIn args origin s t e)
    (hnext : u.nextId = t.nextId) : BringsIn args origin s u e :=
  ⟨⟨h.le, hnext ▸ h.lt, h.admitted⟩, h.comesFrom⟩

theorem brings_addFrom {queued : Bool} (h : s.addFrom args origin = .ok (queued, t))
    (he : e ∈ t.books.entries) : e ∈ s.books.entries ∨ BringsIn args origin s t e := by
  rcases addFrom_cases h with ⟨-, -, rfl⟩ | ⟨-, u, hsubmit, rfl⟩
  · exact .inl he
  · cases queued with
    | false => exact brings_submit hsubmit he
    | true => exact (brings_submit hsubmit he).imp_right fun hbrings => hbrings.congr rfl

theorem brings_addCommand {queued : Bool} (h : s.addCommand args = .ok (queued, t))
    (he : e ∈ t.books.entries) : e ∈ s.books.entries ∨ BringsIn args .direct s t e :=
  brings_addFrom (addFrom_of_addCommand h) he

theorem brings_execCommand {listener : String} {d : Device}
    (he : e ∈ (s.execCommand listener d args).2.books.entries) :
    e ∈ s.books.entries ∨ BringsIn args .direct s (s.execCommand listener d args).2 e := by
  rcases s.execCommand_refused_or_taken listener d args with ⟨error, heq⟩ | ⟨-, c, hargs, heq⟩
  · rw [heq, books_release] at he
    exact .inl he
  · rw [heq] at he ⊢
    rcases Books.mem_entries.mp he with he | ⟨r, hr, rfl⟩ | he
    · exact .inl (Books.mem_entries_of_mem_queue he)
    · rcases List.mem_append.mp hr with hr | hr
      · exact .inl (Books.mem_entries_of_mem_runs hr)
      · right
        obtain rfl := List.mem_singleton.mp hr
        have hexpected (n : Nat) (hn : some 1 = some n) : n ≤ maxCount := by
          cases hn
          decide
        exact ⟨⟨Nat.le_refl _, Nat.lt_succ_self _, c, hargs, ⟨rfl, rfl, hexpected, rfl, nofun⟩⟩,
          nofun⟩
    · exact .inl (Books.mem_entries.mpr (.inr (.inr he)))

/-- Submit a command by hand; one that is refused changes nothing. -/
def addDirect (s : Scheduler) (args : List String) : Scheduler :=
  match s.addCommand args with
  | .error _ => s
  | .ok (_, s) => s

def addLine (path : Path) (s : Scheduler) (args : List String) : Scheduler :=
  match s.addFrom args (.fileLine path) with
  | .error error => s.reportFailed args error.message
  | .ok (_, s) => s

/-- Submit a line that is new in the file at `path`. -/
def reloadLine (path : Path) (s : Scheduler) (args : List String) : Scheduler :=
  match s.submit args (.fileLine path) with
  | .error error => s.reportRefused args error
  | .ok (_, s) => s

theorem addLines_eq_foldl (path : Path) (lines : List (List String)) (s : Scheduler) :
    (s.addLines path lines).2 = lines.foldl (addLine path) s := by
  induction lines generalizing s with
  | nil => rfl
  | cons args rest ih =>
      rw [addLines, List.foldl_cons, addLine]
      cases s.addFrom args (.fileLine path) with
      | error error => exact ih _
      | ok answer => exact ih answer.2

theorem reloadLines_eq_foldl (path : Path) (lines : List (List String)) (s : Scheduler) :
    s.reloadLines path lines = lines.foldl (reloadLine path) s := by
  induction lines generalizing s with
  | nil => rfl
  | cons args rest ih =>
      rw [reloadLines, List.foldl_cons, reloadLine]
      cases s.submit args (.fileLine path) with
      | error error => exact ih _
      | ok answer => exact ih answer.2

/-- Inputs that are worked off one after the other by `f`: each takes ids, and brings in at most
entries below `base` and what `brings` says of it. -/
def Feeds {α : Type} (f : Scheduler → α → Scheduler) (base : Nat)
    (brings : α → Scheduler → Scheduler → QueuedCommand → Prop) (inputs : List α) : Prop :=
  ∀ s, ∀ x ∈ inputs, s.nextId ≤ (f s x).nextId ∧
    ∀ e ∈ (f s x).books.entries, e ∈ s.books.entries ∨ e.id < base ∨
      s.nextId ≤ e.id ∧ e.id < (f s x).nextId ∧ brings x s (f s x) e

namespace Feeds

variable {α : Type} {f : Scheduler → α → Scheduler} {base : Nat}
  {brings : α → Scheduler → Scheduler → QueuedCommand → Prop} {inputs : List α}

theorem mono {part : List α} (h : Feeds f base brings inputs) (hsub : part ⊆ inputs) :
    Feeds f base brings part :=
  fun s x hx => h s x (hsub hx)

theorem nextId_le (h : Feeds f base brings inputs) (s : Scheduler) :
    s.nextId ≤ (inputs.foldl f s).nextId := by
  induction inputs generalizing s with
  | nil => exact Nat.le_refl _
  | cons x rest ih =>
      have hfirst := (h s x List.mem_cons_self).1
      exact Nat.le_trans hfirst (ih (h.mono (List.subset_cons_self x rest)) (f s x))

theorem exists_of_mem (h : Feeds f base brings inputs) {s : Scheduler} {e : QueuedCommand}
    (hold : ∀ q ∈ s.books.entries, q.id < base) (hnew : base ≤ e.id)
    (he : e ∈ (inputs.foldl f s).books.entries) :
    ∃ older x younger, inputs = older ++ x :: younger ∧
      (older.foldl f s).nextId ≤ e.id ∧ e.id < (f (older.foldl f s) x).nextId ∧
      brings x (older.foldl f s) (f (older.foldl f s) x) e := by
  induction inputs using List.reverseRecOn with
  | nil =>
      have hlt := hold e he
      omega
  | append_singleton front x ih =>
      rw [List.foldl_append] at he
      obtain ⟨-, hcases⟩ := h (front.foldl f s) x (by simp)
      rcases hcases e he with he | hlt | hbrings
      · obtain ⟨older, y, younger, rfl, hbrought⟩ := ih (h.mono (by simp)) he
        exact ⟨older, y, younger ++ [x], by simp, hbrought⟩
      · omega
      · exact ⟨front, x, [], rfl, hbrings⟩

theorem unique (h : Feeds f base brings inputs) {s : Scheduler} {older older' younger younger' : List α}
    {x x' : α} {id : Nat} (hsplit : inputs = older ++ x :: younger)
    (hsplit' : inputs = older' ++ x' :: younger') (hle : (older.foldl f s).nextId ≤ id)
    (hlt : id < (f (older.foldl f s) x).nextId) (hle' : (older'.foldl f s).nextId ≤ id)
    (hlt' : id < (f (older'.foldl f s) x').nextId) : older = older' ∧ x = x' := by
  have hlater {front more back : List α} {y : α} (heq : inputs = front ++ y :: more ++ back) :
      (f (front.foldl f s) y).nextId ≤ ((front ++ y :: more).foldl f s).nextId := by
    have hmore : Feeds f base brings more := by
      refine h.mono fun z hz => ?_
      rw [heq]
      simp [hz]
    rw [List.foldl_append]
    exact hmore.nextId_le _
  rcases List.append_eq_append_iff.mp (hsplit.symm.trans hsplit') with
    ⟨more, hfront, hrest⟩ | ⟨more, hfront, hrest⟩
  · rcases more with _ | ⟨y, more⟩
    · obtain ⟨rfl, -⟩ := List.cons.inj hrest
      exact ⟨by rw [hfront, List.append_nil], rfl⟩
    · obtain ⟨rfl, -⟩ := List.cons.inj hrest
      have hmono := @hlater older more (x' :: younger') x (by rw [hsplit', hfront])
      rw [← hfront] at hmono
      omega
  · rcases more with _ | ⟨y, more⟩
    · obtain ⟨rfl, -⟩ := List.cons.inj hrest
      exact ⟨by rw [hfront, List.append_nil], rfl⟩
    · obtain ⟨rfl, -⟩ := List.cons.inj hrest
      have hmono := @hlater older' more (x :: younger) x' (by rw [hsplit, hfront])
      rw [← hfront] at hmono
      omega

theorem brings_of_id (h : Feeds f base brings inputs) {s : Scheduler} {e : QueuedCommand}
    (hold : ∀ q ∈ s.books.entries, q.id < base) (hnew : base ≤ e.id)
    (he : e ∈ (inputs.foldl f s).books.entries) {older younger : List α} {x : α}
    (hsplit : inputs = older ++ x :: younger) (hle : (older.foldl f s).nextId ≤ e.id)
    (hlt : e.id < (f (older.foldl f s) x).nextId) :
    brings x (older.foldl f s) (f (older.foldl f s) x) e := by
  obtain ⟨older', x', younger', hsplit', hle', hlt', hbrings⟩ := h.exists_of_mem hold hnew he
  obtain ⟨rfl, rfl⟩ := h.unique hsplit hsplit' hle hlt hle' hlt'
  exact hbrings

end Feeds

theorem feeds_addDirect (base : Nat) (inputs : List (List String)) :
    Feeds addDirect base (fun args => BringsIn args .direct) inputs := by
  intro s args _
  rw [addDirect]
  cases hadd : s.addCommand args with
  | error error => exact ⟨Nat.le_refl _, fun e he => .inl he⟩
  | ok answer =>
      refine ⟨?_, fun e he => ?_⟩
      · obtain ⟨new, hnew, -⟩ := grows_addCommand hadd
        exact hnew.le
      · exact (brings_addCommand hadd he).imp_right fun hbrings =>
          .inr ⟨hbrings.le, hbrings.lt, hbrings⟩

theorem feeds_execCommand (listener : String) (d : Device) (base : Nat)
    (inputs : List (List String)) :
    Feeds (fun s args => (s.execCommand listener d args).2) base
      (fun args => BringsIn args .direct) inputs := by
  intro s args _
  refine ⟨?_, fun e he => ?_⟩
  · rcases s.execCommand_cases listener d args with hbooks | ⟨r, -, -, -, hbooks⟩
    · exact (congrArg Books.nextId hbooks).ge
    · have hnext := congrArg Books.nextId hbooks
      exact Nat.le_trans (Nat.le_succ _) hnext.ge
  · exact (brings_execCommand he).imp_right fun hbrings =>
      .inr ⟨hbrings.le, hbrings.lt, hbrings⟩

theorem feeds_addLine (path : Path) (base : Nat) (lines : List (List String)) :
    Feeds (addLine path) base (fun args => BringsIn args (.fileLine path)) lines := by
  intro s args _
  rw [addLine]
  cases hadd : s.addFrom args (.fileLine path) with
  | error error =>
      have hbooks := s.books_reportFailed args error.message
      exact ⟨(congrArg Books.nextId hbooks).ge, fun e he => .inl (hbooks ▸ he)⟩
  | ok answer =>
      refine ⟨?_, fun e he => ?_⟩
      · obtain ⟨new, hnew, -⟩ := grows_addFrom hadd
        exact hnew.le
      · exact (brings_addFrom hadd he).imp_right fun hbrings =>
          .inr ⟨hbrings.le, hbrings.lt, hbrings⟩

theorem feeds_reloadLine (path : Path) (base : Nat) (lines : List (List String)) :
    Feeds (reloadLine path) base (fun args => BringsIn args (.fileLine path)) lines := by
  intro s args _
  rw [reloadLine]
  cases hsubmit : s.submit args (.fileLine path) with
  | error error =>
      have hbooks := s.books_reportRefused args error
      exact ⟨(congrArg Books.nextId hbooks).ge, fun e he => .inl (hbooks ▸ he)⟩
  | ok answer =>
      refine ⟨?_, fun e he => ?_⟩
      · obtain ⟨new, hnew, -⟩ := grows_submit hsubmit
        exact hnew.le
      · exact (brings_submit hsubmit he).imp_right fun hbrings =>
          .inr ⟨hbrings.le, hbrings.lt, hbrings⟩

/-- What an event brings in: only follow-up commands are new. -/
def EventBrings (event : Event) (s t : Scheduler) (e : QueuedCommand) : Prop :=
  ∃ request, event = .reschedule request ∧
    BringsIn request.args (.reschedule request.file request.selection) s t e

theorem feeds_handle {base : Nat} {events : List Event}
    (hold : ∀ q, Event.requeue q ∈ events → q.id < base) :
    Feeds handle base EventBrings events := by
  intro s event hevent
  cases event with
  | finished id outcome => exact ⟨Nat.le_refl _, fun e he => .inl he⟩
  | requeue entry =>
      rw [handle]
      split
      · exact ⟨Nat.le_refl _, fun e he => .inl he⟩
      · refine ⟨Nat.le_refl _, fun e he => ?_⟩
        rcases Books.mem_entries.mp he with he | hrest
        · rcases eq_or_mem_of_mem_enterBy he with rfl | he
          · exact .inr (.inl (hold _ hevent))
          · exact .inl (Books.mem_entries_of_mem_queue he)
        · exact .inl (Books.mem_entries.mpr (.inr hrest))
  | reschedule request =>
      obtain ⟨new, hnew, -⟩ := s.grows_handle_reschedule request
      refine ⟨hnew.le, fun e he => ?_⟩
      rw [handle] at he ⊢
      cases hsubmit : s.submit request.args (.reschedule request.file request.selection) with
      | error error =>
          rw [hsubmit] at he
          exact .inl (s.books_reportRefused request.args error ▸ he)
      | ok answer =>
          rw [hsubmit] at he
          exact (brings_submit hsubmit he).imp_right fun hbrings =>
            .inr ⟨hbrings.le, hbrings.lt, request, rfl, hbrings⟩

end Scheduler

end DeviceLab
