import DeviceLab.Proofs.Scheduler.Notices
import DeviceLab.Proofs.Scheduler.Reload

namespace DeviceLab

theorem Path.same_comm (p q : Path) : p.same q = q.same p :=
  Bool.beq_comm

namespace Scheduler

variable {s t : Scheduler} {args : List String} {origin : Origin}

@[simp] theorem watched_noteAll (s : Scheduler) (notices : List Notice) :
    (s.noteAll notices).watched = s.watched := by
  rw [noteAll_eq]

theorem watched_submit {queued : Bool} (h : s.submit args origin = .ok (queued, t)) :
    t.watched = s.watched := by
  rcases submit_cases h with ⟨-, text, rfl⟩ | ⟨-, entries, nextId, -, -, rfl⟩ <;> rfl

theorem watched_addFrom {queued : Bool} (h : s.addFrom args origin = .ok (queued, t)) :
    t.watched = s.watched := by
  rcases addFrom_cases h with ⟨-, -, rfl⟩ | ⟨-, u, hsubmit, rfl⟩
  · rfl
  · have hsame := watched_submit hsubmit
    cases queued <;> exact hsame

theorem watched_addCommand {queued : Bool} (h : s.addCommand args = .ok (queued, t)) :
    t.watched = s.watched :=
  watched_addFrom (addFrom_of_addCommand h)

theorem watched_addLines (path : Path) (lines : List (List String)) (s : Scheduler) :
    (s.addLines path lines).2.watched = s.watched := by
  induction lines generalizing s with
  | nil => rfl
  | cons args rest ih =>
      rw [addLines]
      cases hadd : s.addFrom args (.fileLine path) with
      | error error => exact (ih _).trans (s.watched_noteAll _)
      | ok answer => exact (ih _).trans (watched_addFrom hadd)

theorem watched_reloadLines (path : Path) (lines : List (List String)) (s : Scheduler) :
    (s.reloadLines path lines).watched = s.watched := by
  induction lines generalizing s with
  | nil => rfl
  | cons args rest ih =>
      rw [reloadLines]
      cases hsubmit : s.submit args (.fileLine path) with
      | error error => exact (ih _).trans (s.watched_noteAll _)
      | ok answer => exact (ih _).trans (watched_submit hsubmit)

theorem watched_handle (s : Scheduler) (event : Event) : (s.handle event).watched = s.watched := by
  cases event with
  | finished id outcome => rfl
  | requeue entry =>
      rw [handle]
      split <;> rfl
  | reschedule request =>
      rw [handle]
      split
      · exact s.watched_noteAll _
      · exact watched_submit ‹_›

theorem watched_foldl_handle (events : List Event) (s : Scheduler) :
    (events.foldl handle s).watched = s.watched := by
  induction events generalizing s with
  | nil => rfl
  | cons event rest ih => exact (ih _).trans (s.watched_handle event)

theorem watched_pass (s : Scheduler) : s.pass.watched = s.watched := by
  have hreceived : { s with signalled := false }.receive.watched = s.watched :=
    watched_foldl_handle s.channel { s with channel := [], signalled := false }
  rw [pass]
  split
  · exact hreceived
  · rw [scheduleReady_eq]
    exact hreceived

theorem watched_perform (s : Scheduler) (deed : Deed) : (s.perform deed).watched = s.watched := by
  rcases s.perform_cases deed with
    ⟨_, _, _, _, heq⟩ | ⟨_, _, _, rfl, heq⟩ | ⟨-, _, _, heq⟩ | rfl
  · rw [heq]
  · rw [heq]
  · rw [heq]
  · rfl

theorem watched_foldl_perform (deeds : List Deed) (s : Scheduler) :
    (deeds.foldl perform s).watched = s.watched := by
  induction deeds generalizing s with
  | nil => rfl
  | cons deed rest ih => exact (ih _).trans (s.watched_perform deed)

theorem watched_execCommand (s : Scheduler) (listener : String) (d : Device)
    (args : List String) : (s.execCommand listener d args).2.watched = s.watched := by
  obtain ⟨signalled, hrelease⟩ := s.exists_release_eq d .available
  rcases s.execCommand_refused_or_taken listener d args with ⟨error, heq⟩ | ⟨-, c, -, heq⟩
  · rw [heq, hrelease]
  · rw [heq]
    rfl

theorem perm_enterWatched (w : WatchedFile) (watched : List WatchedFile) :
    (enterWatched w watched).Perm (w :: watched) := by
  induction watched with
  | nil => exact List.Perm.refl _
  | cons first rest ih =>
      rw [enterWatched]
      split
      · exact List.Perm.refl _
      · exact (ih.cons first).trans (List.Perm.swap w first rest)

theorem watched_addFile {tree : FileTree} {path : Path} {extraArgs : List String} {count : Nat}
    (h : s.addFile tree path extraArgs = .ok (count, t)) :
    t.watched = s.watched ∨ s.watched.any (·.path.same path) = false ∧
      ∃ document, CommandFile.Document.ofFile tree path = .ok document ∧
        t.watched = enterWatched { path, extraArgs, included := document.included } s.watched := by
  rcases addFile_cases h with ⟨-, -, rfl⟩ | ⟨hunwatched, document, u, hdocument, hlines, rfl⟩
  · exact .inl rfl
  · have hsame := s.watched_addLines path (linesWith document extraArgs)
    rw [hlines] at hsame
    split
    · refine .inr ⟨hunwatched, document, hdocument, ?_⟩
      rw [← hsame]
    · exact .inl hsame

theorem reload_addLines (path : Path) (lines : List (List String)) (s : Scheduler) :
    (s.addLines path lines).2.reload = s.reload := by
  obtain ⟨queue, nextId, watched, signalled, answers, htaken, -⟩ := TakesIn.addLines path lines s
  rw [htaken]

theorem mem_watched_addFile {tree : FileTree} {path : Path} {document : CommandFile.Document}
    (hreload : s.reload = true) (hunwatched : s.watched.any (·.path.same path) = false)
    (hdocument : CommandFile.Document.ofFile tree path = .ok document) (extraArgs : List String) :
    ∃ count t, s.addFile tree path extraArgs = .ok (count, t) ∧
      { path, extraArgs, included := document.included } ∈ t.watched := by
  have hlines := s.reload_addLines path (linesWith document extraArgs)
  rw [addFile, hunwatched, if_neg Bool.false_ne_true, hdocument]
  dsimp only
  rw [hlines, hreload, if_pos rfl]
  exact ⟨_, _, rfl, (perm_enterWatched _ _).mem_iff.mpr List.mem_cons_self⟩

/-- What is noted about the file at `path` once it has been read again. -/
def reread (path : Path) (extraArgs : List String) (included : List Path) (w : WatchedFile) :
    WatchedFile :=
  if w.path.same path then { w with extraArgs, included } else w

@[simp] theorem reread_path (path : Path) (extraArgs : List String) (included : List Path)
    (w : WatchedFile) : (reread path extraArgs included w).path = w.path := by
  unfold reread
  split <;> rfl

theorem reread_other {path : Path} {w : WatchedFile} (hother : path.same w.path = false)
    (extraArgs : List String) (included : List Path) : reread path extraArgs included w = w := by
  have hback : w.path.same path = false := (Path.same_comm ..).trans hother
  rw [reread, hback, if_neg Bool.false_ne_true]

theorem watched_notifyChanged {tree : FileTree} {path : Path} {extraArgs : List String}
    {document : CommandFile.Document}
    (hdocument : CommandFile.Document.ofFile tree path = .ok document)
    (h : s.notifyChanged tree path extraArgs = .ok t) :
    t.watched = s.watched.map (reread path extraArgs document.included) := by
  obtain ⟨other, hother, hcases⟩ := notifyChanged_cases h
  obtain rfl : document = other := Except.ok.inj (hdocument.symm.trans hother)
  rcases hcases with ⟨-, rfl⟩ | ⟨-, rfl⟩
  · rfl
  · have hlines := watched_reloadLines path
      (ReloadPlan.between (s.queue.fromFile path) (linesWith document extraArgs)).add
      { s with queue := s.queue.cleared path (linesWith document extraArgs) }
    exact congrArg (List.map (reread path extraArgs document.included)) hlines

/-- No file is registered twice, however its path is written. -/
def Apart (s : Scheduler) : Prop :=
  (s.watched.map (·.path.components)).Nodup

theorem Apart.eq_of_same (h : s.Apart) {v w : WatchedFile} (hv : v ∈ s.watched)
    (hw : w ∈ s.watched) (hsame : v.path.same w.path = true) : v = w :=
  List.inj_on_of_nodup_map h hv hw (Path.same_iff.mp hsame)

theorem Apart.of_map (h : s.Apart) {f : WatchedFile → WatchedFile}
    (hpath : ∀ w, (f w).path = w.path) (ht : t.watched = s.watched.map f) : t.Apart := by
  unfold Apart at h ⊢
  rw [ht, List.map_map]
  have hsame : (fun w : WatchedFile => w.path.components) ∘ f = fun w => w.path.components := by
    funext w
    exact congrArg Path.components (hpath w)
  rwa [hsame]

theorem Apart.enter (h : s.Apart) {w : WatchedFile} (ht : t.watched = enterWatched w s.watched)
    (hunwatched : s.watched.any (·.path.same w.path) = false) : t.Apart := by
  unfold Apart at h ⊢
  rw [ht, ((perm_enterWatched w s.watched).map _).nodup_iff, List.map_cons, List.nodup_cons]
  refine ⟨fun hmem => ?_, h⟩
  obtain ⟨v, hv, hsame⟩ := List.mem_map.mp hmem
  rw [List.any_eq_false] at hunwatched
  exact hunwatched v hv (Path.same_iff.mpr hsame)

end Scheduler

namespace World

theorem apart_act {w : World} (h : w.scheduler.Apart) (a : Act) : (w.act a).scheduler.Apart := by
  have hstays {s : Scheduler} (hs : s.watched = w.scheduler.watched) : s.Apart := by
    rw [Scheduler.Apart, hs]
    exact h
  have hdoes := w.does a
  generalize w.act a = v at hdoes
  cases hdoes with
  | nothing | aside | removed | shutDown => exact hstays rfl
  | added hadd => exact hstays (Scheduler.watched_addCommand hadd)
  | addedFile hadd =>
      rcases Scheduler.watched_addFile hadd with hsame | ⟨hunwatched, document, -, hentered⟩
      · exact hstays hsame
      · exact h.enter hentered hunwatched
  | notified hnotify =>
      obtain ⟨document, hdocument, -⟩ := Scheduler.notifyChanged_cases hnotify
      exact h.of_map (Scheduler.reread_path _ _ _)
        (Scheduler.watched_notifyChanged hdocument hnotify)
  | passed => exact hstays (Scheduler.watched_pass _)
  | stepped hstep =>
      rw [Scheduler.step_eq] at hstep
      obtain ⟨r, -, hcourse⟩ := Option.map_eq_some_iff.mp hstep
      cases hcourse
      exact hstays (Scheduler.watched_foldl_perform _ _)
  | executed => exact hstays (Scheduler.watched_execCommand _ _ _ _)

theorem apart_run {w : World} (h : w.scheduler.Apart) (acts : List Act) :
    (w.run acts).scheduler.Apart := by
  induction acts generalizing w with
  | nil => exact h
  | cons a rest ih => exact ih (apart_act h a)

end World

end DeviceLab
