import DeviceLab.Proofs.Watcher.Registration
import DeviceLab.Watcher

namespace DeviceLab

namespace Scheduler

variable {s t : Scheduler} {tree : FileTree} {w : WatchedFile}

/-- A scheduler as it may be after any use. -/
def Arises (s : Scheduler) : Prop :=
  ∃ settings catalog listeners acts,
    s = ((World.fresh settings catalog listeners).run acts).scheduler

theorem Arises.apart (h : s.Arises) : s.Apart := by
  obtain ⟨settings, catalog, listeners, acts, rfl⟩ := h
  have hfresh : (World.fresh settings catalog listeners).scheduler.Apart := List.nodup_nil
  exact World.apart_run hfresh acts

theorem Arises.notifyChanged (h : s.Arises) {path : Path} {extraArgs : List String}
    (hnotify : s.notifyChanged tree path extraArgs = .ok t) : t.Arises := by
  obtain ⟨settings, catalog, listeners, acts, rfl⟩ := h
  refine ⟨settings, catalog, listeners, acts ++ [.notifyChanged tree path extraArgs], ?_⟩
  rw [World.run_append]
  generalize (World.fresh settings catalog listeners).run acts = world at hnotify
  change t = (world.act (.notifyChanged tree path extraArgs)).scheduler
  rw [World.act, hnotify]

theorem Arises.exists_reloads (h : s.Arises) {path : Path} {document : CommandFile.Document}
    (hdocument : CommandFile.Document.ofFile tree path = .ok document) (extraArgs : List String) :
    ∃ t kept new added, s.notifyChanged tree path extraArgs = .ok t ∧
      Reloads path (linesWith document extraArgs) s t kept new added := by
  obtain ⟨settings, catalog, listeners, acts, rfl⟩ := h
  have hbalanced := (World.balanced_fresh settings catalog listeners).run acts
  exact Scheduler.exists_reloads (World.lined_queue_run settings catalog listeners acts)
    (fun _ => hbalanced.lt_nextId_of_mem_queue) hdocument extraArgs

/-- Reading a watched file again would change nothing. -/
def Settled (s : Scheduler) (tree : FileTree) (w : WatchedFile) : Prop :=
  ∃ document, CommandFile.Document.ofFile tree w.path = .ok document ∧
    document.included = w.included ∧ s.queue.InLine w.path (linesWith document w.extraArgs)

/-- What a check makes of a scheduler when a watched file has changed. -/
def told (s : Scheduler) (tree : FileTree) (w : WatchedFile) : Scheduler :=
  match s.notifyChanged tree w.path w.extraArgs with
  | .ok t => t
  | .error _ => s

/-- From `s` to `t` a watched file was looked at, and read again if need be. -/
structure Visits (s t : Scheduler) (tree : FileTree) (w : WatchedFile) (included : List Path) :
    Prop where
  arises : t.Arises
  settled : included ≠ w.included → t.Settled tree { w with included }
  old : ∀ v ∈ t.watched, v = { w with included } ∨ v ∈ s.watched ∧ w.path.same v.path = false
  others : ∀ v ∈ s.watched, w.path.same v.path = false → v ∈ t.watched
  settles : ∀ v, w.path.same v.path = false → s.Settled tree v → t.Settled tree v

theorem Visits.refl (h : s.Arises) (hw : w ∈ s.watched) : s.Visits s tree w w.included where
  arises := h
  settled hne := absurd rfl hne
  old v hv := by
    cases hsame : w.path.same v.path with
    | true => exact .inl (h.apart.eq_of_same hw hv hsame).symm
    | false => exact .inr ⟨hv, rfl⟩
  others v hv _ := hv
  settles v _ hv := hv

theorem exists_visits_told (h : s.Arises) (hw : w ∈ s.watched) (tree : FileTree) :
    ∃ included, s.Visits (s.told tree w) tree w included := by
  cases hdocument : CommandFile.Document.ofFile tree w.path with
  | error failure =>
      have hsame : s.told tree w = s := by
        rw [told, Scheduler.notifyChanged, hdocument]
      rw [hsame]
      exact ⟨w.included, .refl h hw⟩
  | ok document =>
      obtain ⟨t, kept, new, added, hnotify, hreloads⟩ := h.exists_reloads hdocument w.extraArgs
      have htold : s.told tree w = t := by rw [told, hnotify]
      have hwatched := watched_notifyChanged hdocument hnotify
      rw [htold]
      refine ⟨document.included, h.notifyChanged hnotify,
        fun _ => ⟨document, hdocument, rfl, hreloads.inLine⟩, ?_, ?_, ?_⟩
      · intro v hv
        rw [hwatched] at hv
        obtain ⟨u, hu, rfl⟩ := List.mem_map.mp hv
        cases hsame : w.path.same u.path with
        | true =>
            obtain rfl := h.apart.eq_of_same hw hu hsame
            left
            rw [reread, if_pos hsame]
        | false =>
            right
            rw [reread_other hsame]
            exact ⟨hu, hsame⟩
      · intro v hv hother
        rw [hwatched]
        exact List.mem_map.mpr ⟨v, hv, reread_other hother ..⟩
      · rintro v hother ⟨other, hdocument', hincluded, hline⟩
        exact ⟨other, hdocument', hincluded, hline.congr (hreloads.fromFile_other hother)⟩

theorem told_of_settled (h : s.Arises) (hw : w ∈ s.watched) (hsettled : s.Settled tree w) :
    (s.told tree w).Arises ∧ (s.told tree w).books = s.books ∧
      (s.told tree w).watched = s.watched := by
  obtain ⟨document, hdocument, hincluded, hline⟩ := hsettled
  obtain ⟨t, hnotify, hbooks⟩ := exists_notifyChanged_of_inLine hdocument hline
  have htold : s.told tree w = t := by rw [told, hnotify]
  rw [htold]
  refine ⟨h.notifyChanged hnotify, hbooks, ?_⟩
  rw [watched_notifyChanged hdocument hnotify, hincluded]
  conv_rhs => rw [← List.map_id s.watched]
  apply List.map_congr_left
  intro v hv
  rw [reread]
  split
  · rename_i hsame
    obtain rfl := h.apart.eq_of_same hv hw hsame
    rfl
  · rfl

end Scheduler

namespace Watcher

open Scheduler (Arises Settled Visits told)

variable {watcher : Watcher} {tree : FileTree} {s : Scheduler} {w : WatchedFile}

/-- The fingerprint that is remembered for a watched file is the one that it has now. -/
def Knows (watcher : Watcher) (tree : FileTree) (w : WatchedFile) : Prop :=
  watcher.seen? w.path = some (Digest.ofFiles tree w.files)

theorem seen?_record (watcher : Watcher) (tree : FileTree) (w : WatchedFile) (p : Path) :
    (watcher.record tree w).2.seen? p =
      if w.path.same p then some (Digest.ofFiles tree w.files) else watcher.seen? p := by
  rw [record, seen?, List.find?_cons]
  cases hsame : w.path.same p with
  | true => rfl
  | false =>
      have hkept : (fun entry : Path × String => decide ((!entry.1.same w.path) = true ∧
          entry.1.same p = true)) = fun entry => entry.1.same p := by
        funext entry
        cases hentry : entry.1.same p with
        | false => simp
        | true =>
            have hother : entry.1.same w.path = false := by
              rw [Bool.eq_false_iff]
              intro hboth
              rw [Path.same_iff] at hentry hboth
              rw [Path.same_iff.mpr (hboth.symm.trans hentry)] at hsame
              cases hsame
            simp [hother]
      rw [List.find?_filter, hkept]
      rfl

theorem knows_record (watcher : Watcher) (tree : FileTree) (w : WatchedFile) :
    (watcher.record tree w).2.Knows tree w := by
  rw [Knows, seen?_record, if_pos (Path.same_iff.mpr rfl)]

theorem knows_record_other {v : WatchedFile} (hother : w.path.same v.path = false) :
    (watcher.record tree w).2.Knows tree v ↔ watcher.Knows tree v := by
  rw [Knows, seen?_record, if_neg (by simp [hother]), Knows]

theorem not_knows_of_record (h : (watcher.record tree w).1 = true) : ¬ watcher.Knows tree w := by
  intro hknows
  rw [record, hknows] at h
  simp at h

/-- What looking at one watched file makes of the scheduler. -/
def visit (watcher : Watcher) (tree : FileTree) (w : WatchedFile) (s : Scheduler) : Scheduler :=
  if (watcher.record tree w).1 then s.told tree w else s

theorem checkFiles_cons (watcher : Watcher) (tree : FileTree) (w : WatchedFile)
    (rest : List WatchedFile) (s : Scheduler) :
    let after := checkFiles tree rest (watcher.record tree w).2 (watcher.visit tree w s)
    checkFiles tree (w :: rest) watcher s =
      (if (watcher.record tree w).1 then w.path :: after.1 else after.1, after.2) := by
  intro after
  rw [checkFiles]
  split <;>
  · rename_i next hrecord
    simp only [after, visit, hrecord]
    rfl

theorem exists_visits (h : s.Arises) (hw : w ∈ s.watched) (watcher : Watcher) (tree : FileTree) :
    ∃ included, s.Visits (watcher.visit tree w s) tree w included := by
  rw [visit]
  split
  · exact Scheduler.exists_visits_told h hw tree
  · exact ⟨w.included, .refl h hw⟩

theorem visit_of_settled (h : s.Arises) (hw : w ∈ s.watched)
    (hsettled : watcher.Knows tree w ∨ s.Settled tree w) :
    (watcher.visit tree w s).Arises ∧ (watcher.visit tree w s).books = s.books ∧
      (watcher.visit tree w s).watched = s.watched := by
  rw [visit]
  split
  · rename_i hchanged
    exact Scheduler.told_of_settled h hw (hsettled.resolve_left (not_knows_of_record hchanged))
  · exact ⟨h, rfl, rfl⟩

theorem checkFiles_of_nil {rest : List WatchedFile} (h : (checkFiles tree rest watcher s).1 = []) :
    (checkFiles tree rest watcher s).2.2 = s := by
  induction rest generalizing watcher with
  | nil => rfl
  | cons w rest ih =>
      rw [checkFiles_cons, visit] at h ⊢
      cases hchanged : (watcher.record tree w).1 with
      | true =>
          rw [hchanged] at h
          cases h
      | false =>
          rw [hchanged] at h
          exact ih h

/-- A watched file is remembered as it is now.  Or it is settled, and it includes other files than
it did when it was one of `before`. -/
def Rests (watcher : Watcher) (tree : FileTree) (s : Scheduler) (before : List WatchedFile)
    (v : WatchedFile) : Prop :=
  watcher.Knows tree v ∨ s.Settled tree v ∧
    ∃ w ∈ before, ∃ included, included ≠ w.included ∧ v = { w with included }

section checkFiles

variable {rest : List WatchedFile}

theorem mem_of_mem_cons_of_other {v : WatchedFile} (hv : v ∈ w :: rest)
    (hother : w.path.same v.path = false) : v ∈ rest := by
  refine (List.mem_cons.mp hv).resolve_left ?_
  rintro rfl
  rw [Path.same_iff.mpr rfl] at hother
  cases hother

theorem same_eq_false_of_nodup (hapart : ((w :: rest).map (·.path.components)).Nodup)
    {u : WatchedFile} (hu : u ∈ rest) : w.path.same u.path = false := by
  obtain ⟨hnew, -⟩ := List.nodup_cons.mp hapart
  rw [Bool.eq_false_iff]
  intro hsame
  exact hnew (List.mem_map.mpr ⟨u, hu, (Path.same_iff.mp hsame).symm⟩)

variable (h : s.Arises) (hapart : (rest.map (·.path.components)).Nodup)

include h hapart

theorem checkFiles_settles {before : List WatchedFile}
    (hrest : ∀ w ∈ rest, w ∈ s.watched ∧ w ∈ before)
    (hrests : ∀ v ∈ s.watched, v ∈ rest ∨ watcher.Rests tree s before v) :
    let after := checkFiles tree rest watcher s
    after.2.2.Arises ∧ ∀ v ∈ after.2.2.watched, after.2.1.Rests tree after.2.2 before v := by
  induction rest generalizing watcher s with
  | nil => exact ⟨h, fun v hv => (hrests v hv).resolve_left List.not_mem_nil⟩
  | cons w rest ih =>
      obtain ⟨hw, hwbefore⟩ := hrest w List.mem_cons_self
      obtain ⟨included, hvisits⟩ := exists_visits h hw watcher tree
      rw [checkFiles_cons]
      refine ih hvisits.arises hapart.of_cons (fun u hu => ?_) fun v hv => ?_
      · obtain ⟨hlisted, hbefore⟩ := hrest u (List.mem_cons_of_mem w hu)
        exact ⟨hvisits.others u hlisted (same_eq_false_of_nodup hapart hu), hbefore⟩
      · rcases hvisits.old v hv with rfl | ⟨hold, hother⟩
        · right
          by_cases hsame : included = w.included
          · left
            rw [hsame]
            exact knows_record watcher tree w
          · exact .inr ⟨hvisits.settled hsame, w, hwbefore, included, hsame, rfl⟩
        · rcases hrests v hold with hlisted | hknows | ⟨hsettled, hchanged⟩
          · exact .inl (mem_of_mem_cons_of_other hlisted hother)
          · exact .inr (.inl ((knows_record_other hother).mpr hknows))
          · exact .inr (.inr ⟨hvisits.settles v hother hsettled, hchanged⟩)

theorem checkFiles_of_settled
    (hrest : ∀ w ∈ rest, w ∈ s.watched ∧ (watcher.Knows tree w ∨ s.Settled tree w))
    (hknows : ∀ v ∈ s.watched, v ∈ rest ∨ watcher.Knows tree v) :
    let after := checkFiles tree rest watcher s
    after.2.2.Arises ∧ after.2.2.books = s.books ∧ after.2.2.watched = s.watched ∧
      (∀ v ∈ s.watched, after.2.1.Knows tree v) ∧
      ∀ p ∈ after.1, ∃ v ∈ rest, v.path = p ∧ ¬ watcher.Knows tree v := by
  -- On the files that are left to check: a visit to a settled file changes no queue, so the others
  -- remain settled.
  induction rest generalizing watcher s with
  | nil =>
      refine ⟨h, rfl, rfl, fun v hv => (hknows v hv).resolve_left List.not_mem_nil, fun p hp => ?_⟩
      cases hp
  | cons w rest ih =>
      obtain ⟨hw, hsettled⟩ := hrest w List.mem_cons_self
      obtain ⟨harises, hbooks, hwatched⟩ := visit_of_settled h hw hsettled
      rw [checkFiles_cons]
      generalize watcher.visit tree w s = t at harises hbooks hwatched ⊢
      have hqueue : t.queue = s.queue := congrArg Books.queue hbooks
      have hrest' : ∀ u ∈ rest, u ∈ t.watched ∧
          ((watcher.record tree w).2.Knows tree u ∨ t.Settled tree u) := by
        intro u hu
        obtain ⟨hlisted, hu'⟩ := hrest u (List.mem_cons_of_mem w hu)
        rw [hwatched, knows_record_other (same_eq_false_of_nodup hapart hu), Scheduler.Settled,
          hqueue]
        exact ⟨hlisted, hu'⟩
      have hknows' : ∀ v ∈ t.watched, v ∈ rest ∨ (watcher.record tree w).2.Knows tree v := by
        intro v hv
        rw [hwatched] at hv
        cases hsame : w.path.same v.path with
        | true =>
            obtain rfl := h.apart.eq_of_same hw hv hsame
            exact .inr (knows_record watcher tree w)
        | false =>
            exact (hknows v hv).imp (fun hlisted => mem_of_mem_cons_of_other hlisted hsame)
              (knows_record_other hsame).mpr
      obtain ⟨hfinal, hbooks', hwatched', hall, hfound⟩ := ih harises hapart.of_cons hrest' hknows'
      refine ⟨hfinal, hbooks'.trans hbooks, hwatched'.trans hwatched, hwatched ▸ hall, ?_⟩
      have hlater (p : Path) (hp : p ∈ (checkFiles tree rest (watcher.record tree w).2 t).1) :
          ∃ v ∈ w :: rest, v.path = p ∧ ¬ watcher.Knows tree v := by
        obtain ⟨v, hv, hpath, hunknown⟩ := hfound p hp
        rw [knows_record_other (same_eq_false_of_nodup hapart hv)] at hunknown
        exact ⟨v, List.mem_cons_of_mem w hv, hpath, hunknown⟩
      intro p hp
      cases hchanged : (watcher.record tree w).1 with
      | false =>
          rw [hchanged] at hp
          exact hlater p hp
      | true =>
          rw [hchanged] at hp
          rcases List.mem_cons.mp hp with rfl | hp
          · exact ⟨w, List.mem_cons_self, rfl, not_knows_of_record hchanged⟩
          · exact hlater p hp

end checkFiles

theorem rests_check (h : s.Arises) (watcher : Watcher) (tree : FileTree) :
    let after := watcher.check tree s
    after.2.2.Arises ∧ ∀ v ∈ after.2.2.watched, after.2.1.Rests tree after.2.2 s.watched v :=
  checkFiles_settles h h.apart (fun _ hw => ⟨hw, hw⟩) fun _ hv => .inl hv

theorem check_of_settled (h : s.Arises)
    (hsettled : ∀ w ∈ s.watched, watcher.Knows tree w ∨ s.Settled tree w) :
    let after := watcher.check tree s
    after.2.2.Arises ∧ after.2.2.books = s.books ∧ after.2.2.watched = s.watched ∧
      (∀ v ∈ s.watched, after.2.1.Knows tree v) ∧
      ∀ p ∈ after.1, ∃ v ∈ s.watched, v.path = p ∧ ¬ watcher.Knows tree v :=
  checkFiles_of_settled h h.apart (fun w hw => ⟨hw, hsettled w hw⟩) fun _ hv => .inl hv

end Watcher

/-- However a scheduler has been used and whatever a watcher remembers: once a check has been made,
and as long as nobody else does anything, a second one changes neither the queue nor the ids nor the
watched files.  It finds a file changed only if the first one found that it includes other files
now; a third one finds nothing. -/
theorem World.checks_settle (settings : SchedulerSettings) (catalog : Catalog)
    (listeners : List String) (acts : List Act) (watcher : Watcher) (tree : FileTree) :
    let s := ((fresh settings catalog listeners).run acts).scheduler
    let first := watcher.check tree s
    let second := first.2.1.check tree first.2.2
    let third := second.2.1.check tree second.2.2
    (∀ p ∈ second.1, ∃ w ∈ s.watched, ∃ included, w.path = p ∧ included ≠ w.included ∧
      { w with included } ∈ first.2.2.watched) ∧
    second.2.2.books = first.2.2.books ∧ second.2.2.watched = first.2.2.watched ∧
    third.1 = [] ∧ third.2.2 = second.2.2 := by
  intro s first second third
  have hs : s.Arises := ⟨settings, catalog, listeners, acts, rfl⟩
  obtain ⟨hfirst, hrests⟩ := Watcher.rests_check hs watcher tree
  obtain ⟨hsecond, hbooks, hwatched, hknown, hfound⟩ :=
    Watcher.check_of_settled hfirst fun v hv => (hrests v hv).imp_right And.left
  have hall : ∀ v ∈ second.2.2.watched, second.2.1.Knows tree v := hwatched ▸ hknown
  obtain ⟨-, -, -, -, hlast⟩ :=
    Watcher.check_of_settled hsecond fun v hv => .inl (hall v hv)
  have hthird : third.1 = [] := by
    rw [List.eq_nil_iff_forall_not_mem]
    intro p hp
    obtain ⟨v, hv, -, hunknown⟩ := hlast p hp
    exact hunknown (hall v hv)
  refine ⟨fun p hp => ?_, hbooks, hwatched, hthird, Watcher.checkFiles_of_nil hthird⟩
  obtain ⟨v, hv, hpath, hunknown⟩ := hfound p hp
  rcases hrests v hv with hknows | ⟨-, w, hw, included, hchanged, rfl⟩
  · exact absurd hknows hunknown
  · exact ⟨w, hw, included, hpath, hchanged, hv⟩

/-- A file that is edited to include another one is found changed twice, the second time though
nothing has been changed since. -/
theorem World.exists_found_unchanged :
    let path : Path := ⟨"cmds.txt"⟩
    let plain : FileTree :=
      (FileTree.write {} ⟨"inner.txt"⟩ "flaky\n".toUTF8.toList).write path "smoke\n".toUTF8.toList
    let tree : FileTree := plain.write path "INCLUDE inner.txt\n".toUTF8.toList
    let s := ((fresh { reload := true } ∅ []).run [.addFile plain path []]).scheduler
    let remembered := ({} : Watcher).check plain s
    let first := remembered.2.1.check tree remembered.2.2
    let second := first.2.1.check tree first.2.2
    remembered.1 = [] ∧ first.1 = [path] ∧ second.1 = [path] := by
  decide +kernel

end DeviceLab
