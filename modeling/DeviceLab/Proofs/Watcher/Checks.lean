import DeviceLab.Proofs.Watcher.Settling

namespace DeviceLab

open CommandFile (Document)

theorem Path.same_eq_false_iff {p q : Path} : p.same q = false ↔ p.components ≠ q.components := by
  rw [Bool.eq_false_iff, ne_eq, Path.same_iff]

namespace Scheduler

variable {s : Scheduler} {tree : FileTree} {v w : WatchedFile}

theorem told_of_error {failure : CommandFile.Failure}
    (h : Document.ofFile tree w.path = .error failure) : s.told tree w = s := by
  rw [told, notifyChanged, h]

theorem inLine_told (h : s.Arises) (hw : w ∈ s.watched) {document : Document}
    (hdocument : Document.ofFile tree w.path = .ok document) :
    { w with included := document.included } ∈ (s.told tree w).watched ∧
      (s.told tree w).queue.InLine w.path (linesWith document w.extraArgs) := by
  obtain ⟨t, kept, new, added, hnotify, hreloads⟩ := h.exists_reloads hdocument w.extraArgs
  have htold : s.told tree w = t := by rw [told, hnotify]
  rw [htold]
  refine ⟨?_, hreloads.inLine⟩
  rw [watched_notifyChanged hdocument hnotify]
  refine List.mem_map.mpr ⟨w, hw, ?_⟩
  rw [reread, if_pos (Path.same_iff.mpr rfl)]

theorem fromFile_told (h : s.Arises) {p : Path} (hother : w.path.same p = false) :
    (s.told tree w).queue.fromFile p = s.queue.fromFile p := by
  cases hdocument : Document.ofFile tree w.path with
  | error failure => rw [told_of_error hdocument]
  | ok document =>
      obtain ⟨t, kept, new, added, hnotify, hreloads⟩ := h.exists_reloads hdocument w.extraArgs
      have htold : s.told tree w = t := by rw [told, hnotify]
      rw [htold]
      exact hreloads.fromFile_other hother

end Scheduler

namespace Watcher

variable {watcher : Watcher} {tree : FileTree} {s : Scheduler} {v w : WatchedFile}

/-- Whether another fingerprint is remembered for a watched file than the one that it has now. -/
def misses (watcher : Watcher) (tree : FileTree) (v : WatchedFile) : Bool :=
  (watcher.seen? v.path).any (· != Digest.ofFiles tree v.files)

/-- What a check reads a watched file as, if it finds it changed and can read it. -/
def reads? (watcher : Watcher) (tree : FileTree) (v : WatchedFile) : Option Document :=
  if watcher.misses tree v then (Document.ofFile tree v.path).toOption else none

theorem checkFiles_append (front back : List WatchedFile) (watcher : Watcher) (s : Scheduler) :
    let first := checkFiles tree front watcher s
    let second := checkFiles tree back first.2.1 first.2.2
    checkFiles tree (front ++ back) watcher s = (first.1 ++ second.1, second.2) := by
  induction front generalizing watcher s with
  | nil => rfl
  | cons w rest ih =>
      intro first second
      have hfirst : first = _ := checkFiles_cons watcher tree w rest s
      rw [List.cons_append, checkFiles_cons, ih]
      simp only [second, hfirst]
      split <;> rfl

/-- Looking at other files leaves what is remembered, noted and queued for a file as it was. -/
structure Spares (tree : FileTree) (v : WatchedFile) (watcher : Watcher) (s : Scheduler)
    (changed : List Path) (after : Watcher) (t : Scheduler) : Prop where
  arises : t.Arises
  seen : after.seen? v.path = watcher.seen? v.path
  listed : v ∈ t.watched
  fromFile : t.queue.fromFile v.path = s.queue.fromFile v.path
  unnamed : changed.any (·.same v.path) = false

theorem spares_checkFiles (h : s.Arises) (hv : v ∈ s.watched) {rest : List WatchedFile}
    (hrest : ∀ w ∈ rest, w ∈ s.watched ∧ w.path.same v.path = false)
    (hapart : (rest.map (·.path.components)).Nodup) (watcher : Watcher) (tree : FileTree) :
    let after := checkFiles tree rest watcher s
    Spares tree v watcher s after.1 after.2.1 after.2.2 := by
  induction rest generalizing watcher s with
  | nil => exact ⟨h, rfl, hv, rfl, rfl⟩
  | cons w rest ih =>
      obtain ⟨hw, hother⟩ := hrest w List.mem_cons_self
      obtain ⟨included, hvisits⟩ := exists_visits h hw watcher tree
      have hfile : (watcher.visit tree w s).queue.fromFile v.path = s.queue.fromFile v.path := by
        rw [visit]
        split
        · exact Scheduler.fromFile_told h hother
        · rfl
      have hseen : (watcher.record tree w).2.seen? v.path = watcher.seen? v.path := by
        rw [seen?_record, hother, if_neg Bool.false_ne_true]
      have hrest' : ∀ u ∈ rest, u ∈ (watcher.visit tree w s).watched ∧
          u.path.same v.path = false := by
        intro u hu
        obtain ⟨hlisted, hother'⟩ := hrest u (List.mem_cons_of_mem w hu)
        exact ⟨hvisits.others u hlisted (same_eq_false_of_nodup hapart hu), hother'⟩
      obtain ⟨harises, hseen', hlisted, hfile', hunnamed⟩ :=
        ih hvisits.arises (hvisits.others v hv hother) hrest' hapart.of_cons
          (watcher.record tree w).2
      rw [checkFiles_cons]
      refine ⟨harises, hseen'.trans hseen, hlisted, hfile'.trans hfile, ?_⟩
      dsimp only
      split
      · rw [List.any_cons, hother, hunnamed]
        rfl
      · exact hunnamed

/-- What is noted about a watched file once it has been checked. -/
def noted (watcher : Watcher) (tree : FileTree) (v : WatchedFile) : WatchedFile :=
  match watcher.reads? tree v with
  | none => v
  | some document => { v with included := document.included }

theorem noted_path (watcher : Watcher) (tree : FileTree) (v : WatchedFile) :
    (watcher.noted tree v).path = v.path := by
  rw [noted]
  split <;> rfl

/-- A check names a file if it has changed, and notes it and brings the queue in line with it if it
can be read. -/
structure Heeds (tree : FileTree) (v : WatchedFile) (watcher : Watcher) (s : Scheduler)
    (changed : List Path) (after : Watcher) (t : Scheduler) : Prop where
  arises : t.Arises
  knows : after.Knows tree v
  named : changed.any (·.same v.path) = watcher.misses tree v
  listed : watcher.noted tree v ∈ t.watched
  unread : watcher.reads? tree v = none → t.queue.fromFile v.path = s.queue.fromFile v.path
  read : ∀ document, watcher.reads? tree v = some document →
    t.queue.InLine v.path (Scheduler.linesWith document v.extraArgs)

theorem heeds_visit (h : s.Arises) (hv : v ∈ s.watched) (watcher : Watcher) (tree : FileTree) :
    Heeds tree v watcher s (if (watcher.record tree v).1 then [v.path] else [])
      (watcher.record tree v).2 (watcher.visit tree v s) := by
  obtain ⟨included, hvisits⟩ := exists_visits h hv watcher tree
  have hsame : v.path.same v.path = true := Path.same_iff.mpr rfl
  have hmisses : (watcher.record tree v).1 = watcher.misses tree v := rfl
  cases hfound : watcher.misses tree v with
  | false =>
      have hreads : watcher.reads? tree v = none := by
        rw [reads?, hfound, if_neg Bool.false_ne_true]
      have hvisit : watcher.visit tree v s = s := by
        rw [visit, hmisses, hfound, if_neg Bool.false_ne_true]
      rw [hvisit, hmisses, hfound]
      refine ⟨h, knows_record watcher tree v, hfound.symm, ?_, fun _ => rfl, ?_⟩
      · rwa [noted, hreads]
      · rw [hreads]
        exact fun _ hsome => absurd hsome (Option.some_ne_none _).symm
  | true =>
      have hvisit : watcher.visit tree v s = s.told tree v := by
        rw [visit, hmisses, hfound, if_pos rfl]
      have hreads : watcher.reads? tree v = (Document.ofFile tree v.path).toOption := by
        rw [reads?, hfound, if_pos rfl]
      have hnamed : [v.path].any (·.same v.path) = watcher.misses tree v := by
        rw [hfound, List.any_cons, hsame, Bool.true_or]
      rw [hvisit] at hvisits
      rw [hvisit, hmisses, hfound, if_pos rfl]
      cases hdocument : Document.ofFile tree v.path with
      | error failure =>
          rw [hdocument] at hreads
          rw [Scheduler.told_of_error hdocument]
          refine ⟨h, knows_record watcher tree v, hnamed, ?_, fun _ => rfl, ?_⟩
          · rwa [noted, hreads]
          · rw [hreads]
            exact fun _ hsome => absurd hsome (Option.some_ne_none _).symm
      | ok document =>
          rw [hdocument] at hreads
          obtain ⟨hlisted, hline⟩ := Scheduler.inLine_told h hv hdocument
          refine ⟨hvisits.arises, knows_record watcher tree v, hnamed, ?_, ?_, ?_⟩
          · rwa [noted, hreads]
          · rw [hreads]
            exact fun hnone => absurd hnone (Option.some_ne_none _)
          · rw [hreads]
            intro other hsome
            obtain rfl : document = other := Option.some.inj hsome
            exact hline

theorem heeds_check (h : s.Arises) (hv : v ∈ s.watched) (watcher : Watcher) (tree : FileTree) :
    let after := watcher.check tree s
    Heeds tree v watcher s after.1 after.2.1 after.2.2 := by
  obtain ⟨front, back, hsplit⟩ := List.append_of_mem hv
  have hapart : ((front ++ v :: back).map (·.path.components)).Nodup := hsplit ▸ h.apart
  have hlisted : ∀ w ∈ front ++ v :: back, w ∈ s.watched := fun w hw => hsplit ▸ hw
  obtain ⟨hfront, hrest, hcross⟩ := List.pairwise_append.mp (List.pairwise_map.mp hapart)
  obtain ⟨hnext, hback⟩ := List.pairwise_cons.mp hrest
  have hbefore (u : WatchedFile) (hu : u ∈ v :: back) : ∀ w ∈ front,
      w ∈ s.watched ∧ w.path.same u.path = false := by
    intro w hw
    exact ⟨hlisted w (List.mem_append_left _ hw), Path.same_eq_false_iff.mpr (hcross w hw u hu)⟩
  have hspares (u : WatchedFile) (hu : u ∈ v :: back) :=
    spares_checkFiles h (hlisted u (List.mem_append_right front hu)) (hbefore u hu)
      (List.pairwise_map.mpr hfront) watcher tree
  obtain ⟨harises, hseen, hv', hfile, hunnamed⟩ := hspares v List.mem_cons_self
  have hback' : ∀ u ∈ back, u ∈ (checkFiles tree front watcher s).2.2.watched :=
    fun u hu => (hspares u (List.mem_cons_of_mem v hu)).listed
  rw [check, hsplit, checkFiles_append, checkFiles_cons]
  generalize checkFiles tree front watcher s = first at harises hseen hv' hfile hunnamed hback' ⊢
  obtain ⟨changed, watcher', s'⟩ := first
  dsimp only at harises hseen hv' hfile hunnamed hback' ⊢
  have hmisses : watcher'.misses tree v = watcher.misses tree v := by
    rw [misses, hseen, misses]
  have hreads : watcher'.reads? tree v = watcher.reads? tree v := by
    rw [reads?, hmisses, reads?]
  have hnoted : watcher'.noted tree v = watcher.noted tree v := by
    rw [noted, hreads, noted]
  obtain ⟨included, hvisits⟩ := exists_visits harises hv' watcher' tree
  obtain ⟨harises, hknows, hnamed, hlisted', hunread, hread⟩ := heeds_visit harises hv' watcher' tree
  have hpath := noted_path watcher' tree v
  have hafter : ∀ u ∈ back, u ∈ (watcher'.visit tree v s').watched ∧
      u.path.same (watcher'.noted tree v).path = false := by
    intro u hu
    have hother : v.path.same u.path = false := Path.same_eq_false_iff.mpr (hnext u hu)
    rw [hpath, Path.same_comm]
    exact ⟨hvisits.others u (hback' u hu) hother, hother⟩
  obtain ⟨harises, hseen', hlisted', hfile', hunnamed'⟩ :=
    spares_checkFiles harises hlisted' hafter (List.pairwise_map.mpr hback)
      (watcher'.record tree v).2 tree
  rw [hpath] at hseen' hfile' hunnamed'
  rw [hmisses] at hnamed
  rw [hnoted] at hlisted'
  rw [hreads] at hunread hread
  refine ⟨harises, hseen'.trans hknows, ?_, hlisted', fun hnone => ?_, fun document hsome => ?_⟩
  · rw [List.any_append, hunnamed, Bool.false_or, ← hnamed]
    cases (watcher'.record tree v).1 with
    | false => exact hunnamed'
    | true => rw [if_pos rfl, if_pos rfl, List.any_cons, List.any_cons, hunnamed', List.any_nil]
  · exact hfile'.trans ((hunread hnone).trans hfile)
  · exact (hread document hsome).congr hfile'

end Watcher

end DeviceLab
