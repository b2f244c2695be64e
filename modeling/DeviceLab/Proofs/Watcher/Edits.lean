import DeviceLab.Proofs.CommandFile.Sources
import DeviceLab.Proofs.Watcher.Checks
import DeviceLab.Proofs.Watcher.Fingerprint

/-!
Edits of watched files, and the checks between them.

After a check the queue stands for what a watched file says, if it says anything: either the check
has read it, or its fingerprint is that of an earlier check, and then neither the file nor those that
it includes have changed since.  This fails for a change that was found and could not be read.  It is
remembered all the same, and if the file can be read later without having changed itself, because
another file has come, then nothing is found.
-/

namespace DeviceLab

open CommandFile (Document)

/-- A scheduler with one watcher of its files, and the files as they are now. -/
structure Watch where
  tree : FileTree
  watcher : Watcher
  scheduler : Scheduler

namespace Watch

/-- A moment in the life of watched files: somebody edits them, or the watcher checks them. -/
inductive Moment
  | edit (tree : FileTree)
  | check

def step (w : Watch) : Moment → Watch
  | .edit tree => { w with tree }
  | .check =>
    let after := w.watcher.check w.tree w.scheduler
    { w with watcher := after.2.1, scheduler := after.2.2 }

def run (w : Watch) (moments : List Moment) : Watch :=
  moments.foldl step w

/-- What each check among some moments starts from. -/
def checks : Watch → List Moment → List Watch
  | _, [] => []
  | w, .edit tree :: rest => checks (w.step (.edit tree)) rest
  | w, .check :: rest => w :: checks (w.step .check) rest

section file

variable (path : Path)

/-- Whether a check names the file at `path` as changed. -/
def finds (w : Watch) : Bool :=
  (w.watcher.check w.tree w.scheduler).1.any (·.same path)

def document? (w : Watch) : Option Document :=
  (Document.ofFile w.tree path).toOption

/-- The files that a check takes the fingerprint of for the file at `path`. -/
def files (w : Watch) : List Path :=
  ((w.scheduler.watched.find? (·.path.same path)).map WatchedFile.files).getD []

def stream (w : Watch) : List UInt8 :=
  Digest.stream w.tree (w.files path)

def fingerprint (w : Watch) : String :=
  Digest.ofFiles w.tree (w.files path)

/-- What the file at `path` was read as each time when a check brought the queue in line with it. -/
def applied (cs : List Watch) : List Document :=
  (cs.filter (finds path)).filterMap (document? path)

/-- What the file at `path` was last read as, if that was `loaded` when it was added. -/
def lastApplied (loaded : Document) (cs : List Watch) : Document :=
  (applied path cs).getLastD loaded

/-- The last check that found the file at `path` changed. -/
def lastFinding? (cs : List Watch) : Option Watch :=
  (cs.filter (finds path)).getLast?

end file

variable {w start origin : Watch} {path : Path} {extraArgs : List String}

/-- What a check has read of the file at `path`: nothing, or what it says. -/
def reads? (path : Path) (w : Watch) : Option Document :=
  if w.finds path then w.document? path else none

theorem applied_concat (path : Path) (cs : List Watch) (w : Watch) :
    applied path (cs ++ [w]) = applied path cs ++ (w.reads? path).toList := by
  rw [applied, applied, List.filter_append, List.filterMap_append, reads?]
  cases hfinds : w.finds path with
  | false => simp [hfinds]
  | true => cases hdocument : w.document? path <;> simp [hfinds, hdocument]

theorem lastApplied_concat (path : Path) (loaded : Document) (cs : List Watch) (w : Watch) :
    lastApplied path loaded (cs ++ [w]) = (w.reads? path).getD (lastApplied path loaded cs) := by
  rw [lastApplied, applied_concat, lastApplied]
  cases w.reads? path with
  | none => rw [Option.toList_none, List.append_nil, Option.getD_none]
  | some document => exact List.getLastD_concat

theorem lastFinding?_concat (path : Path) (cs : List Watch) (w : Watch) :
    lastFinding? path (cs ++ [w]) = if w.finds path then some w else lastFinding? path cs := by
  rw [lastFinding?, lastFinding?, List.filter_append]
  cases hfinds : w.finds path with
  | false => simp [hfinds]
  | true => simp [hfinds]

/-- The file at `path` is watched, and noted with the includes of a document. -/
structure Notes (path : Path) (extraArgs : List String) (document : Document) (w : Watch) :
    Prop where
  arises : w.scheduler.Arises
  listed : { path, extraArgs, included := document.included } ∈ w.scheduler.watched
  named : ∀ p ∈ path :: document.included, '\x00' ∉ p.text.toList

theorem document?_eq_some_iff {document : Document} :
    w.document? path = some document ↔ Document.ofFile w.tree path = .ok document := by
  rw [document?]
  cases Document.ofFile w.tree path <;> simp [Except.toOption]

theorem named_of_document? {document : Document} (h : w.document? path = some document) :
    ∀ p ∈ path :: document.included, '\x00' ∉ p.text.toList := by
  intro p hp
  obtain ⟨text, htext⟩ := Document.readable_of_ofFile (document?_eq_some_iff.mp h) hp
  obtain ⟨bytes, hbytes, -⟩ := FileTree.read_eq_ok_of_readText htext
  exact FileTree.zero_not_mem_of_read hbytes

namespace Notes

variable {current : Document} (h : w.Notes path extraArgs current)

include h

theorem files_eq : w.files path = path :: current.included := by
  let v : WatchedFile := { path, extraArgs, included := current.included }
  have hsame : v.path.same path = true := Path.same_iff.mpr rfl
  have hfound : (w.scheduler.watched.find? (·.path.same path)).isSome = true :=
    List.find?_isSome.mpr ⟨v, h.listed, hsame⟩
  obtain ⟨u, hfind⟩ := Option.isSome_iff_exists.mp hfound
  have hu : u ∈ w.scheduler.watched := List.mem_of_find?_eq_some hfind
  have husame : u.path.same v.path = true := by simpa using List.find?_some hfind
  obtain rfl := h.arises.apart.eq_of_same hu h.listed husame
  rw [files, hfind]
  rfl

theorem finds_eq : w.finds path = (w.watcher.seen? path).any (· != w.fingerprint path) := by
  rw [fingerprint, h.files_eq]
  exact (Watcher.heeds_check h.arises h.listed w.watcher w.tree).named

theorem watcher_reads?_eq :
    w.watcher.reads? w.tree { path, extraArgs, included := current.included } = w.reads? path := by
  rw [reads?, finds, (Watcher.heeds_check h.arises h.listed w.watcher w.tree).named,
    Watcher.reads?]
  rfl

theorem check :
    (w.step .check).Notes path extraArgs ((w.reads? path).getD current) ∧
      (w.step .check).watcher.seen? path = some (w.fingerprint path) := by
  obtain ⟨harises, hknows, -, hlisted, -, -⟩ :=
    Watcher.heeds_check h.arises h.listed w.watcher w.tree
  refine ⟨⟨harises, ?_, ?_⟩, ?_⟩
  · rw [Watcher.noted, h.watcher_reads?_eq] at hlisted
    cases hreads : w.reads? path <;>
    · rw [hreads] at hlisted
      exact hlisted
  · cases hreads : w.reads? path with
    | none => exact h.named
    | some document =>
        rw [reads?, Option.ite_none_right_eq_some] at hreads
        exact named_of_document? hreads.2
  · rw [fingerprint, h.files_eq]
    exact hknows

theorem fromFile_check (hreads : w.reads? path = none) :
    (w.step .check).scheduler.queue.fromFile path = w.scheduler.queue.fromFile path :=
  (Watcher.heeds_check h.arises h.listed w.watcher w.tree).unread
    (h.watcher_reads?_eq.trans hreads)

theorem inLine_check {document : Document} (hreads : w.reads? path = some document) :
    (w.step .check).scheduler.queue.InLine path (Scheduler.linesWith document extraArgs) :=
  (Watcher.heeds_check h.arises h.listed w.watcher w.tree).read document
    (h.watcher_reads?_eq.trans hreads)

end Notes

/-- After the checks `cs` the fingerprint that is remembered for the file at `path` is the one that
the check from `origin` has taken, and what was last applied is what the file said then.  Or the
file could not be read then, though it was found changed. -/
structure Tracks (path : Path) (extraArgs : List String) (loaded : Document) (cs : List Watch)
    (origin w : Watch) : Prop where
  notes : w.Notes path extraArgs (lastApplied path loaded cs)
  seen : w.watcher.seen? path = some (origin.fingerprint path)
  mem : origin ∈ cs
  named : ∀ p ∈ origin.files path, '\x00' ∉ p.text.toList
  last : origin.document? path = some (lastApplied path loaded cs) ∨
    lastFinding? path cs = some origin ∧ origin.document? path = none ∧
      origin.files path = path :: (lastApplied path loaded cs).included
  inLine : applied path cs ≠ [] → w.scheduler.queue.InLine path
    (Scheduler.linesWith (lastApplied path loaded cs) extraArgs)

section tracks

variable {loaded : Document} {cs : List Watch}

theorem Tracks.edit (h : Tracks path extraArgs loaded cs origin w) (tree : FileTree) :
    Tracks path extraArgs loaded cs origin (w.step (.edit tree)) where
  notes := ⟨h.notes.arises, h.notes.listed, h.notes.named⟩
  seen := h.seen
  mem := h.mem
  named := h.named
  last := h.last
  inLine := h.inLine

theorem reads?_of_not_finds (h : w.finds path = false) : w.reads? path = none := by
  rw [reads?, h, if_neg Bool.false_ne_true]

theorem reads?_of_finds (h : w.finds path = true) : w.reads? path = w.document? path := by
  rw [reads?, h, if_pos rfl]

theorem Notes.inLine_concat (h : w.Notes path extraArgs (lastApplied path loaded cs))
    (hline : applied path cs ≠ [] → w.scheduler.queue.InLine path
      (Scheduler.linesWith (lastApplied path loaded cs) extraArgs))
    (hne : applied path (cs ++ [w]) ≠ []) : (w.step .check).scheduler.queue.InLine path
      (Scheduler.linesWith (lastApplied path loaded (cs ++ [w])) extraArgs) := by
  rw [applied_concat] at hne
  rw [lastApplied_concat]
  cases hreads : w.reads? path with
  | none =>
      rw [hreads, Option.toList_none, List.append_nil] at hne
      exact (hline hne).congr (h.fromFile_check hreads)
  | some document => exact h.inLine_check hreads

theorem Notes.tracks (h : w.Notes path extraArgs (lastApplied path loaded cs))
    (hline : applied path cs ≠ [] → w.scheduler.queue.InLine path
      (Scheduler.linesWith (lastApplied path loaded cs) extraArgs))
    (hlast : w.finds path = true ∨ w.document? path = some (lastApplied path loaded cs)) :
    Tracks path extraArgs loaded (cs ++ [w]) w (w.step .check) := by
  obtain ⟨hnotes, hseen⟩ := h.check
  have happlied := lastApplied_concat path loaded cs w
  rw [← happlied] at hnotes
  refine ⟨hnotes, hseen, List.mem_concat_self, ?_, ?_, h.inLine_concat hline⟩
  · rw [h.files_eq]
    exact h.named
  · cases hfinds : w.finds path with
    | false =>
        rw [reads?_of_not_finds hfinds, Option.getD_none] at happlied
        rw [hfinds] at hlast
        rw [happlied]
        exact .inl (hlast.resolve_left Bool.false_ne_true)
    | true =>
        rw [reads?_of_finds hfinds] at happlied
        cases hdocument : w.document? path with
        | some document =>
            rw [happlied, hdocument]
            exact .inl rfl
        | none =>
            rw [hdocument, Option.getD_none] at happlied
            rw [lastFinding?_concat, hfinds, if_pos rfl, h.files_eq, happlied]
            exact .inr ⟨rfl, rfl, rfl⟩

theorem Tracks.check (h : Tracks path extraArgs loaded cs origin w) :
    ∃ origin', Tracks path extraArgs loaded (cs ++ [w]) origin' (w.step .check) := by
  cases hfinds : w.finds path with
  | true => exact ⟨w, h.notes.tracks h.inLine (.inl hfinds)⟩
  | false =>
      obtain ⟨hnotes, hseen⟩ := h.notes.check
      have hreads := reads?_of_not_finds hfinds
      have happlied := lastApplied_concat path loaded cs w
      rw [hreads, Option.getD_none] at happlied
      rw [hreads, Option.getD_none, ← happlied] at hnotes
      have hsame : origin.fingerprint path = w.fingerprint path := by
        rw [h.notes.finds_eq, h.seen] at hfinds
        simpa using hfinds
      refine ⟨origin, hnotes, ?_, List.mem_append_left [w] h.mem, h.named, ?_,
        h.notes.inLine_concat h.inLine⟩
      · rw [hsame]
        exact hseen
      · rw [lastFinding?_concat, hfinds, if_neg Bool.false_ne_true, happlied]
        exact h.last

theorem Tracks.run (h : Tracks path extraArgs loaded cs origin w) (moments : List Moment) :
    ∃ origin', Tracks path extraArgs loaded (cs ++ w.checks moments) origin' (w.run moments) := by
  induction moments generalizing cs origin w with
  | nil =>
      rw [checks, List.append_nil]
      exact ⟨origin, h⟩
  | cons m rest ih =>
      cases m with
      | edit tree => exact ih (h.edit tree)
      | check =>
          obtain ⟨origin', hnext⟩ := h.check
          rw [checks, List.append_cons]
          exact ih hnext

/-- Where nothing is found, but the fingerprint is that of a check in the past, the files are those
of then. -/
theorem Tracks.unchanged (h : Tracks path extraArgs loaded cs origin w)
    (hfinds : w.finds path = false)
    (hdistinct : origin.fingerprint path = w.fingerprint path →
      origin.stream path = w.stream path)
    (hplain : ∀ p ∈ origin.files path, 0 ∉ Digest.content origin.tree p)
    (hplain' : ∀ p ∈ w.files path, 0 ∉ Digest.content w.tree p) :
    origin.files path = w.files path ∧
      ∀ p ∈ origin.files path, Digest.content origin.tree p = Digest.content w.tree p := by
  have hsame : origin.fingerprint path = w.fingerprint path := by
    rw [h.notes.finds_eq, h.seen] at hfinds
    simpa using hfinds
  refine Digest.stream_inj (fun p hp => ⟨h.named p hp, hplain p hp⟩)
    (fun p hp => ⟨h.notes.named p ?_, hplain' p hp⟩) (hdistinct hsame)
  rwa [h.notes.files_eq] at hp

end tracks

theorem agree_of_content {tree other : FileTree} {paths : List Path}
    (hread : ∀ p ∈ paths, ∃ text, tree.readText p = .ok text)
    (hsame : ∀ p ∈ paths, Digest.content tree p = Digest.content other p) :
    CommandFile.Agree tree other paths := by
  intro p hp text htext
  obtain ⟨text', htext'⟩ := hread p hp
  obtain ⟨bytes, hbytes, hdecode⟩ := FileTree.read_eq_ok_of_readText htext
  obtain ⟨bytes', hbytes', hdecode'⟩ := FileTree.read_eq_ok_of_readText htext'
  have hcontent := hsame p hp
  rw [Digest.content, Digest.content, hbytes, hbytes'] at hcontent
  obtain rfl : bytes' = bytes := hcontent
  obtain rfl : text' = text := Option.some.inj (hdecode'.symm.trans hdecode)
  exact htext'

end Watch

namespace World

open Watch

/-- A file that is added with reloading on, and checked before it is edited, is followed through all
edits: after any check that meets it readable, what was last applied is what the file says.  What is
hashed must tell the checks apart, and the files hold no NUL byte.  If the last change that was found
could not be read, then one of the files hashed for it must have changed since. -/
theorem readable_file_is_applied (settings : SchedulerSettings) (catalog : Catalog)
    (listeners : List String) (acts : List Act) (watcher : Watcher) (tree : FileTree) (path : Path)
    (extraArgs : List String) (loaded document : Document) (moments : List Moment) :
    let w := (fresh settings catalog listeners).run acts
    let start : Watch := ⟨tree, watcher, (w.act (.addFile tree path extraArgs)).scheduler⟩
    let cs := start.checks (.check :: moments)
    let last := start.run (.check :: moments)
    w.scheduler.reload = true →
    w.scheduler.watched.any (·.path.same path) = false →
    start.document? path = some loaded →
    (∀ c ∈ cs ++ [last], ∀ d ∈ cs ++ [last],
      c.fingerprint path = d.fingerprint path → c.stream path = d.stream path) →
    (∀ c ∈ cs ++ [last], ∀ p ∈ c.files path, 0 ∉ Digest.content c.tree p) →
    (∀ c ∈ lastFinding? path cs, c.document? path = none →
      ∃ p ∈ c.files path, Digest.content c.tree p ≠ Digest.content last.tree p) →
    last.document? path = some document →
    lastApplied path loaded (cs ++ [last]) = document ∧
      (applied path (cs ++ [last]) ≠ [] → (last.step .check).scheduler.queue.InLine path
        (Scheduler.linesWith document extraArgs)) := by
  intro w start cs last hreload hunwatched hloaded hdistinct hplain hmended hnow
  have hfile := document?_eq_some_iff.mp hloaded
  obtain ⟨count, t, hadd, hlisted⟩ :=
    Scheduler.mem_watched_addFile hreload hunwatched hfile extraArgs
  have hstart : start.scheduler = t := by
    change (w.act (.addFile tree path extraArgs)).scheduler = t
    rw [act, hadd]
  have harises : start.scheduler.Arises := by
    refine ⟨settings, catalog, listeners, acts ++ [.addFile tree path extraArgs], ?_⟩
    rw [World.run_append]
    rfl
  have hnotes : start.Notes path extraArgs loaded :=
    ⟨harises, hstart ▸ hlisted, named_of_document? hloaded⟩
  have hfirst : Tracks path extraArgs loaded ([] ++ [start]) start (start.step .check) :=
    Notes.tracks hnotes (fun hne => absurd rfl hne) (.inr hloaded)
  obtain ⟨origin, htracks⟩ : ∃ origin, Tracks path extraArgs loaded cs origin last :=
    hfirst.run moments
  have hlast : last ∈ cs ++ [last] := List.mem_concat_self
  have hmem : origin ∈ cs ++ [last] := List.mem_append_left [last] htracks.mem
  have happlied : lastApplied path loaded (cs ++ [last]) = document := by
    rw [lastApplied_concat]
    cases hfinds : last.finds path with
    | true => rw [reads?_of_finds hfinds, hnow, Option.getD_some]
    | false =>
        obtain ⟨hfiles, hcontent⟩ := htracks.unchanged hfinds (hdistinct origin hmem last hlast)
          (hplain origin hmem) (hplain last hlast)
        rw [reads?_of_not_finds hfinds, Option.getD_none]
        rcases htracks.last with hread | ⟨hfinding, hunread, -⟩
        · have horigin := document?_eq_some_iff.mp hread
          rw [hfiles, htracks.notes.files_eq] at hcontent
          have hagree := agree_of_content
            (fun p hp => Document.readable_of_ofFile horigin hp) hcontent
          exact (Document.eq_of_agree horigin (document?_eq_some_iff.mp hnow) hagree).symm
        -- The file could not be read when its change was found, and has been mended since.
        · obtain ⟨p, hp, hchanged⟩ := hmended origin hfinding hunread
          exact absurd (hcontent p hp) hchanged
  refine ⟨happlied, fun hne => ?_⟩
  rw [← happlied]
  exact htracks.notes.inLine_concat htracks.inLine hne

theorem readable_file_is_applied_of_mended :
    let path : Path := ⟨"cmds.txt"⟩
    let inner : Path := ⟨"inner.txt"⟩
    let bytes (text : String) : List UInt8 := text.toUTF8.toList
    let tree : FileTree := FileTree.write {} path (bytes "smoke\n")
    let broken := tree.write path (bytes "INCLUDE inner.txt\n")
    let mended :=
      (tree.write path (bytes "INCLUDE inner.txt\nsmoke\n")).write inner (bytes "flaky\n")
    let w := fresh { reload := true } ∅ []
    let start : Watch := ⟨tree, {}, (w.act (.addFile tree path [])).scheduler⟩
    let moments : List Moment :=
      [.edit broken, .check, .edit mended, .check, .check, .edit (mended.write ⟨"other.txt"⟩ [])]
    let cs := start.checks (.check :: moments)
    let last := start.run (.check :: moments)
    let document : Document :=
      { entries := [⟨["flaky"], inner, 1⟩, ⟨["smoke"], path, 2⟩], included := [inner] }
    start.document? path = some { entries := [⟨["smoke"], path, 1⟩] } ∧
      last.document? path = some document ∧
      lastApplied path { entries := [⟨["smoke"], path, 1⟩] } (cs ++ [last]) = document := by
  intro path inner bytes tree broken mended w start moments cs last document
  have hloaded : start.document? path = some { entries := [⟨["smoke"], path, 1⟩] } := by
    decide +kernel
  have hnow : last.document? path = some document := by decide +kernel
  have hdistinct : ∀ c ∈ cs ++ [last], ∀ d ∈ cs ++ [last],
      c.fingerprint path = d.fingerprint path → c.stream path = d.stream path := by
    decide +kernel
  have hplain : ∀ c ∈ cs ++ [last], ∀ p ∈ c.files path, 0 ∉ Digest.content c.tree p := by
    decide +kernel
  have hmended : ∀ c ∈ lastFinding? path cs, c.document? path = none →
      ∃ p ∈ c.files path, Digest.content c.tree p ≠ Digest.content last.tree p := by
    decide +kernel
  exact ⟨hloaded, hnow, (readable_file_is_applied { reload := true } ∅ [] [] {} tree path [] _
    document moments rfl rfl hloaded hdistinct hplain hmended hnow).1⟩

/-- A file that includes another one before that exists is not read when it comes. -/
theorem exists_missed_change :
    let path : Path := ⟨"cmds.txt"⟩
    let inner : Path := ⟨"inner.txt"⟩
    let bytes (text : String) : List UInt8 := text.toUTF8.toList
    let tree : FileTree := FileTree.write {} path (bytes "smoke\n")
    let broken := tree.write path (bytes "INCLUDE inner.txt\n")
    let w := fresh { reload := true } ∅ []
    let start : Watch := ⟨tree, {}, (w.act (.addFile tree path [])).scheduler⟩
    let moments : List Moment :=
      [.check, .edit broken, .check, .edit (broken.write inner (bytes "flaky\n"))]
    let last := start.run moments
    let loaded : Document := { entries := [⟨["smoke"], path, 1⟩] }
    start.document? path = some loaded ∧
      lastApplied path loaded (start.checks moments ++ [last]) = loaded ∧
      last.document? path = some { entries := [⟨["flaky"], inner, 1⟩], included := [inner] } := by
  decide +kernel

end World

end DeviceLab
