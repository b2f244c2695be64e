import DeviceLab.Digest
import DeviceLab.Scheduler.Submission

/-!
Watching command files for changes.

A watcher remembers a fingerprint for each watched file and everything it includes.  A check tells
the scheduler of each file whose fingerprint has changed; a file seen for the first time is only
remembered.
-/

namespace DeviceLab

/-- The fingerprints that a watcher remembers. -/
structure Watcher where
  seen : List (Path × String) := []
  deriving Repr, DecidableEq, Inhabited

namespace Watcher

def seen? (watcher : Watcher) (path : Path) : Option String :=
  (watcher.seen.find? (·.1.same path)).map (·.2)

/-- Remember the fingerprint of a watched file as it is now, and say whether another one was
remembered. -/
def record (watcher : Watcher) (tree : FileTree) (w : WatchedFile) : Bool × Watcher :=
  let digest := Digest.ofFiles tree w.files
  ((watcher.seen? w.path).any (· != digest),
    ⟨(w.path, digest) :: watcher.seen.filter fun entry => !entry.1.same w.path⟩)

/-- Check some watched files.  The answer lists those that have changed. -/
def checkFiles (tree : FileTree) :
    List WatchedFile → Watcher → Scheduler → List Path × Watcher × Scheduler
  | [], watcher, s => ([], watcher, s)
  | w :: rest, watcher, s =>
    match watcher.record tree w with
    | (false, watcher) => checkFiles tree rest watcher s
    | (true, watcher) =>
      let s := match s.notifyChanged tree w.path w.extraArgs with
        | .ok s => s
        | .error _ => s
      let (changed, watcher, s) := checkFiles tree rest watcher s
      (w.path :: changed, watcher, s)

def check (watcher : Watcher) (tree : FileTree) (s : Scheduler) :
    List Path × Watcher × Scheduler :=
  checkFiles tree s.watched watcher s

end Watcher

end DeviceLab
