import DeviceLab.Console

/-!
The program.

The files below the working directory and the settings in the home directory are read first; the
answer to the command line is then a matter of what has been read.
-/

namespace DeviceLab

def maxDirectoryDepth : Nat := 32

def homeName : String := "~"

/-- The tree with the entries of a directory whose place is given.  What cannot be read is left
out. -/
def gather : Nat → Place → FileTree → List IO.FS.DirEntry → IO FileTree
  | 0, _, tree, _ => pure tree
  | depth + 1, place, tree, entries =>
    entries.foldlM (fun tree entry => do
      let place := place ++ [entry.fileName]
      try
        if ← entry.path.isDir then
          let inside := (← entry.path.readDir).toList
          gather depth place (tree.put place .directory) inside
        else
          let bytes ← IO.FS.readBinFile entry.path
          return tree.put place (.file bytes.toList)
      catch _ => return tree) tree

/-- The tree with the settings in the home directory, if there are any. -/
def gatherSettings (tree : FileTree) : IO FileTree := do
  match ← IO.getEnv "HOME", (Console.settingsPaths ⟨homeName⟩).head? with
  | some home, some path =>
    try
      let rest := String.ofList (path.text.toList.drop homeName.length)
      let bytes ← IO.FS.readBinFile (home ++ rest)
      return tree.write path bytes.toList
    catch _ => return tree
  | _, _ => return tree

end DeviceLab

open DeviceLab in
def main (args : List String) : IO UInt32 := do
  let entries := (← (← IO.currentDir).readDir).toList
  let tree ← gatherSettings (← gather maxDirectoryDepth Host.usual.workplace {} entries)
  let reply := Console.answer tree ⟨homeName⟩ args
  let output ← IO.getStdout
  output.putStr reply.output
  output.flush
  return UInt32.ofNat reply.code
