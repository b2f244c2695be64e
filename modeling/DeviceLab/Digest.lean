import DeviceLab.Digest.Sha256
import DeviceLab.FileTree

/-!
Fingerprints of lists of files.

What is hashed for a list of files is each path, a NUL byte, the bytes of the file, and a NUL byte.
A file that cannot be read counts as empty, so that its disappearance shows.
-/

namespace DeviceLab.Digest

def entry (tree : FileTree) (p : Path) : List UInt8 :=
  let content := match tree.read p with
    | .ok bytes => bytes
    | .error _ => []
  Text.encode p.text ++ 0 :: content ++ [0]

def stream (tree : FileTree) (files : List Path) : List UInt8 :=
  files.flatMap (entry tree)

def ofFiles (tree : FileTree) (files : List Path) : String :=
  hex (sha256 (stream tree files))

end DeviceLab.Digest
