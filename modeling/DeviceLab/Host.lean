namespace DeviceLab

/-- A place in a file system, by the names from the root. -/
abbrev Place := List String

/-- What stands under a name. -/
inductive FileNode
  | file (bytes : List UInt8)
  | directory
  | sink
  | program
  deriving Repr, DecidableEq

/-- A host as it is found: what stands at its places, the names at the root that are links into it,
the directory that work is done in, and what the file of a program begins with. -/
structure Host where
  nodes : List (Place × FileNode)
  links : List (String × Place)
  workplace : Place
  programBytes : List UInt8
  deriving Repr, DecidableEq

namespace Host

def node? (host : Host) (place : Place) : Option FileNode :=
  host.nodes.lookup place

def places (host : Host) : List Place :=
  host.nodes.map (·.1)

/-- The place that a place is a link to, or itself. -/
def follow (host : Host) : Place → Place
  | [name] => (host.links.lookup name).getD [name]
  | place => place

/-! A usual host.  Its system files are empty, and its programs stand in one directory. -/

def usualDirectories : List Place :=
  [["boot"], ["dev"], ["dev", "shm"], ["etc"], ["home"], ["media"], ["mnt"], ["opt"], ["proc"],
    ["root"], ["run"], ["srv"], ["sys"], ["tmp"], ["usr"], ["usr", "bin"], ["usr", "games"],
    ["usr", "include"], ["usr", "lib"], ["usr", "lib64"], ["usr", "libexec"], ["usr", "local"],
    ["usr", "local", "bin"], ["usr", "local", "lib"], ["usr", "local", "sbin"], ["usr", "sbin"],
    ["usr", "share"], ["usr", "src"], ["var"], ["var", "backups"], ["var", "cache"], ["var", "lib"],
    ["var", "local"], ["var", "log"], ["var", "mail"], ["var", "opt"], ["var", "spool"],
    ["var", "tmp"]]

def usualFiles : List Place :=
  [["etc", "debian_version"], ["etc", "fstab"], ["etc", "group"], ["etc", "host.conf"],
    ["etc", "hostname"], ["etc", "hosts"], ["etc", "issue"], ["etc", "nsswitch.conf"],
    ["etc", "os-release"], ["etc", "passwd"], ["etc", "profile"], ["etc", "resolv.conf"],
    ["etc", "shadow"], ["etc", "shells"]]

def usualPrograms : List String :=
  ["[", "arch", "awk", "base64", "basename", "bash", "cat", "chgrp", "chmod", "chown", "cksum",
    "cmp", "comm", "cp", "cut", "dash", "date", "dd", "df", "diff", "dir", "dirname", "du", "echo",
    "egrep", "env", "expand", "expr", "factor", "false", "fgrep", "find", "flock", "fmt", "fold",
    "getopt", "grep", "groups", "gzip", "head", "hostname", "id", "install", "join", "kill", "link",
    "ln", "logname", "ls", "mawk", "md5sum", "mkdir", "mkfifo", "mktemp", "more", "mv", "nice", "nl",
    "nohup", "nproc", "numfmt", "od", "paste", "pathchk", "perl", "printenv", "printf", "pwd",
    "rbash", "readlink", "realpath", "rev", "rm", "rmdir", "sed", "seq", "setsid", "sh", "sha1sum",
    "sha256sum", "shuf", "sleep", "sort", "split", "stat", "stdbuf", "stty", "sync", "tac", "tail",
    "tar", "tee", "test", "timeout", "touch", "tr", "true", "truncate", "tsort", "tty", "uname",
    "unexpand", "uniq", "unlink", "wc", "which", "who", "whoami", "xargs", "yes"]

def usual : Host where
  nodes :=
    (([] :: ["tmp", "lab"] :: usualDirectories).map fun place => (place, .directory)) ++
      (["dev", "null"], .sink) :: (usualFiles.map fun place => (place, .file [])) ++
      usualPrograms.map fun name => (["usr", "bin", name], .program)
  links :=
    [("bin", ["usr", "bin"]), ("lib", ["usr", "lib"]), ("lib64", ["usr", "lib64"]),
      ("sbin", ["usr", "sbin"])]
  workplace := ["tmp", "lab"]
  programBytes := [0x7F, 0x45, 0x4C, 0x46, 0x02, 0x01, 0x01, 0x00, 0xFF]

instance : Inhabited Host :=
  ⟨usual⟩

end Host

end DeviceLab
