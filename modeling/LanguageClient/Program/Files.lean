import LanguageClient.Bytes

/-!
The files among which commands are looked for: the standard folders of a system, the programs in
them, and some files that are no programs.

`walk` follows a path name by name; the first name that leads nowhere decides what is wrong with
it. `search` looks a command up as the system does when it is asked to launch it.
-/

namespace LanguageClient.Files

/-- A place in the tree: the names that lead to it from the root. -/
abbrev Path := List Bytes

/-- What stands at a place. -/
inductive Entry where
  | folder
  /-- A file that may not be executed. -/
  | plain
  /-- A file that stands for a device and may not be executed. -/
  | device
  | program (name : Bytes)
  deriving DecidableEq

/-- Why a path or a command leads to nothing that can be executed. -/
inductive Fault where
  | absent
  /-- A file stands where the path needs a folder. -/
  | notFolder
  /-- A name or the whole path is longer than any can be. -/
  | tooLong
  /-- What stands there may not be executed. -/
  | notExecutable
  deriving DecidableEq

/-- The names in a path. -/
def names (path : Bytes) : List Bytes := path.splitOnP (· == Ascii.slash)

/-- The place that an absolute path without detours means. -/
def place (path : String) : Path := (names (bytes path)).filter (!·.isEmpty)

/-- How many bytes a name can have. -/
def greatestName : Nat := 255

/-- How many bytes a path can have. -/
def greatestPath : Nat := 4095

def folders : List Path :=
  ["/", "/usr", "/usr/bin", "/usr/sbin", "/usr/lib", "/usr/lib64", "/usr/share", "/usr/include",
    "/usr/local", "/usr/local/bin", "/usr/local/sbin", "/usr/local/lib", "/usr/local/share",
    "/usr/local/include", "/usr/local/etc", "/usr/local/src", "/usr/games", "/usr/src",
    "/usr/libexec", "/usr/share/doc", "/usr/share/man", "/tmp", "/etc", "/etc/default",
    "/etc/init.d", "/etc/skel", "/etc/ssl", "/etc/ssl/certs", "/etc/apt", "/etc/opt",
    "/etc/profile.d", "/etc/pam.d", "/etc/security", "/dev", "/dev/shm", "/dev/pts", "/dev/fd",
    "/home", "/root", "/var", "/var/tmp", "/var/log", "/var/lib", "/var/cache", "/var/spool",
    "/var/mail", "/var/run", "/var/opt", "/var/local", "/var/backups", "/proc", "/proc/self",
    "/proc/1", "/proc/sys", "/sys", "/sys/kernel", "/sys/fs", "/opt", "/mnt", "/media", "/srv",
    "/run", "/run/lock", "/boot"].map place

def devices : List Path :=
  ["/dev/null", "/dev/zero", "/dev/full", "/dev/random", "/dev/urandom", "/dev/tty"].map place

def plainFiles : List Path :=
  ["/etc/passwd", "/etc/group", "/etc/shadow", "/etc/gshadow", "/etc/profile", "/etc/hosts",
    "/etc/hostname", "/etc/fstab", "/etc/resolv.conf", "/etc/shells", "/etc/issue",
    "/etc/issue.net", "/etc/os-release", "/etc/debian_version", "/etc/environment",
    "/etc/bash.bashrc", "/etc/login.defs", "/etc/nsswitch.conf", "/etc/ld.so.conf",
    "/etc/ld.so.cache", "/etc/host.conf", "/etc/networks", "/etc/localtime", "/etc/machine-id",
    "/usr/lib/os-release", "/proc/version", "/proc/cpuinfo", "/proc/meminfo", "/proc/mounts",
    "/proc/uptime", "/proc/stat", "/proc/self/status", "/proc/self/maps", "/proc/self/cmdline",
    "/proc/self/environ"].map place

/-- The names of the programs. All are in one folder. -/
def programs : List Bytes :=
  ["sh", "dash", "bash", "cat", "true", "false", "sleep", "echo", "printf", "kill", "env", "head",
    "test", "["].map bytes

def programFolder : Path := place "/usr/bin"

/-- Folders that stand at a second place too. -/
def links : List (Path × Path) :=
  [("/bin", "/usr/bin"), ("/sbin", "/usr/sbin"), ("/lib", "/usr/lib"), ("/lib64", "/usr/lib64")].map
    fun (second, first) => (place second, place first)

/-- The folder that relative paths start from. Nothing is known of its name or contents. -/
def startFolder : Path := [[]]

/-- What stands at a place. -/
def entryOf? (p : Path) : Option Entry :=
  if p = startFolder ∨ folders.contains p then some .folder
  else if devices.contains p then some .device
  else if plainFiles.contains p then some .plain
  else
    match p.reverse with
    | name :: outer =>
      if outer.reverse = programFolder ∧ programs.contains name then some (.program name)
      else none
    | [] => none

/-- Goes on by one name. -/
def enter (p : Path) (name : Bytes) : Except Fault Path :=
  if entryOf? p ≠ some .folder then .error .notFolder
  else if name.isEmpty || name == bytes "." then .ok p
  else if name = bytes ".." then .ok p.dropLast
  else if greatestName < name.length then .error .tooLong
  else
    let next := p ++ [name]
    let next := (links.lookup next).getD next
    if (entryOf? next).isSome then .ok next else .error .absent

/-- Where a path starts: the root if it is absolute. -/
def start (path : Bytes) : Path := if path.head? = some Ascii.slash then [] else startFolder

/-- A path leads to the second place of a folder. -/
def isLink (path : Bytes) : Bool :=
  let target := start path ++ (names path).filter (!·.isEmpty)
  (links.lookup target).isSome && path.getLast? != some Ascii.slash

/-- Follows a path. -/
def walk (path : Bytes) : Except Fault Path :=
  if path.isEmpty then .error .absent
  else if greatestPath < path.length then .error .tooLong
  else (names path).foldlM enter (start path)

/-- The program at the end of a path. -/
def program (path : Bytes) : Except Fault Bytes := do
  match entryOf? (← walk path) with
  | some (.program name) => return name
  | some _ => throw .notExecutable
  | none => throw .absent

/-- Where commands are looked for that are given by a name alone. -/
def searched : List Bytes :=
  ["/usr/local/sbin", "/usr/local/bin", "/usr/sbin", "/usr/bin", "/sbin", "/bin"].map bytes

/-- What is found for a name in a list of folders: the first program, and if there is none but some
file that may not be executed, that. -/
def searchIn (name : Bytes) : List Bytes → Except Fault Bytes
  | [] => .error .absent
  | folder :: rest =>
    match program (folder ++ Ascii.slash :: name), searchIn name rest with
    | .ok found, _ => .ok found
    | .error .notExecutable, .error _ => .error .notExecutable
    | .error _, later => later

/-- The program that a command means. A command with a slash in it is a path. -/
def search (folders : List Bytes) (command : Bytes) : Except Fault Bytes :=
  if command.contains Ascii.slash then program command
  else if command.isEmpty then .error .absent
  else if greatestName < command.length then .error .tooLong
  else searchIn command folders

end LanguageClient.Files
