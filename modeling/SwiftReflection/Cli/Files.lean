/-!
# Files seen by the command line

The command line reads files and walks directories. A `FileTree` holds the files it can see by
absolute path, a path being the list of its names, together with the directories and the working
directory. Resolving a path follows the rules of a Unix file system: empty names and `.` stay
where they are, `..` goes up (and stays at the root), and a name followed by more of the path,
even by a trailing slash, must be a directory.

Walking a directory lists the files below it depth first, the entries of each directory in the
order of their names; each file is shown as the directory's path as written, joined with the
names below it.

Whether a file found by walking looks like a binary is a heuristic: its extension, its size and
its first four bytes decide.
-/

namespace SwiftReflection.Cli

/-- What a path names: a file with its contents, or a directory. -/
inductive Entry where
  | file (data : ByteArray)
  | directory

/-- The files and directories the command line can see. -/
structure FileTree where
  files : List (List String × ByteArray) := []
  dirs : List (List String) := []
  cwd : List String := []

namespace FileTree

/-- Whether a path is a directory: the root, a listed directory or one above it, or one that
holds a file. -/
def isDir (t : FileTree) (p : List String) : Bool :=
  p.isEmpty || t.dirs.any (p.isPrefixOf ·) ||
    t.files.any fun f => p.isPrefixOf f.1 && p.length < f.1.length

/-- What is at an absolute path. -/
def entry? (t : FileTree) (p : List String) : Option Entry :=
  match t.files.find? (·.1 == p) with
  | some (_, d) => some (.file d)
  | none => if t.isDir p then some .directory else none

/-- Follows the names of a path from a directory; every name before the end must be reached
from a directory. -/
def follow (t : FileTree) : List String → List String → Option (List String)
  | cur, [] => some cur
  | cur, n :: rest =>
    if !t.isDir cur then none
    else if n == "" || n == "." then t.follow cur rest
    else if n == ".." then t.follow cur.dropLast rest
    else t.follow (cur ++ [n]) rest

/-- The absolute path a path names, if every directory on the way exists. -/
def resolve? (t : FileTree) (path : String) : Option (List String) :=
  match path.splitOn "/" with
  | "" :: rest => if path.isEmpty then none else t.follow [] rest
  | parts => t.follow t.cwd parts

/-- What a path names, if anything. -/
def lookup? (t : FileTree) (path : String) : Option Entry :=
  (t.resolve? path).bind t.entry?

/-- Adds a file at an absolute path, replacing one that is there. -/
def addFile (t : FileTree) (p : List String) (data : ByteArray) : FileTree :=
  { t with files := (t.files.filter (·.1 != p)) ++ [(p, data)] }

/-- Adds a directory at an absolute path. -/
def addDir (t : FileTree) (p : List String) : FileTree :=
  { t with dirs := t.dirs ++ [p] }

end FileTree

/-- Whether one list of names comes before another: the first differing name decides, by code
point order, and a list comes before its extensions. -/
def namesBefore : List String → List String → Bool
  | [], _ => true
  | _ :: _, [] => false
  | a :: as, b :: bs => if a == b then namesBefore as bs else decide (a < b)

/-- A path as written, extended by names: a separator is added unless the path ends with one. -/
def joinNames (base : String) (names : List String) : String :=
  names.foldl (fun acc n => if acc.endsWith "/" then acc ++ n else acc ++ "/" ++ n) base

/-- The files below a directory, depth first in name order, each with the path it is shown
under and its contents. -/
def FileTree.walk (t : FileTree) (dir : List String) (shown : String) :
    List (String × ByteArray) :=
  let below := t.files.filterMap fun f =>
    if dir.isPrefixOf f.1 && dir.length < f.1.length then some (f.1.drop dir.length, f.2)
    else none
  (below.mergeSort fun a b => namesBefore a.1 b.1).map fun f => (joinNames shown f.1, f.2)

/-- The last name of a path as written. -/
def fileName (path : String) : String :=
  (path.splitOn "/").getLastD ""

/-- The extension of a file name: what follows its last dot, unless that dot starts the name. -/
def extension? (name : String) : Option String :=
  if name == ".." then none
  else
    match (name.splitOn ".").reverse with
    | ext :: before :: more =>
      if more.isEmpty && before.isEmpty then none else some ext
    | _ => none

/-- Extensions of files that are never binaries, in lower case. -/
def textExtensions : List String :=
  ["txt", "md", "json", "yaml", "yml", "xml", "plist", "html", "css", "js", "py", "rb",
    "swift", "h", "m", "c", "cpp", "hpp", "rs", "toml", "ini", "cfg", "conf", "log", "csv",
    "svg", "png", "jpg", "jpeg", "gif", "pdf", "zip", "tar", "gz", "xz", "sh", "bat",
    "strings", "nib", "car"]

/-- The first bytes of the binaries recognized outright: Mach-O of either width and byte order,
universal Mach-O, ELF, and `MZ` executables. -/
def binaryMagic (data : ByteArray) : Bool :=
  match (data.extract 0 4).toList with
  | [0xCF, 0xFA, 0xED, 0xFE] | [0xCE, 0xFA, 0xED, 0xFE] | [0xFE, 0xED, 0xFA, 0xCF]
  | [0xFE, 0xED, 0xFA, 0xCE] | [0xCA, 0xFE, 0xBA, 0xBE] | [0x7F, 0x45, 0x4C, 0x46] => true
  | [0x4D, 0x5A, _, _] => true
  | _ => false

/-- Whether a file found by walking looks like a binary: no text extension (compared in lower
case; only ASCII letters can lower to the letters of the list), between 1 KiB and 1 GiB, and
either a known magic number or no extension at all. -/
def looksLikeBinary (name : String) (data : ByteArray) : Bool :=
  let ext := extension? name
  if (ext.map fun e => textExtensions.contains (e.map Char.toLower)).getD false then false
  else if data.size < 1024 || data.size > 1024 * 1024 * 1024 then false
  else binaryMagic data || ext.isNone

end SwiftReflection.Cli
