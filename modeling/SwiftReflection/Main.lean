import SwiftReflection.Cli.Run
/-!
# The command line

Reads the files the arguments name (the input file, or every file below the input directory),
runs the command line on them, prints its log and then its output, and exits with its status.
Log lines carry their level in five columns before the message.
-/

namespace SwiftReflection.Cli

/-- The absolute names of a path as written, with `.` and `..` read as steps. -/
def absoluteNames (cwd : List String) (path : String) : List String :=
  let start := if path.startsWith "/" then [] else cwd
  (path.splitOn "/").foldl (fun acc n =>
    if n == "" || n == "." then acc else if n == ".." then acc.dropLast else acc ++ [n]) start

/-- The paths whose files a request reads: the input file, or the input directory. -/
def Request.inputs : Request → List String × List String
  | .dump o => match o.input with
    | .file p => ([p], [])
    | .directory p => ([], [p])
  | .sections p => ([p], [])
  | _ => ([], [])

/-- A log line as printed. -/
def LogLine.text (l : LogLine) : String :=
  (match l.level with
    | .warn => " WARN "
    | .info => " INFO ") ++ l.message

/-- Adds the file at a path, if it can be read. -/
def addReadable (t : FileTree) (names : List String) (path : String) : IO FileTree := do
  match ← (IO.FS.readBinFile path).toBaseIO with
  | .ok data => pure (t.addFile names data)
  | .error _ => pure t

/-- Adds a directory and every file below it that can be read. -/
partial def addDirectory (t : FileTree) (names : List String) (path : String) : IO FileTree := do
  let dir := System.mkFilePath [path]
  if !(← dir.isDir) then return t
  let mut tree := t.addDir names
  for e in ← dir.readDir do
    let child := path ++ "/" ++ e.fileName
    if ← (System.mkFilePath [child]).isDir then
      tree ← addDirectory tree (names ++ [e.fileName]) child
    else
      tree ← addReadable tree (names ++ [e.fileName]) child
  return tree

end SwiftReflection.Cli

open SwiftReflection.Cli in
/-- Runs the command line. -/
def main (args : List String) : IO UInt32 := do
  let invocation := Invocation.parse args
  let cwd := absoluteNames [] (← IO.currentDir).toString
  let (files, dirs) := invocation.request.inputs
  let mut tree : FileTree := { cwd := cwd }
  for p in files do
    tree ← addReadable tree (absoluteNames cwd p) p
  for p in dirs do
    tree ← addDirectory tree (absoluteNames cwd p) p
  let out := invocation.run tree
  let stdout ← IO.getStdout
  for l in out.log do
    stdout.putStrLn l.text
  stdout.putStr out.stdout
  stdout.flush
  return out.status.toUInt32
