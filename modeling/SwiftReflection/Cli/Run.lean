import SwiftReflection.Cli.Args
import SwiftReflection.Cli.Files
import SwiftReflection.Cli.Demangler
import SwiftReflection.Cli.Render
import SwiftReflection.Format.Read
/-!
# Running the command line

A run reads its arguments, works on a file tree and leaves an exit status, standard output and a
log. Usage errors exit with 2; a missing, unreadable or malformed input, or a demangler command
naming no program, exits with 1 and prints nothing.

`dump` loads one file, or every file below a directory that looks like a binary and is not
hidden; a file of a directory that cannot be loaded is logged and skipped. Loading logs each
section whose decoding stopped, and once all is loaded every issue of a metadata section is
logged. Records that cannot be read as their typed view are logged and skipped as they are
printed. Warnings are always logged; the informational lines of a directory walk only with
`-v`.
-/

namespace SwiftReflection.Cli

/-- How important a log line is. -/
inductive Level where
  | warn
  | info
  deriving DecidableEq

/-- Whether lines of a level are logged at a verbosity. -/
def Level.shownAt : Level → Nat → Bool
  | .warn, _ => true
  | .info, v => v ≥ 1

/-- A line of the log. -/
structure LogLine where
  level : Level
  message : String

/-- What a run left: its exit status, its standard output and its log. -/
structure Outcome where
  status : Nat
  stdout : String
  log : List LogLine

/-- The warning for a section whose decoding stopped. -/
def stoppedWarning (i : Issue) : Option LogLine :=
  i.role.map fun _ => ⟨.warn, "Stopped decoding " ++ i.sectionName ++ " at " ++
    Text.hex i.address ++ ": " ++ i.error.message⟩

/-- Reads a binary and adds it to the scanner, with the warnings its scan gives. -/
def loadBinary (s : Scanner) (path : String) (data : ByteArray) :
    Except Error (List LogLine × Scanner) := do
  let (_, issues, s') ← s.add path (← Container.read path data)
  return (issues.filterMap stoppedWarning, s')

/-- What loading left: its log, and the scanner unless loading failed. -/
structure Loaded where
  log : List LogLine
  scanner : Option Scanner

/-- Loads the file at a path, which must exist and be a file. -/
def loadFile (t : FileTree) (path : String) (s : Scanner) : Loaded :=
  match t.lookup? path with
  | some (.file data) =>
    match loadBinary s path data with
    | .ok (log, s') => ⟨log, some s'⟩
    | .error _ => ⟨[], none⟩
  | _ => ⟨[], none⟩

/-- Adds one file found by walking a directory, unless it is hidden or does not look like a
binary; a file that cannot be loaded is logged. -/
def loadFound (acc : List LogLine × Scanner × Nat) (found : String × ByteArray) :
    List LogLine × Scanner × Nat :=
  let (log, s, count) := acc
  let (path, data) := found
  let name := fileName path
  if name.startsWith "." || !looksLikeBinary name data then acc
  else
    match loadBinary s path data with
    | .ok (more, s') => (log ++ more, s', count + 1)
    | .error e => (log ++ [⟨.warn, "Error loading " ++ path ++ ": " ++ e.message⟩], s, count)

/-- Loads the binaries below the directory at a path, which must exist and be a directory. -/
def loadDirectory (t : FileTree) (path : String) (s : Scanner) : Loaded :=
  match t.resolve? path with
  | some dir =>
    match t.entry? dir with
    | some .directory =>
      let (log, s', count) := (t.walk dir path).foldl loadFound ([], s, 0)
      ⟨[⟨.info, "Scanning directory: " ++ path⟩] ++ log ++
        [⟨.info, "Loaded " ++ toString count ++ " binaries"⟩], some s'⟩
    | _ => ⟨[], none⟩
  | none => ⟨[], none⟩

/-- The printed records of a role under its header, and a warning for each record that cannot
be read as its typed view. -/
def renderRole (s : Scanner) (names : NameDecoder) (r : Role) (title : String) :
    String × List LogLine :=
  let views := s.typedViews r names
  let shown (v : Except Error Views.TypedView) : String :=
    match v with
    | .ok view => renderView view
    | .error _ => ""
  let skipped (v : Except Error Views.TypedView) : Option LogLine :=
    match v with
    | .ok _ => none
    | .error e => some ⟨.warn, "Skipping " ++ r.short ++ " record: " ++ e.message⟩
  (header title ++ String.join (views.map shown), views.filterMap skipped)

/-- Prints the records of the wanted roles and, if asked, every image's symbols. -/
def renderDump (s : Scanner) (o : DumpOptions) (names : NameDecoder) : String × List LogLine :=
  let wanted := dumpedRoles.filter fun p => o.role.all (· == p.1)
  let parts := wanted.map fun p => renderRole s names p.1 p.2
  let symbols := if o.symbols then
      header "Symbols" ++ String.join (s.images.map fun img =>
        String.join (img.symbols.map fun sym => names.decode sym.name ++ "\n"))
    else ""
  (String.join (parts.map (·.1)) ++ symbols, (parts.map (·.2)).flatten)

/-- Runs `dump`. -/
def runDump (t : FileTree) (o : DumpOptions) : Outcome :=
  let config : ScanConfig :=
    { policy := if o.failFast then .failFast else .isolate, maxRecords := o.maxRecords }
  let loaded := match o.input with
    | .file p => loadFile t p { config }
    | .directory p => loadDirectory t p { config }
  match loaded.scanner with
  | none => ⟨1, "", loaded.log⟩
  | some s =>
    let log := loaded.log ++ s.issues.filterMap fun i =>
      i.role.map fun _ => (⟨.warn, i.display⟩ : LogLine)
    let names := match o.demangler with
      | some command => (Demangler.ofCommand? command).map Demangler.decoder
      | none => some NameDecoder.verbatim
    match names with
    | none => ⟨1, "", log⟩
    | some names =>
      let (text, warnings) := renderDump s o names
      ⟨0, text, log ++ warnings⟩

/-- Runs `sections`: one line per section of the file, in the file's order. -/
def runSections (t : FileTree) (path : String) : Outcome :=
  match t.lookup? path with
  | some (.file data) =>
    match Container.read path data with
    | .ok c => ⟨0, String.join (c.sections.map (sectionLine .swift5)), []⟩
    | .error _ => ⟨1, "", []⟩
  | _ => ⟨1, "", []⟩

/-- Runs a request on a file tree, logging at the invocation's verbosity. -/
def Invocation.run (i : Invocation) (t : FileTree) : Outcome :=
  let out := match i.request with
    | .dump o => runDump t o
    | .sections p => runSections t p
    | .print text => ⟨0, text, []⟩
    | .usageError => ⟨2, "", []⟩
  { out with log := out.log.filter fun l => l.level.shownAt i.verbosity }

/-- Runs the command line with its arguments on a file tree. -/
def runCommandLine (args : List String) (t : FileTree) : Outcome :=
  (Invocation.parse args).run t

end SwiftReflection.Cli
