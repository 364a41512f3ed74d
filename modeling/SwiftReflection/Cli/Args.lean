import SwiftReflection.Word
import SwiftReflection.Scan.Table
/-!
# The command line's arguments

The command line has two commands: `dump` prints the metadata of a file or of the binaries in a
directory, `sections` lists the sections of a file. `-v` (`--verbose`) may be given any number
of times, before or after the command; `-h` (`--help`) and `-V` (`--version`) print help or the
version at once.

Arguments are read in order. A long option is `--name` or `--name=value`; short options may be
grouped (`-vf path`, `-fpath`, `-f=path`). An option's value is the rest of its word or else the
next word, which must not look like another option (`-` alone is a value). A word after `--`,
an unknown option, a value given to a flag, a missing or invalid value, and an option given
twice are usage errors, found as they are read; a missing input is found at the end. Paths
must not be empty, roles are the sections' short names, and the record limit is a decimal
number that fits in 64 bits.
-/

namespace SwiftReflection.Cli

/-- Where `dump` reads binaries from. -/
inductive Input where
  | file (path : String)
  | directory (path : String)

/-- What `dump` was asked for. -/
structure DumpOptions where
  input : Input
  symbols : Bool
  role : Option Role
  maxRecords : Nat
  failFast : Bool
  demangler : Option String

/-- What the command line asks for: a command, a text to print (help or version), or nothing
because the arguments are wrong. -/
inductive Request where
  | dump (o : DumpOptions)
  | sections (path : String)
  | print (text : String)
  | usageError

/-- A request with the verbosity it was given. -/
structure Invocation where
  verbosity : Nat
  request : Request

/-- The commands whose options are read. -/
inductive Command where
  | main
  | dump
  | sections
  deriving DecidableEq

/-- An option: its long name, its short letter, and whether it takes a value. -/
structure OptionSpec where
  long : String
  short : Option Char
  takesValue : Bool

/-- The options of a command; every command knows `--verbose`, `--help` and `--version`. -/
def Command.options : Command → List OptionSpec
  | .main => common
  | .dump =>
    [⟨"file", some 'f', true⟩, ⟨"directory", some 'd', true⟩, ⟨"symbols", none, false⟩,
      ⟨"role", none, true⟩, ⟨"max-records", none, true⟩, ⟨"fail-fast", none, false⟩,
      ⟨"demangler", none, true⟩] ++ common
  | .sections => [⟨"file", some 'f', true⟩] ++ common
where
  common : List OptionSpec :=
    [⟨"verbose", some 'v', false⟩, ⟨"help", some 'h', false⟩, ⟨"version", some 'V', false⟩]

/-- The name the tool prints in its help and version lines. -/
def toolName : String := "gestalt"

/-- The version of the tool. -/
def toolVersion : String := "0.1.0"

/-- The version line a command prints. -/
def Command.versionText : Command → String
  | .main => toolName ++ " " ++ toolVersion ++ "\n"
  | .dump => toolName ++ "-dump " ++ toolVersion ++ "\n"
  | .sections => toolName ++ "-sections " ++ toolVersion ++ "\n"

/-- The help a command prints. -/
def Command.helpText : Command → String
  | .main =>
    "Dump Swift reflection metadata embedded in compiled binaries\n\n" ++
    "Usage: " ++ toolName ++ " [OPTIONS] <COMMAND>\n\n" ++
    "Commands:\n" ++
    "  dump      Print decoded metadata as Swift-like declarations\n" ++
    "  sections  List the sections of a binary and how they are classified\n" ++
    "  help      Print this message or the help of the given subcommand(s)\n\n" ++
    "Options:\n" ++
    "  -v, --verbose...  Verbosity level (-v, -vv, -vvv)\n" ++
    "  -h, --help        Print help\n" ++
    "  -V, --version     Print version\n"
  | .dump =>
    "Print decoded metadata as Swift-like declarations\n\n" ++
    "Usage: " ++ toolName ++ " dump [OPTIONS] <--file <FILE>|--directory <DIRECTORY>>\n\n" ++
    "Options:\n" ++
    "  -f, --file <FILE>                Path to a single binary file to dump\n" ++
    "  -d, --directory <DIRECTORY>      Path to a directory of binaries to process\n" ++
    "      --symbols                    Also print the symbols of every image\n" ++
    "      --role <ROLE>                Only print records of this role " ++
    "(fieldmd, assocty, builtin, protos, proto)\n" ++
    "      --max-records <MAX_RECORDS>  Maximum number of records decoded per section " ++
    "(0 = unlimited) [default: 0]\n" ++
    "      --fail-fast                  Reject an image at its first corrupt record " ++
    "instead of skipping it\n" ++
    "      --demangler <COMMAND>        Demangler command names are passed to, e.g. " ++
    "\"swift-demangle --compact\" (names are printed mangled without one)\n" ++
    "  -v, --verbose...                 Verbosity level (-v, -vv, -vvv)\n" ++
    "  -h, --help                       Print help\n" ++
    "  -V, --version                    Print version\n"
  | .sections =>
    "List the sections of a binary and how they are classified\n\n" ++
    "Usage: " ++ toolName ++ " sections [OPTIONS] --file <FILE>\n\n" ++
    "Options:\n" ++
    "  -f, --file <FILE>  Path to the binary to inspect\n" ++
    "  -v, --verbose...   Verbosity level (-v, -vv, -vvv)\n" ++
    "  -h, --help         Print help\n" ++
    "  -V, --version      Print version\n"

/-- Reads a record limit: an optional `+` and decimal digits, below 2^64. -/
def parseCount? (s : String) : Option Nat :=
  let digits := match s.toList with
    | '+' :: rest => rest
    | cs => cs
  if digits.isEmpty || !digits.all Char.isDigit then none
  else
    let n := digits.foldl (fun acc c => acc * 10 + (c.toNat - '0'.toNat)) 0
    if n < pow2 64 then some n else none

/-- Whether a value given to an option is acceptable. -/
def valueAccepted (long value : String) : Bool :=
  if long == "file" || long == "directory" then !value.isEmpty
  else if long == "role" then (Role.parse value).toBool
  else if long == "max-records" then (parseCount? value).isSome
  else true

/-- The options read so far, with their values (`none` for flags). -/
abbrev Given := List (String × Option String)

/-- How reading a command's words ends: all were read, a text is to be printed at once, or the
words are wrong. -/
inductive ReadEnd where
  | done (given : Given) (verbosity : Nat)
  | print (text : String)
  | usageError

/-- Records an option; giving one twice, other than `--verbose`, is an error. -/
def record (given : Given) (long : String) (value : Option String) : Option Given :=
  if given.any (·.1 == long) then none
  else match value with
    | some v => if valueAccepted long v then some (given ++ [(long, value)]) else none
    | none => some (given ++ [(long, none)])

/-- Whether a word can be the value of an option that precedes it. -/
def isValueWord (w : String) : Bool :=
  w == "-" || !w.startsWith "-"

/-- What a flag does when it is read: count verbosity, print help or version, or be recorded. -/
def flagStep (c : Command) (given : Given) (verbosity : Nat) (long : String) :
    Option (Given × Nat) ⊕ String :=
  if long == "verbose" then .inl (some (given, verbosity + 1))
  else if long == "help" then .inr c.helpText
  else if long == "version" then .inr c.versionText
  else .inl ((record given long none).map (·, verbosity))

mutual

/-- Reads the words of a command. -/
def readWords (c : Command) : List String → Given → Nat → ReadEnd
  | [], given, v => .done given v
  | w :: rest, given, v =>
    if w == "--" then if rest.isEmpty then .done given v else .usageError
    else if w.startsWith "--" then
      let body := (w.drop 2).toString
      let (name, attached) := match body.splitOn "=" with
        | n :: more@(_ :: _) => (n, some (String.intercalate "=" more))
        | _ => (body, none)
      match c.options.find? (·.long == name) with
      | none => .usageError
      | some o =>
        if o.takesValue then
          match attached with
          | some value => match record given name (some value) with
            | some g => readWords c rest g v
            | none => .usageError
          | none =>
            match rest with
            | next :: more =>
              if isValueWord next then
                match record given name (some next) with
                | some g => readWords c more g v
                | none => .usageError
              else .usageError
            | [] => .usageError
        else if attached.isSome then .usageError
        else match flagStep c given v name with
          | .inr text => .print text
          | .inl (some (g, v')) => readWords c rest g v'
          | .inl none => .usageError
    else if w.startsWith "-" && w.length > 1 then
      readCluster c (w.drop 1).toString.toList rest given v
    else .usageError
termination_by ws => (ws.length, 0, 0)

/-- Reads a group of short options; an option that takes a value ends the group. -/
def readCluster (c : Command) : List Char → List String → Given → Nat → ReadEnd
  | [], rest, given, v => readWords c rest given v
  | ch :: more, rest, given, v =>
    match c.options.find? (·.short == some ch) with
    | none => .usageError
    | some o =>
      if o.takesValue then
        if more.isEmpty then
          match rest with
          | next :: after =>
            if isValueWord next then
              match record given o.long (some next) with
              | some g => readWords c after g v
              | none => .usageError
            else .usageError
          | [] => .usageError
        else
          let value := match more with
            | '=' :: r => String.ofList r
            | r => String.ofList r
          match record given o.long (some value) with
          | some g => readWords c rest g v
          | none => .usageError
      else match flagStep c given v o.long with
        | .inr text => .print text
        | .inl (some (g, v')) => readCluster c more rest g v'
        | .inl none => .usageError
termination_by cs ws => (ws.length, 1, cs.length)

end

/-- The value given to an option, if any. -/
def valueOf? (given : Given) (long : String) : Option String :=
  (given.find? (·.1 == long)).bind (·.2)

/-- Whether a flag was given. -/
def flagGiven (given : Given) (long : String) : Bool :=
  given.any (·.1 == long)

/-- The options of `dump`; exactly one of a file and a directory must be given. -/
def dumpOptions? (given : Given) : Option DumpOptions := do
  let input ← match valueOf? given "file", valueOf? given "directory" with
    | some f, none => some (Input.file f)
    | none, some d => some (Input.directory d)
    | _, _ => none
  some ⟨input, flagGiven given "symbols",
    (valueOf? given "role").bind fun r => (Role.parse r).toOption,
    ((valueOf? given "max-records").bind parseCount?).getD 0, flagGiven given "fail-fast",
    valueOf? given "demangler"⟩

/-- The request of a command once all its words are read. -/
def finishCommand (c : Command) (verbosity : Nat) : ReadEnd → Invocation
  | .print text => ⟨verbosity, .print text⟩
  | .usageError => ⟨verbosity, .usageError⟩
  | .done given v =>
    match c with
    | .dump => ⟨v, ((dumpOptions? given).map Request.dump).getD .usageError⟩
    | .sections => ⟨v, ((valueOf? given "file").map Request.sections).getD .usageError⟩
    | .main => ⟨v, .usageError⟩

/-- The help the `help` command prints for the commands named after it. -/
def helpFor : List String → Request
  | [] => .print Command.main.helpText
  | ["dump"] => .print Command.dump.helpText
  | ["sections"] => .print Command.sections.helpText
  | ["help"] => .print ("Print this message or the help of the given subcommand(s)\n\n" ++
      "Usage: " ++ toolName ++ " help [COMMAND]...\n\n" ++
      "Arguments:\n  [COMMAND]...  Print help for the subcommand(s)\n")
  | _ => .usageError

/-- Reads the words before the command: options of the tool, then the command's name. -/
def readMain : List String → Nat → Invocation
  | [], v => ⟨v, .usageError⟩
  | w :: rest, v =>
    if w == "dump" then finishCommand .dump v (readWords .dump rest [] v)
    else if w == "sections" then finishCommand .sections v (readWords .sections rest [] v)
    else if w == "help" then ⟨v, helpFor rest⟩
    else if w.startsWith "-" && w != "-" && w != "--" then
      match readWords .main [w] [] v with
      | .done _ v' => readMain rest v'
      | .print text => ⟨v, .print text⟩
      | .usageError => ⟨v, .usageError⟩
    else ⟨v, .usageError⟩

/-- Reads a command line. -/
def Invocation.parse (args : List String) : Invocation :=
  readMain args 0

end SwiftReflection.Cli
