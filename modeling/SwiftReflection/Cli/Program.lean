import SwiftReflection.Cli.Program.Echo
import SwiftReflection.Cli.Program.Printf
import SwiftReflection.Cli.Program.Path
/-!
# Programs a demangler command can start

A demangler command names a program that is run once per name. The programs that can be
started are `echo`, `printf`, `basename`, `dirname`, `true` and `false`, by name or under `/bin`
and `/usr/bin`; no other program can be started.
-/

namespace SwiftReflection.Cli

/-- The programs that can be started. -/
inductive Program where
  | echo
  | printf
  | basename
  | dirname
  | succeed
  | fail
  deriving DecidableEq, Repr

/-- The program a command names: a bare name, or a path under `/bin` or `/usr/bin`. -/
def Program.find? (name : String) : Option Program :=
  let base :=
    if name.startsWith "/usr/bin/" then some (name.drop 9).toString
    else if name.startsWith "/bin/" then some (name.drop 5).toString
    else if name.contains '/' then none
    else some name
  match base with
  | some "echo" => some .echo
  | some "printf" => some .printf
  | some "basename" => some .basename
  | some "dirname" => some .dirname
  | some "true" => some .succeed
  | some "false" => some .fail
  | _ => none

/-- Runs a program with its arguments. -/
def Program.run : Program → List String → ProgramRun
  | .echo, args => runEcho args
  | .printf, args => runPrintf args
  | .basename, args => runBasename args
  | .dirname, args => runDirname args
  | .succeed, _ => ⟨0, []⟩
  | .fail, _ => ⟨1, []⟩

end SwiftReflection.Cli
