import SwiftReflection.Cli.Program
import SwiftReflection.Names.Run
/-!
# Demangling names with a command

A demangler command is a program with leading arguments, split at white space. Each name is
passed to it as the last argument: a bare mangling from the metadata gets the `$s` prefix, a
symbol (starting with `$` or `_`) is passed as it is. The program's output, when it succeeds
and is UTF-8, is taken without surrounding white space; when that is empty or the symbol
itself, or the program cannot be started or fails, the name stays mangled. The empty name stays
empty.

A name run is demangled only when it holds no symbolic reference, since references resolve only
inside the image; otherwise it is written verbatim.
-/

namespace SwiftReflection.Cli

/-- A demangler command: the program and the arguments put before each name. -/
structure Demangler where
  program : String
  args : List String

namespace Demangler

/-- The command split at white space; a blank command names no program. -/
def ofCommand? (command : String) : Option Demangler :=
  match Text.splitBlank command with
  | [] => none
  | p :: args => some ⟨p, args⟩

/-- The symbol a name is passed as. -/
def symbolOf (name : String) : String :=
  if name.startsWith "$" || name.startsWith "_" then name else "$s" ++ name

/-- The demangled text of a symbol, if the program gives a new one. -/
def run? (d : Demangler) (symbol : String) : Option String := do
  let p ← Program.find? d.program
  let r := p.run (d.args ++ [symbol])
  if r.status != 0 then none
  let text := Text.trimBlank (← Text.decodeStrict? r.output)
  if text.isEmpty || text == symbol then none else some text

/-- Demangles a name, keeping it when the command gives nothing new. -/
def decode (d : Demangler) (name : String) : String :=
  if name.isEmpty then "" else (d.run? (symbolOf name)).getD name

/-- The name decoder of a demangler command. -/
def decoder (d : Demangler) : NameDecoder where
  decode := d.decode
  decodeRun r := if r.isPlainText then d.decode (Text.decodeLossy r.bytes) else r.verbatim

end Demangler

end SwiftReflection.Cli
