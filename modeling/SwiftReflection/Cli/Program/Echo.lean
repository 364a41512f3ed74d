import SwiftReflection.Cli.Program.Basic
/-!
# The echo program

`echo` reads leading options made of `-` and the letters `n` (no final newline), `e` (read
escapes) and `E` (do not), then writes its arguments separated by blanks. With escapes it knows
the backslash escapes of C, `\0` with up to three octal digits, and `\c`, which ends all
output.
-/

namespace SwiftReflection.Cli

/-- Puts bytes in front of an output that may have been cut by `\c`. -/
def prependOut (xs : List UInt8) (r : List UInt8 × Bool) : List UInt8 × Bool :=
  (xs ++ r.1, r.2)

/-- The text `echo` writes for an argument when it reads escapes, and whether `\c` ended all
output. `\0` takes up to three more octal digits, `\1` to `\7` up to two, `\x` one or two
hexadecimal digits; an unknown escape is written as it stands. -/
def echoEscapes (bs : List UInt8) : List UInt8 × Bool :=
  match bs with
  | [] => ([], false)
  | 0x5C :: c :: rest =>
    if c == byte 'c' then ([], true)
    else if c == byte 'x' then
      let (v, k) := digitRun 16 2 0 0 rest
      if k == 0 then prependOut [0x5C, c] (echoEscapes rest)
      else prependOut [v.toUInt8] (echoEscapes (rest.drop k))
    else if c == byte '0' then
      let (v, k) := digitRun 8 3 0 0 rest
      prependOut [v.toUInt8] (echoEscapes (rest.drop k))
    else if byte '1' ≤ c && c ≤ byte '7' then
      let (v, k) := digitRun 8 2 (c.toNat - 0x30) 0 rest
      prependOut [v.toUInt8] (echoEscapes (rest.drop k))
    else if c == 0x5C then prependOut [0x5C] (echoEscapes rest)
    else
      match letterEscape? c with
      | some e => prependOut [e] (echoEscapes rest)
      | none => prependOut [0x5C, c] (echoEscapes rest)
  | b :: rest => prependOut [b] (echoEscapes rest)
termination_by bs.length
decreasing_by all_goals (simp only [List.length_drop, List.length_cons]; omega)

/-- Reads the leading options of `echo`: whether to end with a newline, whether to read escapes,
and the arguments to write. -/
def echoOptions (newline escapes : Bool) : List String → Bool × Bool × List String
  | [] => (newline, escapes, [])
  | a :: rest =>
    match a.toList with
    | '-' :: letters@(_ :: _) =>
      if letters.all (fun c => c == 'n' || c == 'e' || c == 'E') then
        let nl := newline && !letters.contains 'n'
        let esc := letters.foldl (fun e c => if c == 'e' then true else if c == 'E' then false else e)
          escapes
        echoOptions nl esc rest
      else (newline, escapes, a :: rest)
    | _ => (newline, escapes, a :: rest)

/-- Writes the arguments of `echo` separated by blanks; with escapes, `\c` ends all output. -/
def echoWords (escapes : Bool) : List String → List UInt8 × Bool
  | [] => ([], false)
  | w :: rest =>
    let (text, stop) := if escapes then echoEscapes w.toUTF8.toList else (w.toUTF8.toList, false)
    if stop then (text, true)
    else
      let sep : List UInt8 := if rest.isEmpty then [] else [0x20]
      prependOut (text ++ sep) (echoWords escapes rest)

/-- Runs `echo`. -/
def runEcho (args : List String) : ProgramRun :=
  let (newline, escapes, words) := echoOptions true false args
  let (text, stop) := echoWords escapes words
  ⟨0, if newline && !stop then text ++ [10] else text⟩

end SwiftReflection.Cli
