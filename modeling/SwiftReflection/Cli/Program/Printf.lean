import SwiftReflection.Cli.Program.Basic
import SwiftReflection.Extended.Read
import SwiftReflection.Extended.Write
import SwiftReflection.Text.ShellQuote
/-!
# The printf program

`printf` writes its first argument as a format that converts the other arguments one by one,
and goes through the format again while arguments remain and the last pass used some. A
missing argument converts as the empty text. The format knows the backslash escapes of C;
`\c` ends all output.

Conversions are strings (`%s`, `%c`), `%b` (a string with its escapes read), `%q` (a string
quoted for the shell), integers (`%d`, `%i`, `%u`, `%o`, `%x`, `%X`) and floating numbers
(`%f`, `%e`, `%g`, `%a` and their capitals), with flags, width and precision. `%b` and `%q`
take neither flags, width nor precision, and `%c` takes no precision.

An argument that is not wholly a number, or whose value is out of range for its conversion,
makes the run fail once the format is done. A malformed conversion fails the run at once.
-/

namespace SwiftReflection.Cli

/-- How an escape of `printf` ends: output goes on, ends successfully, or the run fails. -/
inductive EscapeEnd where
  | more
  | stop
  | abort
  deriving DecidableEq

/-- How a character named by `\u` or `\U` is written in the C locale: an ASCII character as
itself, any other as the escape again, `\u` with four or `\U` with eight uppercase hexadecimal
digits (the shorter form whenever the code fits it). -/
def characterBytes (n : Nat) : List UInt8 :=
  if n < 0x80 then [n.toUInt8]
  else
    let ds := (Nat.toDigits 16 n).map fun c => byte c.toUpper
    if n < 0x10000 then [0x5C, byte 'u'] ++ List.replicate (4 - ds.length) 0x30 ++ ds
    else [0x5C, byte 'U'] ++ List.replicate (8 - ds.length) 0x30 ++ ds

/-- Reads the escape of `printf` that follows a backslash: the bytes written, how output goes
on, and how many bytes after the backslash it used. In `%b` arguments (`octalZero`) an octal
escape is `\0` and up to three digits; in a format it is up to three digits. `\u` and `\U` take
exactly four and eight hexadecimal digits of a character that is no control character and no
surrogate; it is written as `characterBytes` says. -/
def printfEscape (octalZero : Bool) (rest : List UInt8) : List UInt8 × EscapeEnd × Nat :=
  match rest with
  | [] => ([0x5C], .more, 0)
  | c :: more =>
    if c == byte 'x' then
      let (v, k) := digitRun 16 2 0 0 more
      if k == 0 then ([], .abort, 1) else ([v.toUInt8], .more, k + 1)
    else if (digitValue 8 c).isSome then
      let skip := if octalZero && c == byte '0' then 1 else 0
      let (v, k) := digitRun 8 3 0 0 (rest.drop skip)
      ([v.toUInt8], .more, skip + k)
    else if c == byte 'c' then ([], .stop, 1)
    else if c == 0x5C || c == 0x22 then ([c], .more, 1)
    else if c == byte 'u' || c == byte 'U' then
      let len := if c == byte 'u' then 4 else 8
      let (v, k) := digitRun 16 len 0 0 more
      if k < len then ([], .abort, 1)
      else if (v ≤ 0x9F && v != 0x24 && v != 0x40 && v != 0x60) || (0xD800 ≤ v && v ≤ 0xDFFF)
      then ([], .abort, 1)
      else (characterBytes v, .more, k + 1)
    else
      match letterEscape? c with
      | some e => ([e], .more, 1)
      | none => ([0x5C, c], .more, 1)

/-- A `%b` argument with its escapes read, and how output goes on. -/
def escapedArgument (bs : List UInt8) : List UInt8 × EscapeEnd :=
  match bs with
  | [] => ([], .more)
  | 0x5C :: rest =>
    let (out, e, k) := printfEscape true rest
    if e == .more then
      let r := escapedArgument (rest.drop k)
      (out ++ r.1, r.2)
    else (out, e)
  | b :: rest =>
    let r := escapedArgument rest
    (b :: r.1, r.2)
termination_by bs.length
decreasing_by all_goals (simp only [List.length_drop, List.length_cons]; omega)

/-- A width or precision of a conversion: absent, written in the format, or taken from the next
argument. -/
inductive Amount where
  | none
  | given (n : Nat)
  | fromArgument

/-- A conversion of `printf`: its flags, width, precision and conversion letter. -/
structure Directive where
  flags : List UInt8
  width : Amount
  precision : Amount
  conversion : Option UInt8

/-- Reads a run of bytes of a set. -/
def takeBytes (p : UInt8 → Bool) (bs : List UInt8) : List UInt8 :=
  bs.takeWhile p

/-- Reads a width or precision: `*` or decimal digits. -/
def readAmount (bs : List UInt8) (default : Amount) : Amount × Nat :=
  match bs with
  | 0x2A :: _ => (.fromArgument, 1)
  | _ =>
    let (v, k) := digitRun 10 bs.length 0 0 bs
    if k == 0 then (default, 0) else (.given v, k)

/-- Reads a conversion that follows `%`, and how many bytes it used. -/
def readDirective (bs : List UInt8) : Directive × Nat :=
  let flags := takeBytes (fun b => [byte '-', byte '+', byte ' ', byte '#', byte '0', byte '\'',
    byte 'I'].contains b) bs
  let afterFlags := bs.drop flags.length
  let (width, wk) := readAmount afterFlags .none
  let afterWidth := afterFlags.drop wk
  let (precision, pk) := match afterWidth with
    | 0x2E :: rest => let (p, k) := readAmount rest (.given 0); (p, k + 1)
    | _ => (.none, 0)
  let afterPrecision := afterWidth.drop pk
  let lengths := takeBytes (fun b => [byte 'l', byte 'L', byte 'h', byte 'j', byte 't',
    byte 'z'].contains b) afterPrecision
  let rest := afterPrecision.drop lengths.length
  let used := flags.length + wk + pk + lengths.length
  match rest with
  | c :: _ => (⟨flags, width, precision, some c⟩, used + 1)
  | [] => (⟨flags, width, precision, none⟩, used)

/-- Whether a conversion letter is allowed with the flags and precision given. -/
def Directive.valid (d : Directive) : Bool :=
  match d.conversion with
  | none => false
  | some c =>
    let allowed := "aAcdeEfFgGiosuxX".toList.map byte
    let hash := [byte 'c', byte 'd', byte 'i', byte 's', byte 'u']
    let zero := [byte 'c', byte 's']
    let grouping := "aAceEosxX".toList.map byte
    let precise := match d.precision with
      | .none => false
      | _ => true
    allowed.contains c
      && !(d.flags.contains (byte '#') && hash.contains c)
      && !(d.flags.contains (byte '0') && zero.contains c)
      && !((d.flags.contains (byte '\'') || d.flags.contains (byte 'I')) && grouping.contains c)
      && !(precise && c == byte 'c')

/-- Whether a byte is C white space. -/
def isCSpace (b : UInt8) : Bool :=
  b == 0x20 || (0x09 ≤ b && b ≤ 0x0D)

/-- Reads an integer argument as C reads one in base 0 (leading blanks, a sign, then `0x` for
hexadecimal, `0` for octal or decimal), or a quote followed by a character whose code it
stands for. Returns the value and whether the whole argument was a number; an empty argument
is zero. -/
def readInteger (arg : List UInt8) : Int × Bool :=
  match arg with
  | [] => (0, true)
  | q :: c :: _ =>
    if q == 0x22 || q == 0x27 then (c.toNat, true) else readNumber arg
  | _ => readNumber arg
where
  readNumber (arg : List UInt8) : Int × Bool :=
    let s := arg.dropWhile isCSpace
    let (negative, digits) := match s with
      | 0x2D :: r => (true, r)
      | 0x2B :: r => (false, r)
      | r => (false, r)
    let (base, body) := match digits with
      | 0x30 :: x :: r@(d :: _) =>
        if (x == byte 'x' || x == byte 'X') && (digitValue 16 d).isSome then (16, r)
        else (8, digits)
      | 0x30 :: _ => (8, digits)
      | _ => (10, digits)
    let (v, k) := digitRun base body.length 0 0 body
    let value : Int := if negative then -(v : Int) else v
    (value, k > 0 && k == body.length)

/-- Pads converted text to a width: on the right when left-justified, else on the left. -/
def padTo (width : Nat) (left : Bool) (text : List UInt8) : List UInt8 :=
  let fill := List.replicate (width - text.length) (0x20 : UInt8)
  if left then text ++ fill else fill ++ text

/-- The digits of a number in a base, lowercase or uppercase. -/
def numberDigits (base : Nat) (upper : Bool) (n : Nat) : List UInt8 :=
  (Nat.toDigits base n).map fun c => byte (if upper then c.toUpper else c)

/-- Writes an integer conversion: digits padded with zeros to the precision, a sign or prefix,
then the width filled with zeros (flag `0`, no precision) or blanks. -/
def integerText (d : Directive) (c : UInt8) (value : Int) (width : Nat) (left : Bool)
    (precision : Option Nat) : List UInt8 :=
  let signed := c == byte 'd' || c == byte 'i'
  let magnitude : Nat := if signed then value.natAbs else (value % (pow2 64 : Int)).toNat
  let base := if c == byte 'o' then 8 else if c == byte 'x' || c == byte 'X' then 16 else 10
  let raw := if precision == some 0 && magnitude == 0 then []
    else numberDigits base (c == byte 'X') magnitude
  let digits := List.replicate ((precision.getD 0) - raw.length) (0x30 : UInt8) ++ raw
  let hash := d.flags.contains (byte '#')
  let digits := if hash && base == 8 && digits.head? != some 0x30 then 0x30 :: digits else digits
  let pre : List UInt8 :=
    if signed && value < 0 then [byte '-']
    else if signed && d.flags.contains (byte '+') then [byte '+']
    else if signed && d.flags.contains (byte ' ') then [byte ' ']
    else if hash && base == 16 && magnitude != 0 then [byte '0', c]
    else []
  if !left && d.flags.contains (byte '0') && precision.isNone then
    pre ++ List.replicate (width - pre.length - digits.length) (0x30 : UInt8) ++ digits
  else padTo width left (pre ++ digits)

/-- How a pass over the format ended: it went through the whole format (with the arguments
left, how many it used, and whether a conversion failed), `\c` ended all output, or the run
failed at once. -/
inductive PassEnd where
  | finished (args : List (List UInt8)) (used : Nat) (failed : Bool)
  | stopped
  | aborted

/-- Takes the next argument, or nothing when none is left. -/
def nextArgument : List (List UInt8) → Option (List UInt8) × List (List UInt8)
  | [] => (none, [])
  | a :: rest => (some a, rest)

/-- Whether an integer fits 64-bit signed arithmetic. -/
def inSignedRange (v : Int) : Bool :=
  -(pow2 63 : Int) ≤ v && v < (pow2 63 : Int)

/-- Whether an integer can be read as a 64-bit unsigned number: a negative one stands for its
complement, so only its magnitude counts. -/
def inUnsignedRange (v : Int) : Bool :=
  v.natAbs < pow2 64

/-- Takes a width or precision from the arguments when the format asks for it: a width must be
an `int`, a precision must not exceed the largest `int` (a negative one counts as absent).
Nothing when the run fails at once; the flag tells that the argument was not wholly a number. -/
def takeAmount (isWidth : Bool) (a : Amount) (args : List (List UInt8)) :
    Option (Option Int) × List (List UInt8) × Bool :=
  match a with
  | .none => (some none, args, false)
  | .given n => (some (some n), args, false)
  | .fromArgument =>
    match nextArgument args with
    | (none, rest) => (some (some 0), rest, false)
    | (some arg, rest) =>
      let (v, ok) := readInteger arg
      let bad := !ok || !inSignedRange v
      if v > 2147483647 || (isWidth && v < -2147483648) then (none, rest, bad)
      else (some (some v), rest, bad)

/-- Reads a floating argument: the character code after a quote, or a number as C reads one.
Gives the value and whether the whole argument was a number in range. -/
def readFloating (arg : List UInt8) : Extended × Bool :=
  match arg with
  | q :: c :: _ =>
    if q == 0x22 || q == 0x27 then (.finite false c.toNat 0, true) else number arg
  | _ => number arg
where
  number (arg : List UInt8) : Extended × Bool :=
    let r := Extended.read arg
    (r.value, r.complete arg)

/-- Writes a floating conversion: the sign, then zeros that fill the width (flag `0`, finite
values only) or blanks around. -/
def floatingText (d : Directive) (c : UInt8) (value : Extended) (width : Nat) (left : Bool)
    (precision : Option Nat) : List UInt8 :=
  let w := Extended.write c precision (d.flags.contains (byte '+')) (d.flags.contains (byte ' '))
    (d.flags.contains (byte '#')) value
  let whole := w.sign ++ w.marker ++ w.digits
  if !left && d.flags.contains (byte '0') && w.finite then
    w.sign ++ w.marker ++ List.replicate (width - whole.length) (0x30 : UInt8) ++ w.digits
  else padTo width left whole

/-- Converts one argument by a directive: the text written, the arguments left, how many were
used, and whether the conversion failed; `none` when the run fails at once. -/
def convert (d : Directive) (args : List (List UInt8)) :
    Option (List UInt8 × List (List UInt8) × Nat × Bool) := do
  let (w, args1, wbad) := takeAmount true d.width args
  let w ← w
  let (p, args2, pbad) := takeAmount false d.precision args1
  let p ← p
  let left := d.flags.contains (byte '-') || (w.map fun v => decide (v < 0)).getD false
  let width := (w.map Int.natAbs).getD 0
  let precision : Option Nat := match p with
    | some v => if v < 0 then none else some v.toNat
    | none => none
  let used0 := args.length - args2.length
  let (arg, args3) := nextArgument args2
  let used := used0 + (if arg.isSome then 1 else 0)
  let text := arg.getD []
  let c ← d.conversion
  if c == byte 's' then
    let cut := match precision with
      | some n => text.take n
      | none => text
    return (padTo width left cut, args3, used, wbad || pbad)
  else if c == byte 'c' then
    return (padTo width left [text.headD 0], args3, used, wbad || pbad)
  else if c == byte 'd' || c == byte 'i' then
    let (v, ok) := readInteger text
    return (integerText d c v width left precision, args3, used,
      wbad || pbad || !ok || !inSignedRange v)
  else if [byte 'o', byte 'u', byte 'x', byte 'X'].contains c then
    let (v, ok) := readInteger text
    return (integerText d c v width left precision, args3, used,
      wbad || pbad || !ok || !inUnsignedRange v)
  else
    let (v, ok) := readFloating text
    return (floatingText d c v width left precision, args3, used, wbad || pbad || !ok)

/-- Puts bytes in front of the output of a pass. -/
def prependPass (xs : List UInt8) (r : List UInt8 × PassEnd) : List UInt8 × PassEnd :=
  (xs ++ r.1, r.2)

/-- One pass of `printf` over the format, writing output and converting arguments. -/
def printfPass : List UInt8 → List (List UInt8) → Nat → Bool → List UInt8 × PassEnd
  | [], args, used, failed => ([], .finished args used failed)
  | 0x25 :: 0x25 :: more, args, used, failed =>
    prependPass [0x25] (printfPass more args used failed)
  | 0x25 :: 0x71 :: more, args, used, failed =>
    match args with
    | [] => printfPass more args used failed
    | a :: others => prependPass (Text.shellQuote a) (printfPass more others (used + 1) failed)
  | 0x25 :: 0x62 :: more, args, used, failed =>
    match args with
    | [] => printfPass more args used failed
    | a :: others =>
      let (out, e) := escapedArgument a
      if e == .more then prependPass out (printfPass more others (used + 1) failed)
      else (out, if e == .stop then .stopped else .aborted)
  | 0x25 :: rest, args, used, failed =>
    let (d, k) := readDirective rest
    if !d.valid then ([], .aborted)
    else
      match convert d args with
      | none => ([], .aborted)
      | some (out, args', n, bad) =>
        prependPass out (printfPass (rest.drop k) args' (used + n) (failed || bad))
  | 0x5C :: rest, args, used, failed =>
    let (out, e, k) := printfEscape false rest
    if e == .more then prependPass out (printfPass (rest.drop k) args used failed)
    else (out, if e == .stop then .stopped else .aborted)
  | b :: rest, args, used, failed => prependPass [b] (printfPass rest args used failed)
termination_by fmt => fmt.length
decreasing_by all_goals (simp only [List.length_drop, List.length_cons]; omega)

/-- Goes through the format again while arguments remain and the last pass used some. -/
def printfPasses (fmt : List UInt8) : Nat → List (List UInt8) → Bool → ProgramRun
  | 0, _, failed => ⟨if failed then 1 else 0, []⟩
  | fuel + 1, args, failed =>
    match printfPass fmt args 0 failed with
    | (out, .stopped) => ⟨0, out⟩
    | (out, .aborted) => ⟨1, out⟩
    | (out, .finished rest used failed') =>
      if used > 0 && !rest.isEmpty then
        let next := printfPasses fmt fuel rest failed'
        ⟨next.status, out ++ next.output⟩
      else ⟨if failed' then 1 else 0, out⟩

/-- Runs `printf`: a leading `--` is skipped, and a missing format fails. -/
def runPrintf (args : List String) : ProgramRun :=
  let args := match args with
    | "--" :: rest => rest
    | _ => args
  match args with
  | [] => ⟨1, []⟩
  | fmt :: rest =>
    printfPasses fmt.toUTF8.toList (rest.length + 1) (rest.map (·.toUTF8.toList)) false

end SwiftReflection.Cli
