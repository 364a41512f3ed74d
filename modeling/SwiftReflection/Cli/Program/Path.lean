import SwiftReflection.Cli.Program.Basic
/-!
# The basename and dirname programs

Both programs split file names at slashes without looking at any file. The last component of a
name starts after its last run of slashes that has something after it; a name made only of
slashes has none.

`basename NAME [SUFFIX]` writes the last component without its trailing slashes (a name made
of slashes gives `/`, the empty name gives nothing) and, when the result is relative and longer
than the suffix, removes the suffix from its end. With `-a` it takes every argument as a name,
and `-s SUFFIX` also implies `-a`. Options come first, and `--` ends them.

`dirname NAME...` writes, for each name, what stands before its last component with the
slashes before that component dropped (a leading slash is kept), or `.` when nothing is left.
Its options may stand anywhere before a `--`.

Both write each result on a line of its own, or end it with a zero byte under `-z`. A missing
name, an extra `basename` operand or an unknown option makes the run fail.
-/

namespace SwiftReflection.Cli

/-- Where the last component of a name starts: after its last run of slashes that is followed
by something, or after its leading slashes when it has nothing else. -/
def lastComponentStart (bs : List UInt8) : Nat :=
  let lead := (bs.takeWhile (· == 0x2F)).length
  let (start, _) := (bs.drop lead).zipIdx.foldl (fun (acc : Nat × Bool) (b, i) =>
    let (base, afterSlash) := acc
    if b == 0x2F then (base, true)
    else if afterSlash then (lead + i, false)
    else (base, false)) (lead, false)
  start

/-- The length of a name without its trailing slashes, keeping at least one byte. -/
def withoutTrailingSlashes (bs : List UInt8) : Nat :=
  let trailing := (bs.reverse.takeWhile (· == 0x2F)).length
  max (bs.length - trailing) (min bs.length 1)

/-- The last component of a name with its trailing slashes removed. -/
def baseName (bs : List UInt8) : List UInt8 :=
  let start := lastComponentStart bs
  let base := bs.drop start
  if base.isEmpty then bs.take (withoutTrailingSlashes bs)
  else base.take (withoutTrailingSlashes base)

/-- Removes a suffix from the end of a name longer than it. -/
def removeSuffix (name suffix : List UInt8) : List UInt8 :=
  if suffix.length < name.length && name.drop (name.length - suffix.length) == suffix then
    name.take (name.length - suffix.length)
  else name

/-- What `basename` writes for one name. -/
def basenameOf (suffix : Option (List UInt8)) (name : List UInt8) : List UInt8 :=
  let base := baseName name
  match suffix with
  | some s => if base.head? != some 0x2F then removeSuffix base s else base
  | none => base

/-- What stands before the last component of a name, without the slashes before that component
(a leading slash is kept); `.` when nothing is left. -/
def dirNameOf (bs : List UInt8) : List UInt8 :=
  let keep := if bs.head? == some 0x2F then 1 else 0
  let stop := lastComponentStart bs
  let body := bs.take stop
  let trimmed := (body.reverse.dropWhile (· == 0x2F)).reverse
  let len := max trimmed.length (min keep stop)
  if len == 0 then [0x2E] else bs.take len

/-- The options of `basename` and `dirname`: several names, the suffix, and zero bytes after
each result. -/
structure PathOptions where
  multiple : Bool := false
  suffix : Option String := none
  zero : Bool := false

/-- The long option a word names, when it is an unambiguous start of one of `names`. -/
def longOption? (names : List String) (word : String) : Option String :=
  match names.filter (fun n => n.startsWith word) with
  | [n] => some n
  | ns => ns.find? (· == word)

/-- Reads the options of `basename`, which come before the names: the options and the names, or
nothing when an option is unknown or lacks its value. -/
def basenameOptions (o : PathOptions) : List String → Option (PathOptions × List String)
  | [] => some (o, [])
  | w :: rest =>
    if w == "--" then some (o, rest)
    else if w.startsWith "--" then
      let body := (w.drop 2).toString
      let (name, value) := match body.splitOn "=" with
        | n :: v :: more => (n, some (String.intercalate "=" (v :: more)))
        | _ => (body, none)
      match longOption? ["multiple", "suffix", "zero"] name with
      | some "multiple" =>
        if value.isSome then none else basenameOptions { o with multiple := true } rest
      | some "zero" => if value.isSome then none else basenameOptions { o with zero := true } rest
      | some "suffix" =>
        match value with
        | some v => basenameOptions { o with multiple := true, suffix := some v } rest
        | none =>
          match rest with
          | v :: more => basenameOptions { o with multiple := true, suffix := some v } more
          | [] => none
      | _ => none
    else if w.startsWith "-" && w.length > 1 then
      cluster o (w.drop 1).toString.toList rest
    else some (o, w :: rest)
termination_by ws => (ws.length, 1)
where
  /-- Reads a cluster of short options. -/
  cluster (o : PathOptions) : List Char → List String → Option (PathOptions × List String)
    | [], rest => basenameOptions o rest
    | 'a' :: more, rest => cluster { o with multiple := true } more rest
    | 'z' :: more, rest => cluster { o with zero := true } more rest
    | 's' :: more, rest =>
      if more.isEmpty then
        match rest with
        | v :: others => basenameOptions { o with multiple := true, suffix := some v } others
        | [] => none
      else basenameOptions { o with multiple := true, suffix := some (String.ofList more) } rest
    | _, _ => none
  termination_by cs ws => (ws.length, cs.length + 2)

/-- Runs `basename`. -/
def runBasename (args : List String) : ProgramRun :=
  match basenameOptions {} args with
  | none => ⟨1, []⟩
  | some (o, names) =>
    let names := names.map (·.toUTF8.toList)
    let ending : List UInt8 := [if o.zero then 0 else 10]
    let suffix := o.suffix.map (·.toUTF8.toList)
    if o.multiple then
      if names.isEmpty then ⟨1, []⟩
      else ⟨0, names.flatMap fun n => basenameOf suffix n ++ ending⟩
    else
      match names with
      | [n] => ⟨0, basenameOf none n ++ ending⟩
      | [n, s] => ⟨0, basenameOf (some s) n ++ ending⟩
      | _ => ⟨1, []⟩

/-- Reads the options of `dirname`, which may stand among the names: the options and the names,
or nothing when an option is unknown. -/
def dirnameOptions (o : PathOptions) (names : List String) :
    List String → Option (PathOptions × List String)
  | [] => some (o, names.reverse)
  | w :: rest =>
    if w == "--" then some (o, names.reverse ++ rest)
    else if w.startsWith "--" then
      match longOption? ["zero"] (w.drop 2).toString with
      | some _ => dirnameOptions { o with zero := true } names rest
      | none => none
    else if w.startsWith "-" && w.length > 1 then
      if (w.drop 1).toString.toList.all (· == 'z') then
        dirnameOptions { o with zero := true } names rest
      else none
    else dirnameOptions o (w :: names) rest

/-- Runs `dirname`. -/
def runDirname (args : List String) : ProgramRun :=
  match dirnameOptions {} [] args with
  | none => ⟨1, []⟩
  | some (o, names) =>
    if names.isEmpty then ⟨1, []⟩
    else
      let ending : List UInt8 := [if o.zero then 0 else 10]
      ⟨0, names.flatMap fun n => dirNameOf n.toUTF8.toList ++ ending⟩

end SwiftReflection.Cli
