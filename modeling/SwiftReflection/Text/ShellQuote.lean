/-!
# Quoting text for the shell

`shellQuote` writes a text so that a POSIX shell reads it back as one word, the way `printf %q`
does in the C locale. A text that holds no byte special to the shell stays as it is. Otherwise
the text is put in single quotes; a single quote inside is written `'\''`, and a byte that
cannot be written as it is (a control character, DEL, or a byte above ASCII) is written in a
`$'...'` part, as a letter escape (`\a \b \t \n \v \f \r`) or as three octal digits. A text that
holds a single quote and nothing else special is put in double quotes instead.

The bytes special to the shell are the blank, ``!"$&()*;<=>?[\^`|`` and the single quote, `#`
and `~` at the start of the text, and `{` or `}` standing alone; bytes that cannot be written
as they are count too, and so does the empty text.
-/

namespace SwiftReflection.Text

/-- Whether a byte is printable ASCII. -/
def isPrintable (b : UInt8) : Bool := 0x20 ≤ b && b < 0x7F

/-- The bytes special to the shell wherever they stand. -/
def shellSpecial : List UInt8 :=
  " !\"$&()*;<=>?[\\^`|'".toUTF8.toList

/-- Whether the byte at position `i` of a text of `size` bytes makes the text need quotes. -/
def needsQuotes (size i : Nat) (b : UInt8) : Bool :=
  shellSpecial.contains b || !isPrintable b
    || (i == 0 && (b == 0x23 || b == 0x7E))
    || (size == 1 && (b == 0x7B || b == 0x7D))

/-- Whether the byte at position `i` can stand in double quotes as it is: letters, digits,
``%+,-./:@]_``, the blank and the single quote, and `#` or `~` at the start. -/
def fitsDoubleQuotes (size i : Nat) (b : UInt8) : Bool :=
  (0x30 ≤ b && b ≤ 0x39) || (0x41 ≤ b && b ≤ 0x5A) || (0x61 ≤ b && b ≤ 0x7A)
    || "%+,-./:@]_ '".toUTF8.toList.contains b
    || (i == 0 && (b == 0x23 || b == 0x7E))
    || (size == 1 && (b == 0x7B || b == 0x7D))

/-- The letter of a control character's escape, if it has one. -/
def controlLetter? (b : UInt8) : Option UInt8 :=
  match b.toNat with
  | 7 => some 0x61
  | 8 => some 0x62
  | 9 => some 0x74
  | 10 => some 0x6E
  | 11 => some 0x76
  | 12 => some 0x66
  | 13 => some 0x72
  | _ => none

/-- The three octal digits of a byte. -/
def octalDigits (b : UInt8) : List UInt8 :=
  let n := b.toNat
  [(0x30 + n / 64).toUInt8, (0x30 + n / 8 % 8).toUInt8, (0x30 + n % 8).toUInt8]

/-- The inside of single quotes for the bytes left, and whether a `$'...'` part is open. -/
def singleQuoted : List UInt8 → Bool → List UInt8
  | [], _ => []
  | b :: rest, open_ =>
    if b == 0x27 then
      [0x27, 0x5C, 0x27, 0x27] ++ singleQuoted rest false
    else if isPrintable b then
      (if open_ then [0x27, 0x27] else []) ++ b :: singleQuoted rest false
    else
      let start : List UInt8 := if open_ then [] else [0x27, 0x24, 0x27]
      let escape := match controlLetter? b with
        | some l => [l]
        | none => octalDigits b
      start ++ 0x5C :: escape ++ singleQuoted rest true

/-- A text quoted for the shell. -/
def shellQuote (bs : List UInt8) : List UInt8 :=
  let indexed := bs.zipIdx
  if !bs.isEmpty && !indexed.any (fun (b, i) => needsQuotes bs.length i b) then bs
  else if bs.contains 0x27 && indexed.all (fun (b, i) => fitsDoubleQuotes bs.length i b) then
    0x22 :: bs ++ [0x22]
  else 0x27 :: singleQuoted bs false ++ [0x27]

end SwiftReflection.Text
