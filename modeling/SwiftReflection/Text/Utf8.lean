/-!
# UTF-8 text

Names and strings read from images are UTF-8 bytes that may be malformed. `decodeLossy`
replaces each maximal ill-formed subsequence by U+FFFD, as the Unicode standard recommends: a
byte that cannot start a sequence is one replacement, and so is a valid start followed by fewer
continuation bytes than it needs (the continuation bytes it does have belong to it). The ranges
of the second byte exclude overlong forms, surrogates and code points above U+10FFFF.

White space is Unicode's `White_Space` property; `splitBlank` and `trimBlank` use it.
-/

namespace SwiftReflection.Text

/-- The replacement character. -/
def replacement : Char := '�'

/-- Whether a byte continues a multi-byte sequence. -/
def isContinuation (x : UInt8) : Bool := 0x80 ≤ x && x ≤ 0xBF

/-- Whether `c` may follow the lead byte `b` of a three-byte sequence. -/
def secondOfThree (b c : UInt8) : Bool :=
  if b == 0xE0 then 0xA0 ≤ c && c ≤ 0xBF
  else if b == 0xED then 0x80 ≤ c && c ≤ 0x9F
  else isContinuation c

/-- Whether `c` may follow the lead byte `b` of a four-byte sequence. -/
def secondOfFour (b c : UInt8) : Bool :=
  if b == 0xF0 then 0x90 ≤ c && c ≤ 0xBF
  else if b == 0xF4 then 0x80 ≤ c && c ≤ 0x8F
  else isContinuation c

/-- The low six bits of a continuation byte. -/
def low6 (x : UInt8) : Nat := x.toNat % 64

/-- Decodes UTF-8, replacing each maximal ill-formed subsequence by U+FFFD. -/
def decodeLossyChars : List UInt8 → List Char
  | [] => []
  | b :: rest =>
    if b < 0x80 then Char.ofNat b.toNat :: decodeLossyChars rest
    else if 0xC2 ≤ b && b ≤ 0xDF then
      match h : rest with
      | c :: rest' =>
        if isContinuation c then Char.ofNat ((b.toNat % 32) * 64 + low6 c) :: decodeLossyChars rest'
        else replacement :: decodeLossyChars rest
      | [] => [replacement]
    else if 0xE0 ≤ b && b ≤ 0xEF then
      match h : rest with
      | c :: rest' =>
        if secondOfThree b c then
          match h' : rest' with
          | d :: rest'' =>
            if isContinuation d then
              Char.ofNat ((b.toNat % 16) * 4096 + low6 c * 64 + low6 d) :: decodeLossyChars rest''
            else replacement :: decodeLossyChars rest'
          | [] => [replacement]
        else replacement :: decodeLossyChars rest
      | [] => [replacement]
    else if 0xF0 ≤ b && b ≤ 0xF4 then
      match h : rest with
      | c :: rest' =>
        if secondOfFour b c then
          match h' : rest' with
          | d :: rest'' =>
            if isContinuation d then
              match h'' : rest'' with
              | e :: rest''' =>
                if isContinuation e then
                  Char.ofNat ((b.toNat % 8) * 262144 + low6 c * 4096 + low6 d * 64 + low6 e) ::
                    decodeLossyChars rest'''
                else replacement :: decodeLossyChars rest''
              | [] => [replacement]
            else replacement :: decodeLossyChars rest'
          | [] => [replacement]
        else replacement :: decodeLossyChars rest
      | [] => [replacement]
    else replacement :: decodeLossyChars rest
termination_by bs => bs.length
decreasing_by all_goals (subst_vars; simp only [List.length_cons]; omega)

/-- Decodes UTF-8 bytes into a string, replacing malformed parts by U+FFFD. -/
def decodeLossy (bytes : List UInt8) : String :=
  String.ofList (decodeLossyChars bytes)

/-- Whether bytes are well-formed UTF-8. -/
def isWellFormed (bytes : List UInt8) : Bool :=
  (String.fromUTF8? ⟨bytes.toArray⟩).isSome

/-- Decodes well-formed UTF-8, or nothing for malformed bytes. -/
def decodeStrict? (bytes : List UInt8) : Option String :=
  String.fromUTF8? ⟨bytes.toArray⟩

/-- Unicode `White_Space` characters. -/
def isBlank (c : Char) : Bool :=
  let n := c.toNat
  (0x09 ≤ n && n ≤ 0x0D) || n == 0x20 || n == 0x85 || n == 0xA0 || n == 0x1680 ||
    (0x2000 ≤ n && n ≤ 0x200A) || n == 0x2028 || n == 0x2029 || n == 0x202F || n == 0x205F ||
    n == 0x3000

/-- The maximal runs of non-blank characters, in order. -/
def splitBlank (s : String) : List String :=
  ((s.toList.splitBy (fun a b => isBlank a == isBlank b)).filter
    (fun run => !run.all isBlank)).map String.ofList

/-- `s` without blank characters at either end. -/
def trimBlank (s : String) : String :=
  String.ofList ((s.toList.dropWhile isBlank).reverse.dropWhile isBlank).reverse

end SwiftReflection.Text
