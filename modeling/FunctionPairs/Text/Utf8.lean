/-!
Bytes and the text they encode. `decode` never fails: every maximal run of bytes that starts
a character but does not finish it becomes one replacement character, and so does every byte
that starts none. `decode?` accepts well-formed bytes only; `encode` is its inverse.
-/
namespace FunctionPairs

abbrev Bytes := List UInt8

namespace Utf8

def replacement : Char := '\uFFFD'

/-- What a leading byte promises: how many bytes follow, and the range of the first of them. -/
structure Lead where
  owed : Nat
  low : UInt8
  high : UInt8
deriving Repr, DecidableEq

def lead (b : UInt8) : Option Lead :=
  if b < 0x80 then some ⟨0, 0x80, 0xBF⟩
  else if b < 0xC2 then none
  else if b < 0xE0 then some ⟨1, 0x80, 0xBF⟩
  else if b = 0xE0 then some ⟨2, 0xA0, 0xBF⟩
  else if b = 0xED then some ⟨2, 0x80, 0x9F⟩
  else if b < 0xF0 then some ⟨2, 0x80, 0xBF⟩
  else if b = 0xF0 then some ⟨3, 0x90, 0xBF⟩
  else if b < 0xF4 then some ⟨3, 0x80, 0xBF⟩
  else if b = 0xF4 then some ⟨3, 0x80, 0x8F⟩
  else none

def tail : Nat → UInt8 → UInt8 → Bytes → Bytes
  | 0, _, _, _ => []
  | _ + 1, _, _, [] => []
  | n + 1, low, high, b :: bs =>
    if low ≤ b && b ≤ high then b :: tail n 0x80 0xBF bs else []

def leadBits (b : UInt8) (owed : Nat) : Nat :=
  match owed with
  | 0 => b.toNat
  | 1 => b.toNat % 32
  | 2 => b.toNat % 16
  | _ => b.toNat % 8

def value (b : UInt8) (rest : Bytes) : Nat :=
  rest.foldl (fun n c => n * 64 + c.toNat % 64) (leadBits b rest.length)

/-- The character at the front, `none` if it is ill-formed, and how many bytes after the
first belong to it. -/
def front (b : UInt8) (bs : Bytes) : Option Char × Nat :=
  match lead b with
  | none => (none, 0)
  | some l =>
    let rest := tail l.owed l.low l.high bs
    if rest.length = l.owed then (some (Char.ofNat (value b rest)), l.owed)
    else (none, rest.length)

def decodeChars : Bytes → List Char
  | [] => []
  | b :: bs =>
    let (c, used) := front b bs
    c.getD replacement :: decodeChars (bs.drop used)
termination_by bs => bs.length
decreasing_by simp only [List.length_cons, List.length_drop]; omega

def decodeChars? : Bytes → Option (List Char)
  | [] => some []
  | b :: bs =>
    match front b bs with
    | (none, _) => none
    | (some c, used) => (decodeChars? (bs.drop used)).map (c :: ·)
termination_by bs => bs.length
decreasing_by simp only [List.length_cons, List.length_drop]; omega

/-- Where bytes cease to be text: how many well-formed ones come before, and how many bytes
the fault has, `none` if they end within a character. -/
def faultFrom (position : Nat) : Bytes → Option (Nat × Option Nat)
  | [] => none
  | b :: bs =>
    match front b bs with
    | (some _, used) => faultFrom (position + used + 1) (bs.drop used)
    | (none, used) =>
      if (lead b).isSome && used = bs.length then some (position, none)
      else some (position, some (used + 1))
termination_by bs => bs.length
decreasing_by simp only [List.length_cons, List.length_drop]; omega

def faultText (bs : Bytes) : String :=
  match faultFrom 0 bs with
  | some (n, some k) => s!"invalid utf-8 sequence of {k} bytes from index {n}"
  | some (n, none) => s!"incomplete utf-8 byte sequence from index {n}"
  | none => ""

def decode (bs : Bytes) : String := String.ofList (decodeChars bs)

def decode? (bs : Bytes) : Option String := (decodeChars? bs).map String.ofList

def encode (s : String) : Bytes := s.toList.flatMap String.utf8EncodeChar

end Utf8
end FunctionPairs
