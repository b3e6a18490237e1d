import FunctionPairs.Text.Blank

/-!
Numbers as text. A binary fraction is written with the fewest decimal digits that read back as
the same number, of those with the nearest, and always in positional notation. Counts are read
as unsigned 64-bit numbers, with the reason when the text is none.
-/
namespace FunctionPairs.Decimal

/-- The number `mantissa * 2 ^ exponent`, where the neighbour below is half as far away as the
one above if `narrow` is set. -/
structure Binary where
  mantissa : Nat
  exponent : Int
  narrow : Bool
deriving Repr, DecidableEq

structure Scaled where
  digits : Nat
  exponent : Int
deriving Repr, DecidableEq

namespace Binary

def numerator (b : Binary) : Nat := b.mantissa * Nat.pow 2 b.exponent.toNat

def denominator (b : Binary) : Nat := Nat.pow 2 (-b.exponent).toNat

def unit (b : Binary) : Nat := Nat.pow 2 b.exponent.toNat

def admits (b : Binary) (s : Scaled) : Bool :=
  let candidate := 4 * s.digits * Nat.pow 10 s.exponent.toNat * b.denominator
  let scale := Nat.pow 10 (-s.exponent).toNat
  let low := (4 * b.numerator - (if b.narrow then 1 else 2) * b.unit) * scale
  let high := (4 * b.numerator + 2 * b.unit) * scale
  if b.mantissa % 2 = 0 then low ≤ candidate && candidate ≤ high
  else low < candidate && candidate < high

def distance (b : Binary) (s : Scaled) : Nat :=
  let candidate := s.digits * Nat.pow 10 s.exponent.toNat * b.denominator
  let value := b.numerator * Nat.pow 10 (-s.exponent).toNat
  if candidate ≤ value then value - candidate else candidate - value

def placesFrom (b : Binary) : Nat → Nat → Int
  | 0, j => 1 - j
  | fuel + 1, j =>
    if b.denominator ≤ b.numerator * Nat.pow 10 j then 1 - j else placesFrom b fuel (j + 1)

def places (b : Binary) : Int :=
  let whole := b.numerator / b.denominator
  if whole = 0 then b.placesFrom 400 1 else (Nat.toDigits 10 whole).length

def withDigits (b : Binary) (count : Nat) : Option Scaled :=
  let exponent := b.places - count
  let below :=
    b.numerator * Nat.pow 10 (-exponent).toNat / (b.denominator * Nat.pow 10 exponent.toNat)
  let low : Scaled := ⟨below, exponent⟩
  let high : Scaled := ⟨below + 1, exponent⟩
  match b.admits low, b.admits high with
  | true, true => some (if b.distance low ≤ b.distance high then low else high)
  | true, false => some low
  | false, true => some high
  | false, false => none

def shortestFrom (b : Binary) : Nat → Nat → Scaled
  | 0, count => ⟨b.numerator, count⟩
  | fuel + 1, count =>
    match b.withDigits count with
    | some s => s
    | none => shortestFrom b fuel (count + 1)

/-- Seventeen digits are always enough. -/
def shortest (b : Binary) : Scaled := b.shortestFrom 18 1

end Binary

namespace Scaled

def dropZeros : Nat → Scaled → Scaled
  | 0, s => s
  | fuel + 1, s =>
    if s.digits % 10 = 0 && s.digits ≠ 0 then dropZeros fuel ⟨s.digits / 10, s.exponent + 1⟩
    else s

def positional (s : Scaled) : String :=
  let t := s.dropZeros 20
  let digits := Nat.toDigits 10 t.digits
  let behind := (-t.exponent).toNat
  if t.exponent ≥ 0 then String.ofList (digits ++ List.replicate t.exponent.toNat '0')
  else if behind < digits.length then
    String.ofList (digits.take (digits.length - behind) ++ '.' :: digits.drop (digits.length - behind))
  else String.ofList ('0' :: '.' :: List.replicate (behind - digits.length) '0' ++ digits)

end Scaled

def binaryOfBits (bits : Nat) : Binary :=
  let fraction := bits % Nat.pow 2 52
  let biased := bits / Nat.pow 2 52 % Nat.pow 2 11
  if biased = 0 then ⟨fraction, -1074, false⟩
  else ⟨fraction + Nat.pow 2 52, Int.ofNat biased - 1075, fraction = 0 && 1 < biased⟩

def showFloat (f : Float) : String :=
  let bits := f.toBits.toNat
  let sign := if bits < Nat.pow 2 63 then "" else "-"
  if f.isNaN then "NaN"
  else if f.isInf then sign ++ "inf"
  else
    let b := binaryOfBits (bits % Nat.pow 2 63)
    if b.mantissa = 0 then sign ++ "0" else sign ++ b.shortest.positional

def digit? (c : Char) : Option Nat :=
  if '0' ≤ c && c ≤ '9' then some (c.toNat - '0'.toNat) else none

def digits? (cs : List Char) : Option Nat :=
  cs.foldl (fun n c => do return (← n) * 10 + (← digit? c)) (some 0)

inductive CountError
  | empty
  | invalidDigit
  | tooLarge
deriving Repr, DecidableEq

def CountError.message : CountError → String
  | empty => "cannot parse integer from empty string"
  | invalidDigit => "invalid digit found in string"
  | tooLarge => "number too large to fit in target type"

def maxCount : Nat := 0xFFFFFFFFFFFFFFFF

/-- Digits after an optional plus sign. The first digit at fault decides the reason. -/
def readDigits (seen : Nat) : List Char → Except CountError Nat
  | [] => .ok seen
  | c :: cs =>
    match digit? c with
    | none => .error .invalidDigit
    | some d =>
      if maxCount < seen * 10 + d then .error .tooLarge else readDigits (seen * 10 + d) cs

def readCount (s : String) : Except CountError Nat :=
  match s.toList with
  | [] => .error .empty
  | ['+'] => .error .invalidDigit
  | '+' :: cs => readDigits 0 cs
  | cs => readDigits 0 cs

/-- The double nearest to `digits * 10 ^ exponent`; far outside the range of doubles the
exponent itself decides. -/
def toFloat (digits : Nat) (exponent : Int) : Float :=
  let size := exponent + (Nat.toDigits 10 digits).length
  if digits = 0 then 0
  else if size > 400 then 1 / 0
  else if size < -400 then 0
  else if exponent < 0 then Float.ofScientific digits true (-exponent).toNat
  else Float.ofScientific digits false exponent.toNat

def readPoint (cs : List Char) : Option (Nat × Int) :=
  let whole := cs.takeWhile (· ≠ '.')
  let behind := (cs.dropWhile (· ≠ '.')).drop 1
  if whole.isEmpty && behind.isEmpty then none
  else (digits? (whole ++ behind)).map fun n => (n, -(behind.length : Int))

def readSigned (cs : List Char) : Option Int :=
  match cs with
  | '-' :: ds => if ds.isEmpty then none else (digits? ds).map fun n => -(n : Int)
  | '+' :: ds => if ds.isEmpty then none else (digits? ds).map Int.ofNat
  | ds => if ds.isEmpty then none else (digits? ds).map Int.ofNat

def readMagnitude (cs : List Char) : Option Float :=
  let lower := cs.map Char.toLower
  if lower = "inf".toList || lower = "infinity".toList then some (1 / 0)
  else if lower = "nan".toList then some (0 / 0)
  else
    let mantissa := lower.takeWhile (· ≠ 'e')
    match lower.dropWhile (· ≠ 'e') with
    | [] => (readPoint mantissa).map fun (n, e) => toFloat n e
    | _ :: exponent => do
      let (n, e) ← readPoint mantissa
      let shift ← readSigned exponent
      return toFloat n (e + shift)

def readFloat (s : String) : Option Float :=
  match s.toList with
  | '-' :: cs => (readMagnitude cs).map fun f => -f
  | '+' :: cs => readMagnitude cs
  | cs => readMagnitude cs

end FunctionPairs.Decimal
