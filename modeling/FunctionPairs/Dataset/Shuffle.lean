import FunctionPairs.Dataset.Basic

/-!
A shuffle that a seed decides: each place from the second on is swapped with a place at or
below it, drawn from a multiplicative generator of 64-bit words.
-/
namespace FunctionPairs

structure Generator where
  state : UInt64
deriving Repr, DecidableEq

namespace Generator

def wordSize : Nat := 0x10000000000000000

def draw (g : Generator) : UInt64 × Generator :=
  let s := g.state + 0x2d358dccaa6c78a5
  let t := s.toNat * (s ^^^ 0x8bb84b93962eacc9).toNat
  (UInt64.ofNat (t % wordSize) ^^^ UInt64.ofNat (t / wordSize), ⟨s⟩)

/-- Draws until the low half of the word times `n` is at least `least`; gives the high half.
The states run through all words, so that `tries` need not be more than there are words. -/
def belowFrom (n least : Nat) : Nat → Generator → Nat × Generator
  | 0, g => (0, g)
  | tries + 1, g =>
    let (r, g') := g.draw
    let m := r.toNat * n
    if m % wordSize < least then belowFrom n least tries g' else (m / wordSize, g')

def below (g : Generator) (n : Nat) : Nat × Generator :=
  belowFrom n ((wordSize - n) % n) wordSize g

end Generator

namespace Dataset

def shufflePlaces : List Nat → Generator → Array Nat → Array Nat
  | [], _, order => order
  | i :: rest, g, order =>
    let drawn := g.below (i + 1)
    shufflePlaces rest drawn.2 (order.swapIfInBounds i drawn.1)

def shuffledOrder (seed : UInt64) (length : Nat) : List Nat :=
  (shufflePlaces ((List.range length).drop 1) ⟨seed⟩ (Array.range length)).toList

def shuffle (d : Dataset) (seed : UInt64) : Dataset := d.reorder (shuffledOrder seed d.length)

end Dataset
end FunctionPairs
