import FunctionPairs.Decimal
import FunctionPairs.Language

/-!
Examples in three columns of equal length, with a cap on their number. A cap of 0 is none. The
cap binds only what is added; a dataset may be read with more rows than its cap.
-/
namespace FunctionPairs

structure Dataset where
  maxLen : Nat
  sources : List String
  decompileds : List String
  langs : List Lang
deriving Repr, DecidableEq

structure Row where
  lang : Lang
  source : String
  decompiled : String
deriving Repr, DecidableEq

def keep {α : Type} : List Bool → List α → List α
  | true :: mask, a :: as => a :: keep mask as
  | false :: mask, _ :: as => keep mask as
  | _, _ => []

def pick {α : Type} (order : List Nat) (column : List α) : List α :=
  order.filterMap (column[·]?)

namespace Dataset

def empty (maxLen : Nat) : Dataset := ⟨maxLen, [], [], []⟩

def Aligned (d : Dataset) : Prop :=
  d.decompileds.length = d.sources.length ∧ d.langs.length = d.sources.length

instance (d : Dataset) : Decidable d.Aligned := by unfold Aligned; infer_instance

def length (d : Dataset) : Nat := d.sources.length

def rows (d : Dataset) : List Row :=
  (d.langs.zip (d.sources.zip d.decompileds)).map fun (l, s, t) => ⟨l, s, t⟩

def isFull (d : Dataset) : Bool := 0 < d.maxLen && d.maxLen ≤ d.length

def remaining (d : Dataset) : Option Nat :=
  if d.maxLen = 0 then none else some (d.maxLen - d.length)

def push (d : Dataset) (r : Row) : Bool × Dataset :=
  if d.isFull then (false, d)
  else
    (true, { d with
      sources := d.sources ++ [r.source]
      decompileds := d.decompileds ++ [r.decompiled]
      langs := d.langs ++ [r.lang] })

/-- Adds pairs of source and decompiled text in order until the dataset is full; counts those
that were added. -/
def extend (d : Dataset) (lang : Lang) : List (String × String) → Nat × Dataset
  | [] => (0, d)
  | (source, decompiled) :: pairs =>
    match d.push ⟨lang, source, decompiled⟩ with
    | (false, d') => (0, d')
    | (true, d') =>
      let (added, d'') := d'.extend lang pairs
      (added + 1, d'')

def splitAt (d : Dataset) (count : Nat) : Dataset × Dataset :=
  ({ d with
      sources := d.sources.take count
      decompileds := d.decompileds.take count
      langs := d.langs.take count },
    { d with
      sources := d.sources.drop count
      decompileds := d.decompileds.drop count
      langs := d.langs.drop count })

def shareOf (length : Nat) (fraction : Float) : Nat :=
  (Float.ofNat length * fraction).floor.toUInt64.toNat

def splitOffEnd (d : Dataset) (fraction : Float) : Except Failure (Dataset × Dataset) :=
  if 0.0 ≤ fraction && fraction ≤ 1.0 then
    .ok (d.splitAt (d.length - min (shareOf d.length fraction) d.length))
  else
    .error (.message
      s!"Split fraction must be between 0 and 1, got {Decimal.showFloat fraction}")

def retain (d : Dataset) (mask : List Bool) : Dataset :=
  { d with
    sources := keep mask d.sources
    decompileds := keep mask d.decompileds
    langs := keep mask d.langs }

def reorder (d : Dataset) (order : List Nat) : Dataset :=
  { d with
    sources := pick order d.sources
    decompileds := pick order d.decompileds
    langs := pick order d.langs }

def limitLangs (d : Dataset) (langs : List Lang) : Dataset :=
  d.retain (d.langs.map langs.contains)

def addCapped (a b : Nat) : Nat := min (a + b) Decimal.maxCount

/-- Leaves out the first `skip` rows, then keeps at most `count`, or all if `count` is 0. -/
def limitCount (d : Dataset) (count skip : Nat) : Dataset :=
  let stop := if count = 0 then Decimal.maxCount else addCapped skip count
  d.retain ((List.range d.length).map fun i => skip ≤ i && i < stop)

/-- The places of the rows in ascending order of source length; equal lengths keep theirs. -/
def orderByLength (d : Dataset) : List Nat :=
  let lengths := d.sources.map Text.byteLength
  let keyed := (List.range d.length).zip lengths
  (keyed.mergeSort fun a b => a.2 ≤ b.2).map (·.1)

def sortBySourceLength (d : Dataset) : Dataset := d.reorder d.orderByLength

def countLang (lang : Lang) : List (Lang × Nat) → List (Lang × Nat)
  | [] => [(lang, 1)]
  | (l, n) :: rest => if l = lang then (l, n + 1) :: rest else (l, n) :: countLang lang rest

def langCounts (d : Dataset) : List (Lang × Nat) :=
  d.langs.foldl (fun counts l => countLang l counts) []

end Dataset
end FunctionPairs
