import FunctionPairs.Dataset.Basic
import FunctionPairs.Text.Utf8

/-!
The stored form of a dataset: one JSON object without blanks, its keys in a fixed order.
Reading is more lenient: blanks, another order of keys, further keys, escapes of all kinds, an
array of the four values in place of the object, and an object with `null` in place of the
name of a language. Further values are only skipped, so that what they hold need not be text.
-/
namespace FunctionPairs.Dataset

/-! Writing. -/

def hexDigit (n : Nat) : Char := "0123456789abcdef".toList.getD n '0'

def escapeChar (c : Char) : List Char :=
  if c = '"' then ['\\', '"']
  else if c = '\\' then ['\\', '\\']
  else if c = '\x08' then ['\\', 'b']
  else if c = '\t' then ['\\', 't']
  else if c = '\n' then ['\\', 'n']
  else if c = '\x0c' then ['\\', 'f']
  else if c = '\r' then ['\\', 'r']
  else if c.toNat < 0x20 then
    ['\\', 'u', '0', '0', hexDigit (c.toNat / 16), hexDigit (c.toNat % 16)]
  else [c]

def quote (s : String) : String :=
  "\"" ++ String.ofList (s.toList.flatMap escapeChar) ++ "\""

def quoteAll (ss : List String) : String := "[" ++ ",".intercalate (ss.map quote) ++ "]"

def toJson (d : Dataset) : String :=
  "\x7b\"max_len\":" ++ toString d.maxLen ++ ",\"sources\":" ++ quoteAll d.sources ++
    ",\"decompileds\":" ++ quoteAll d.decompileds ++
    ",\"code_types\":" ++ quoteAll (d.langs.map Lang.key) ++ "\x7d"

/-! Reading. -/

abbrev Reader (α : Type) := Bytes → Option (α × Bytes)

def code (c : Char) : UInt8 := c.toUInt8

def isSpace (b : UInt8) : Bool :=
  b = code ' ' || b = code '\n' || b = code '\t' || b = code '\r'

def skipSpace (bs : Bytes) : Bytes := bs.dropWhile isSpace

def mark (c : Char) (bs : Bytes) : Option Bytes :=
  match skipSpace bs with
  | b :: rest => if b = code c then some rest else none
  | [] => none

def hexValue? (b : UInt8) : Option Nat :=
  if code '0' ≤ b && b ≤ code '9' then some (b - code '0').toNat
  else if code 'a' ≤ b && b ≤ code 'f' then some ((b - code 'a').toNat + 10)
  else if code 'A' ≤ b && b ≤ code 'F' then some ((b - code 'A').toNat + 10)
  else none

def unit : Reader Nat
  | a :: b :: c :: d :: rest => do
    let n := (← hexValue? a) * 4096 + (← hexValue? b) * 256 + (← hexValue? c) * 16
    return (n + (← hexValue? d), rest)
  | _ => none

def plainEscape? (b : UInt8) : Option UInt8 :=
  if b = code '"' || b = code '\\' || b = code '/' then some b
  else if b = code 'b' then some 8
  else if b = code 'f' then some 12
  else if b = code 'n' then some 10
  else if b = code 'r' then some 13
  else if b = code 't' then some 9
  else none

/-- A character by its number, in two units if it is beyond 0xFFFF; half of such a pair is no
character. -/
def numbered : Reader Char := fun bs => do
  let (n, rest) ← unit bs
  if n < 0xD800 || 0xE000 ≤ n then some (Char.ofNat n, rest)
  else if 0xDC00 ≤ n then none
  else match rest with
    | b :: u :: more =>
      if b = code '\\' && u = code 'u' then do
        let (low, rest) ← unit more
        if 0xDC00 ≤ low && low < 0xE000 then
          some (Char.ofNat (0x10000 + (n - 0xD800) * 1024 + (low - 0xDC00)), rest)
        else none
      else none
    | _ => none

def stringBytes : Nat → Reader Bytes
  | 0, _ => none
  | _, [] => none
  | fuel + 1, b :: bs =>
    if b = code '"' then some ([], bs)
    else if b = code '\\' then
      match bs with
      | [] => none
      | e :: more =>
        if e = code 'u' then do
          let (c, rest) ← numbered more
          let (text, rest) ← stringBytes fuel rest
          return (String.utf8EncodeChar c ++ text, rest)
        else do
          let plain ← plainEscape? e
          let (text, rest) ← stringBytes fuel more
          return (plain :: text, rest)
    else if b < 0x20 then none
    else do
      let (text, rest) ← stringBytes fuel bs
      return (b :: text, rest)

def stringBody : Reader String := fun bs => do
  let (bytes, rest) ← stringBytes (bs.length + 1) bs
  return (← Utf8.decode? bytes, rest)

def string : Reader String := fun bs => (mark '"' bs).bind stringBody

def isDigit (b : UInt8) : Bool := code '0' ≤ b && b ≤ code '9'

def digitsValue (ds : Bytes) : Nat := ds.foldl (fun n d => n * 10 + (d - code '0').toNat) 0

/-- A whole number of 64 bits without a sign, without zeros in front, and with neither point
nor exponent behind it. -/
def count : Reader Nat := fun bs =>
  let digits := (skipSpace bs).takeWhile isDigit
  let rest := (skipSpace bs).dropWhile isDigit
  let more := (rest.head?.map fun b => b = code '.' || b = code 'e' || b = code 'E').getD false
  if digits.isEmpty || more || (1 < digits.length && digits.head? = some (code '0')) then none
  else
    let n := digitsValue digits
    if n ≤ Decimal.maxCount then some (n, rest) else none

/-- Items behind an opening bracket, up to the closing one; `first` says that none came yet. -/
def itemsFrom {α : Type} (item : Reader α) : Nat → Bool → Reader (List α)
  | 0, _, _ => none
  | fuel + 1, first, bs =>
    match mark ']' bs with
    | some rest => some ([], rest)
    | none => do
      let bs ← if first then some bs else mark ',' bs
      let (a, rest) ← item bs
      let (as, rest) ← itemsFrom item fuel false rest
      return (a :: as, rest)

def array {α : Type} (item : Reader α) : Reader (List α) := fun bs => do
  let rest ← mark '[' bs
  itemsFrom item (rest.length + 1) true rest

def word (w : String) : Reader Unit := fun bs =>
  let bs := skipSpace bs
  let bytes := Utf8.encode w
  if bytes.isPrefixOf bs then some ((), bs.drop bytes.length) else none

def langName? (s : String) : Option Lang := Lang.all.find? fun l => l.key = s

def lang : Reader Lang := fun bs =>
  match mark '\x7b' bs with
  | none => do
    let (s, rest) ← string bs
    return (← langName? s, rest)
  | some rest => do
    let (s, rest) ← string rest
    let l ← langName? s
    let rest ← mark ':' rest
    let ((), rest) ← word "null" rest
    let rest ← mark '\x7d' rest
    return (l, rest)

def skipString : Nat → Bytes → Option Bytes
  | 0, _ => none
  | _, [] => none
  | fuel + 1, b :: bs =>
    if b = code '"' then some bs
    else if b = code '\\' then
      match bs with
      | [] => none
      | e :: more =>
        if e = code 'u' then do
          let (_, rest) ← unit more
          skipString fuel rest
        else do
          let _ ← plainEscape? e
          skipString fuel more
    else if b < 0x20 then none
    else skipString fuel bs

def skipDigits (bs : Bytes) : Option Bytes :=
  if bs.head?.any isDigit then some (bs.dropWhile isDigit) else none

def skipWhole (bs : Bytes) : Option Bytes :=
  match bs with
  | b :: rest =>
    if b = code '0' then if rest.head?.any isDigit then none else some rest else skipDigits bs
  | [] => none

def skipFraction (bs : Bytes) : Option Bytes :=
  match bs with
  | b :: rest => if b = code '.' then skipDigits rest else some bs
  | [] => some []

def skipExponent (bs : Bytes) : Option Bytes :=
  match bs with
  | b :: rest =>
    if b = code 'e' || b = code 'E' then
      match rest with
      | s :: more => if s = code '+' || s = code '-' then skipDigits more else skipDigits rest
      | [] => none
    else some bs
  | [] => some []

def skipNumber (bs : Bytes) : Option Bytes := do
  let whole ← skipWhole (if bs.head? = some (code '-') then bs.drop 1 else bs)
  let fraction ← skipFraction whole
  skipExponent fraction

mutual

def skipValue : Nat → Bytes → Option Bytes
  | 0, _ => none
  | fuel + 1, bs =>
    match skipSpace bs with
    | [] => none
    | b :: rest =>
      if b = code '"' then skipString (rest.length + 1) rest
      else if b = code '[' then skipItems fuel true rest
      else if b = code '\x7b' then skipMembers fuel true rest
      else if b = code 'n' then (word "null" (b :: rest)).map (·.2)
      else if b = code 't' then (word "true" (b :: rest)).map (·.2)
      else if b = code 'f' then (word "false" (b :: rest)).map (·.2)
      else skipNumber (b :: rest)

def skipItems : Nat → Bool → Bytes → Option Bytes
  | 0, _, _ => none
  | fuel + 1, first, bs =>
    match mark ']' bs with
    | some rest => some rest
    | none => do
      let bs ← if first then some bs else mark ',' bs
      let rest ← skipValue fuel bs
      skipItems fuel false rest

def skipMembers : Nat → Bool → Bytes → Option Bytes
  | 0, _, _ => none
  | fuel + 1, first, bs =>
    match mark '\x7d' bs with
    | some rest => some rest
    | none => do
      let bs ← if first then some bs else mark ',' bs
      let rest ← mark '"' bs
      let rest ← skipString (rest.length + 1) rest
      let rest ← mark ':' rest
      let rest ← skipValue fuel rest
      skipMembers fuel false rest

end

structure Partial where
  maxLen : Option Nat
  sources : Option (List String)
  decompileds : Option (List String)
  langs : Option (List Lang)

def Partial.none : Partial := ⟨.none, .none, .none, .none⟩

def Partial.complete? (p : Partial) : Option Dataset := do
  return ⟨← p.maxLen, ← p.sources, ← p.decompileds, ← p.langs⟩

def once {α : Type} (old : Option α) (reader : Reader α) : Reader (Option α) := fun bs =>
  match old with
  | some _ => none
  | none => (reader bs).map fun (a, rest) => (some a, rest)

def member (p : Partial) (key : String) : Reader Partial := fun bs =>
  match key with
  | "max_len" => (once p.maxLen count bs).map fun (v, rest) => ({ p with maxLen := v }, rest)
  | "sources" =>
    (once p.sources (array string) bs).map fun (v, rest) => ({ p with sources := v }, rest)
  | "decompileds" =>
    (once p.decompileds (array string) bs).map fun (v, rest) =>
      ({ p with decompileds := v }, rest)
  | "code_types" =>
    (once p.langs (array lang) bs).map fun (v, rest) => ({ p with langs := v }, rest)
  | _ => (skipValue (bs.length + 1) bs).map fun rest => (p, rest)

def members : Nat → Bool → Partial → Reader Partial
  | 0, _, _, _ => none
  | fuel + 1, first, p, bs =>
    match mark '\x7d' bs with
    | some rest => some (p, rest)
    | none => do
      let bs ← if first then some bs else mark ',' bs
      let (key, rest) ← string bs
      let rest ← mark ':' rest
      let (p, rest) ← member p key rest
      members fuel false p rest

def objectForm : Reader Dataset := fun bs => do
  let rest ← mark '\x7b' bs
  let (p, rest) ← members (rest.length + 1) true .none rest
  return (← p.complete?, rest)

def arrayForm : Reader Dataset := fun bs => do
  let rest ← mark '[' bs
  let (maxLen, rest) ← count rest
  let rest ← mark ',' rest
  let (sources, rest) ← array string rest
  let rest ← mark ',' rest
  let (decompileds, rest) ← array string rest
  let rest ← mark ',' rest
  let (langs, rest) ← array lang rest
  let rest ← mark ']' rest
  return (⟨maxLen, sources, decompileds, langs⟩, rest)

/-- The dataset that a text holds. Its columns may differ in length. -/
def ofJson (bs : Bytes) : Option Dataset := do
  let form := if (mark '[' bs).isSome then arrayForm else objectForm
  let (d, rest) ← form bs
  if (skipSpace rest).isEmpty then some d else none

end FunctionPairs.Dataset
