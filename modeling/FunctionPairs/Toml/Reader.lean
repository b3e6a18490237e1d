import FunctionPairs.Toml.Document
import FunctionPairs.Decimal

/-!
Reading TOML 1.0. Every reader takes the characters that are left and gives back what it read
with the characters behind it, or nothing if the text is not of its form.
-/
namespace FunctionPairs.Toml

abbrev Chars := List Char

abbrev Reader (α : Type) := Chars → Option (α × Chars)

def isSpace (c : Char) : Bool := c = ' ' || c = '\t'

def isPlain (c : Char) : Bool := c = '\t' || (' ' ≤ c && c ≠ '\x7f')

def skipSpace (cs : Chars) : Chars := cs.dropWhile isSpace

def newline? : Chars → Option Chars
  | '\n' :: cs => some cs
  | '\r' :: '\n' :: cs => some cs
  | _ => none

def skipComment : Chars → Option Chars
  | '#' :: cs =>
    match cs.dropWhile isPlain with
    | [] => some []
    | rest => if (newline? rest).isSome then some rest else none
  | cs => some cs

def skipBlank : Nat → Chars → Option Chars
  | 0, cs => some cs
  | fuel + 1, cs =>
    match skipComment (skipSpace cs) with
    | none => none
    | some rest =>
      match newline? rest with
      | some rest' => skipBlank fuel rest'
      | none => some rest

def hex? (c : Char) : Option Nat :=
  if '0' ≤ c && c ≤ '9' then some (c.toNat - 48)
  else if 'a' ≤ c && c ≤ 'f' then some (c.toNat - 87)
  else if 'A' ≤ c && c ≤ 'F' then some (c.toNat - 55)
  else none

def hexValue (cs : Chars) : Option Nat :=
  cs.foldl (fun n c => do return (← n) * 16 + (← hex? c)) (some 0)

def scalar? (n : Nat) : Option Char := if n.isValidChar then some (Char.ofNat n) else none

def escape : Reader Char
  | 'b' :: cs => some ('\x08', cs)
  | 't' :: cs => some ('\t', cs)
  | 'n' :: cs => some ('\n', cs)
  | 'f' :: cs => some ('\x0c', cs)
  | 'r' :: cs => some ('\r', cs)
  | '"' :: cs => some ('"', cs)
  | '\\' :: cs => some ('\\', cs)
  | 'u' :: cs => digits 4 cs
  | 'U' :: cs => digits 8 cs
  | _ => none
where
  digits (n : Nat) : Reader Char := fun cs =>
    if cs.length < n then none
    else do
      let c ← scalar? (← hexValue (cs.take n))
      return (c, cs.drop n)

def basicText : Nat → Reader Chars
  | 0, _ => none
  | fuel + 1, cs =>
    match cs with
    | '"' :: rest => some ([], rest)
    | '\\' :: rest => do
      let (c, rest') ← escape rest
      let (s, rest'') ← basicText fuel rest'
      return (c :: s, rest'')
    | c :: rest =>
      if isPlain c then do
        let (s, rest') ← basicText fuel rest
        return (c :: s, rest')
      else none
    | [] => none

def literalText : Reader Chars := fun cs =>
  let s := cs.takeWhile fun c => isPlain c && c ≠ '\''
  match cs.drop s.length with
  | '\'' :: rest => some (s, rest)
  | _ => none

/-- Quotes at the end of a multi-line string: three close it and up to two before them belong
to the text. -/
def closing (quote : Char) (cs : Chars) : Option (Chars × Chars) :=
  let n := (cs.takeWhile (· = quote)).length
  if n < 3 then none else if 5 < n then none
  else some (List.replicate (n - 3) quote, cs.drop n)

def skipLines : Nat → Chars → Chars
  | 0, cs => cs
  | fuel + 1, cs =>
    match newline? (skipSpace cs) with
    | some rest => skipLines fuel rest
    | none => skipSpace cs

def longText (quote : Char) : Nat → Reader Chars
  | 0, _ => none
  | fuel + 1, cs =>
    match closing quote cs with
    | some (s, rest) => some (s, rest)
    | none =>
      match newline? cs with
      | some rest => do
        let (s, rest') ← longText quote fuel rest
        return ('\n' :: s, rest')
      | none =>
        match cs with
        | [] => none
        | c :: rest =>
          if c = '\\' && quote = '"' then
            match newline? (skipSpace rest) with
            | some below => longText quote fuel (skipLines below.length below)
            | none => do
              let (e, rest') ← escape rest
              let (s, rest'') ← longText quote fuel rest'
              return (e :: s, rest'')
          else if c = quote then
            if 5 < (cs.takeWhile (· = quote)).length then none
            else do
              let (s, rest') ← longText quote fuel rest
              return (c :: s, rest')
          else if isPlain c then do
            let (s, rest') ← longText quote fuel rest
            return (c :: s, rest')
          else none

def afterFirstNewline (cs : Chars) : Chars := (newline? cs).getD cs

def quoted : Reader String := fun cs =>
  let made := fun (r : Option (Chars × Chars)) => r.map fun (s, rest) => (String.ofList s, rest)
  match cs with
  | '"' :: '"' :: '"' :: rest =>
    made (longText '"' (rest.length + 1) (afterFirstNewline rest))
  | '\'' :: '\'' :: '\'' :: rest =>
    made (longText '\'' (rest.length + 1) (afterFirstNewline rest))
  | '"' :: rest => made (basicText (rest.length + 1) rest)
  | '\'' :: rest => made (literalText rest)
  | _ => none

def isBare (c : Char) : Bool := c.isAlphanum || c = '_' || c = '-'

def simpleKey : Reader String := fun cs =>
  match cs with
  | '"' :: rest =>
    (basicText (rest.length + 1) rest).map fun (s, rest') => (String.ofList s, rest')
  | '\'' :: rest => (literalText rest).map fun (s, rest') => (String.ofList s, rest')
  | _ =>
    let s := cs.takeWhile isBare
    if s.isEmpty then none else some (String.ofList s, cs.drop s.length)

def key : Nat → Reader (List String)
  | 0, _ => none
  | fuel + 1, cs =>
    match simpleKey (skipSpace cs) with
    | none => none
    | some (k, rest) =>
      match skipSpace rest with
      | '.' :: rest' => (key fuel rest').map fun (ks, rest'') => (k :: ks, rest'')
      | rest' => some ([k], rest')

def isDigitRun (isDigit : Char → Bool) (cs : Chars) : Bool :=
  (Text.splitChars '_' cs).all fun run => !run.isEmpty && run.all isDigit

def withoutUnderscores (cs : Chars) : Chars := cs.filter (· ≠ '_')

def baseValue (base : Nat) (cs : Chars) : Nat :=
  cs.foldl (fun n c => n * base + (hex? c).getD 0) 0

def fits (n : Int) : Option Value :=
  if -0x8000000000000000 ≤ n && n < 0x8000000000000000 then some (.integer n) else none

def isDecimal (cs : Chars) : Bool :=
  isDigitRun Char.isDigit cs && (cs.length = 1 || cs.head? ≠ some '0')

def isExponent (cs : Chars) : Bool :=
  match cs with
  | '+' :: ds => isDigitRun Char.isDigit ds
  | '-' :: ds => isDigitRun Char.isDigit ds
  | ds => isDigitRun Char.isDigit ds

def isFloat (cs : Chars) : Bool :=
  let lower := cs.map Char.toLower
  let mantissa := lower.takeWhile (· ≠ 'e')
  let exponent := lower.dropWhile (· ≠ 'e')
  let whole := mantissa.takeWhile (· ≠ '.')
  let fraction := mantissa.dropWhile (· ≠ '.')
  isDecimal whole && (fraction.isEmpty || isDigitRun Char.isDigit (fraction.drop 1)) &&
    (exponent.isEmpty || isExponent (exponent.drop 1)) && !(fraction.isEmpty && exponent.isEmpty)

def unsigned (negative : Bool) (cs : Chars) : Option Value :=
  if cs = "inf".toList || cs = "nan".toList then some .float
  else if isDecimal cs then
    let n := Int.ofNat (baseValue 10 (withoutUnderscores cs))
    fits (if negative then -n else n)
  else if isFloat cs then some .float
  else none

def number (cs : Chars) : Option Value :=
  match cs with
  | '+' :: ds => unsigned false ds
  | '-' :: ds => unsigned true ds
  | '0' :: 'x' :: ds => based 16 (fun c => (hex? c).isSome) ds
  | '0' :: 'o' :: ds => based 8 (fun c => '0' ≤ c && c ≤ '7') ds
  | '0' :: 'b' :: ds => based 2 (fun c => c = '0' || c = '1') ds
  | ds => unsigned false ds
where
  based (base : Nat) (isDigit : Char → Bool) (ds : Chars) : Option Value :=
    if isDigitRun isDigit ds then fits (baseValue base (withoutUnderscores ds)) else none

def pair (low high : Nat) (cs : Chars) : Bool :=
  cs.length = 2 && cs.all Char.isDigit && low ≤ baseValue 10 cs && baseValue 10 cs ≤ high

def daysIn (year month : Nat) : Nat :=
  if month = 2 then
    if year % 4 = 0 && (year % 100 ≠ 0 || year % 400 = 0) then 29 else 28
  else if month = 4 || month = 6 || month = 9 || month = 11 then 30 else 31

def isDate (cs : Chars) : Bool :=
  match Text.splitChars '-' cs with
  | [y, m, d] =>
    y.length = 4 && y.all Char.isDigit && pair 1 12 m &&
      pair 1 (daysIn (baseValue 10 y) (baseValue 10 m)) d
  | _ => false

def isClock (cs : Chars) : Bool :=
  match Text.splitChars ':' cs with
  | [h, m, s] =>
    let fraction := s.dropWhile (· ≠ '.')
    pair 0 23 h && pair 0 59 m && pair 0 60 (s.takeWhile (· ≠ '.')) &&
      (fraction.isEmpty || (1 < fraction.length && (fraction.drop 1).all Char.isDigit))
  | _ => false

def isOffset (cs : Chars) : Bool :=
  match cs with
  | ['z'] => true
  | sign :: rest =>
    (sign = '+' || sign = '-') &&
      match Text.splitChars ':' rest with
      | [h, m] => pair 0 23 h && pair 0 59 m
      | _ => false
  | [] => false

def isTime (dated : Bool) (cs : Chars) : Bool :=
  let clock := cs.takeWhile fun c => c.isDigit || c = ':' || c = '.'
  let offset := cs.drop clock.length
  isClock clock && (offset.isEmpty || (dated && isOffset offset))

def isMoment (cs : Chars) : Bool :=
  let lower := cs.map Char.toLower
  let date := lower.take 10
  match lower.drop 10 with
  | [] => isDate date || isTime false lower
  | c :: time => (isDate date && (c = 't' || c = ' ') && isTime true time) || isTime false lower

def isScalarChar (c : Char) : Bool :=
  c.isAlphanum || c = '_' || c = '-' || c = '+' || c = '.' || c = ':'

def scalar (cs : Chars) : Option Value :=
  if cs = "true".toList then some (.boolean true)
  else if cs = "false".toList then some (.boolean false)
  else match number cs with
    | some v => some v
    | none => if isMoment cs then some .moment else none

/-- A value written without quotes or brackets. A date and a time may have a space between. -/
def bareValue : Reader Value := fun cs =>
  let word := cs.takeWhile isScalarChar
  let rest := cs.drop word.length
  match rest with
  | ' ' :: d :: _ =>
    if isDate word && d.isDigit then
      let time := (rest.drop 1).takeWhile isScalarChar
      (scalar (word ++ ' ' :: time)).map fun v => (v, rest.drop (time.length + 1))
    else (scalar word).map fun v => (v, rest)
  | _ => (scalar word).map fun v => (v, rest)

def maxDepth : Nat := 80

mutual

/-- A value. The first count bounds the text, the second the nesting. -/
def value : Nat → Nat → Reader Value
  | 0, _, _ => none
  | fuel + 1, depth, cs =>
    match cs with
    | '"' :: _ => (quoted cs).map fun (s, rest) => (.text s, rest)
    | '\'' :: _ => (quoted cs).map fun (s, rest) => (.text s, rest)
    | '[' :: rest =>
      if maxDepth ≤ depth + 1 then none
      else (arrayItems fuel (depth + 1) rest).map fun (vs, rest') => (.array vs, rest')
    | '\x7b' :: rest =>
      if maxDepth ≤ depth + 1 then none
      else match skipSpace rest with
        | '\x7d' :: rest' => some (.table .inlined [], rest')
        | rest' => do
          let (es, rest'') ← inlineEntries fuel (depth + 1) [] rest'
          return (.table .inlined es, rest'')
    | _ => bareValue cs

def arrayItems : Nat → Nat → Reader (List Value)
  | 0, _, _ => none
  | fuel + 1, depth, cs =>
    match skipBlank cs.length cs with
    | none => none
    | some (']' :: rest) => some ([], rest)
    | some rest => do
      let (v, rest') ← value fuel depth rest
      match ← skipBlank rest'.length rest' with
      | ',' :: more => do
        let (vs, rest'') ← arrayItems fuel depth more
        return (v :: vs, rest'')
      | ']' :: rest'' => return ([v], rest'')
      | _ => none

def inlineEntries : Nat → Nat → Entries → Reader Entries
  | 0, _, _, _ => none
  | fuel + 1, depth, seen, cs => do
    let (ks, rest) ← key (cs.length + 1) cs
    match rest with
    | '=' :: rest' => do
      let (v, rest'') ← value fuel depth (skipSpace rest')
      let seen' ← addValue v ks seen
      match skipSpace rest'' with
      | ',' :: more => inlineEntries fuel depth seen' more
      | '\x7d' :: more => return (seen', more)
      | _ => none
    | _ => none

end

def line (cs : Chars) : Option (Line × Chars) := do
  let cs := skipSpace cs
  let (l, rest) ←
    match cs with
    | '[' :: '[' :: more => do
      let (ks, rest) ← key (more.length + 1) more
      match rest with
      | ']' :: ']' :: rest' => some (Line.arrayHeader ks, rest')
      | _ => none
    | '[' :: more => do
      let (ks, rest) ← key (more.length + 1) more
      match rest with
      | ']' :: rest' => some (Line.header ks, rest')
      | _ => none
    | [] => some (.blank, [])
    | '#' :: _ => some (.blank, cs)
    | '\n' :: _ => some (.blank, cs)
    | '\r' :: _ => some (.blank, cs)
    | _ => do
      let (ks, rest) ← key (cs.length + 1) cs
      match rest with
      | '=' :: rest' => do
        let rest'' := skipSpace rest'
        let (v, behind) ← value (rest''.length + 1) 0 rest''
        some (Line.assignment ks v, behind)
      | _ => none
  match ← skipComment (skipSpace rest) with
  | [] => some (l, [])
  | more => (newline? more).map fun more' => (l, more')

def document : Nat → Document → Chars → Option Document
  | 0, d, cs => if cs.isEmpty then some d else none
  | fuel + 1, d, cs =>
    if cs.isEmpty then some d
    else do
      let (l, rest) ← line cs
      document fuel (← d.add l) rest

def read (text : String) : Option Entries :=
  let cs := match text.toList with
    | '\uFEFF' :: rest => rest
    | all => all
  (document (cs.length + 1) .start cs).map Document.root

end FunctionPairs.Toml
