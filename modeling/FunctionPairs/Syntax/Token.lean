import FunctionPairs.Language
import FunctionPairs.Text.Utf8

/-!
The tokens of C and C++ text. Blanks, line continuations and comments are left out, but a token
remembers the first comment before it. A preprocessor directive is one token, except that
the code behind `#else`, `#endif` and the name of `#ifdef` is scanned as usual.
-/
namespace FunctionPairs.Syntax

structure Span where
  start : Nat
  stop : Nat
deriving Repr, DecidableEq

inductive Lexeme
  | word (text : String)
  | symbol (text : String)
  | text
  | literal
  /-- An `#include`, with the place of its target if that is not a macro. -/
  | includeDirective (system : Bool) (target : Option Span)
  | openConditional
  | otherBranch
  | closeConditional
  | directive
  | stray
deriving Repr, DecidableEq

structure Token where
  lexeme : Lexeme
  span : Span
  comment : Option Span
deriving Repr, DecidableEq

namespace Scan

def byte (c : Char) : UInt8 := c.toUInt8

def isDigit (b : UInt8) : Bool := byte '0' ≤ b && b ≤ byte '9'

def isAsciiWord (b : UInt8) : Bool :=
  (byte 'a' ≤ b && b ≤ byte 'z') || (byte 'A' ≤ b && b ≤ byte 'Z') || isDigit b ||
    b = byte '_' || b = byte '$'

/-- The length of the character in front if it can stand in a name, otherwise 0. -/
def wordCharLength (b : UInt8) (bs : Bytes) : Nat :=
  if isAsciiWord b then 1
  else if b < 0x80 then 0
  else match Utf8.front b bs with
    | (some c, n) => if isBlank c || c = '\uFEFF' then 0 else n + 1
    | (none, _) => 0

def wordLengthFrom : Nat → Bytes → Nat
  | 0, _ => 0
  | _, [] => 0
  | fuel + 1, b :: bs =>
    match wordCharLength b bs with
    | 0 => 0
    | n + 1 => n + 1 + wordLengthFrom fuel (bs.drop n)

def wordLength (bs : Bytes) : Nat := wordLengthFrom bs.length bs

def newlineLength : Bytes → Nat
  | b :: c :: _ =>
    if b = byte '\n' then 1 else if b = byte '\r' && c = byte '\n' then 2 else 0
  | [b] => if b = byte '\n' then 1 else 0
  | [] => 0

def blankLength : Bytes → Nat
  | [] => 0
  | b :: bs =>
    if b = byte '\\' then
      match newlineLength bs with
      | 0 => 0
      | n => n + 1
    else match Utf8.front b bs with
      | (some c, n) => if isBlank c || c = '\uFEFF' then n + 1 else 0
      | (none, _) => 0

/-- A line comment up to its line break, from behind its slashes; a backslash before the
break carries it on. -/
def lineCommentLength : Bytes → Nat
  | [] => 0
  | b :: bs =>
    if b = byte '\n' then 0
    else if b = byte '\\' then
      match bs with
      | c :: cs =>
        if c = byte '\n' then 2 + lineCommentLength cs
        else match cs with
          | d :: ds =>
            if c = byte '\r' && d = byte '\n' then 3 + lineCommentLength ds
            else 1 + lineCommentLength (c :: d :: ds)
          | [] => 2
      | [] => 1
    else 1 + lineCommentLength bs

def blockCommentLength : Bytes → Option Nat
  | b :: c :: bs =>
    if b = byte '*' && c = byte '/' then some 2
    else (blockCommentLength (c :: bs)).map (· + 1)
  | _ => none

def comment? : Bytes → Option (Nat × Bool)
  | b :: c :: bs =>
    if b = byte '/' && c = byte '/' then some (2 + lineCommentLength bs, true)
    else if b = byte '/' && c = byte '*' then
      match blockCommentLength bs with
      | some n => some (2 + n, true)
      | none => some (2 + bs.length, false)
    else none
  | _ => none

/-- A quoted literal from behind its opening quote, closing quote included. It may not run
over a line break that no backslash hides. -/
def quotedLength (quote : UInt8) : Bytes → Option Nat
  | [] => none
  | b :: bs =>
    if b = quote then some 1
    else if b = byte '\n' then none
    else if b = byte '\\' then
      match bs with
      | _ :: cs => (quotedLength quote cs).map (· + 2)
      | [] => none
    else (quotedLength quote bs).map (· + 1)

def lengthThrough (pattern : Bytes) : Bytes → Option Nat
  | [] => none
  | b :: bs =>
    if pattern.isPrefixOf (b :: bs) then some pattern.length
    else (lengthThrough pattern bs).map (· + 1)

def rawLength (bs : Bytes) : Option Nat :=
  let mark := bs.takeWhile fun b => b ≠ byte '(' && b ≠ byte '\n' && b ≠ byte '"'
  if (bs.drop mark.length).head? = some (byte '(') then
    (lengthThrough (byte ')' :: mark ++ [byte '"']) (bs.drop (mark.length + 1))).map
      (· + mark.length + 1)
  else none

def numberLength : Bytes → Nat
  | [] => 0
  | b :: bs =>
    if isAsciiWord b || b = byte '.' then
      match bs with
      | c :: cs =>
        if (c = byte '+' || c = byte '-') &&
            (b = byte 'e' || b = byte 'E' || b = byte 'p' || b = byte 'P') then
          2 + numberLength cs
        else 1 + numberLength (c :: cs)
      | [] => 1
    else if b = byte '\'' then
      match bs with
      | c :: cs => if isAsciiWord c then 2 + numberLength cs else 0
      | [] => 0
    else 0

/-- The rest of a directive's line, and whether a line break ends it. Block comments may run
over line breaks; line comments end it only where `comments` says so. -/
def directiveLineFrom (comments : Bool) : Nat → Bytes → Nat × Bool
  | 0, _ => (0, false)
  | _, [] => (0, false)
  | fuel + 1, b :: bs =>
    let more := fun (n : Nat) =>
      let (m, ended) := directiveLineFrom comments fuel ((b :: bs).drop n)
      (n + m, ended)
    match newlineLength (b :: bs) with
    | n + 1 => (n + 1, true)
    | 0 =>
      match newlineLength bs with
      | n + 1 => more (if b = byte '\\' then n + 2 else 1)
      | 0 =>
        match comment? (b :: bs) with
        | some (n, _) => if !comments && bs.head? = some (byte '/') then more 1 else more n
        | none => more 1

def directiveLine (comments : Bool) (bs : Bytes) : Nat × Bool :=
  directiveLineFrom comments bs.length bs

def gapLengthFrom : Nat → Bytes → Nat
  | 0, _ => 0
  | _, [] => 0
  | fuel + 1, b :: bs =>
    if newlineLength (b :: bs) ≠ 0 then 0
    else match blankLength (b :: bs) with
      | n + 1 => n + 1 + gapLengthFrom fuel (bs.drop n)
      | 0 =>
        match comment? (b :: bs) with
        | some (n, _) => n + gapLengthFrom fuel ((b :: bs).drop n)
        | none => 0

def gapLength (bs : Bytes) : Nat := gapLengthFrom bs.length bs

def angleLength : Bytes → Option Nat
  | [] => none
  | b :: bs =>
    if b = byte '>' then some 1
    else if b = byte '\n' then none
    else (angleLength bs).map (· + 1)

def target? : Bytes → Option (Bool × Nat)
  | b :: bs =>
    if b = byte '"' then (quotedLength (byte '"') bs).map fun n => (false, n + 1)
    else if b = byte '<' then (angleLength bs).map fun n => (true, n + 1)
    else none
  | [] => none

structure Found where
  lexeme : Lexeme
  length : Nat
  sound : Bool

def wordText (bs : Bytes) (n : Nat) : String := Utf8.decode (bs.take n)

def includeAt (position used : Nat) (bs : Bytes) : Found :=
  let gap := gapLength bs
  let rest := bs.drop gap
  match target? rest with
  | some (system, n) =>
    let (line, ended) := directiveLine true (rest.drop n)
    let start := position + used + gap
    ⟨.includeDirective system (some ⟨start, start + n⟩), used + gap + n + line, ended⟩
  | none =>
    let (line, ended) := directiveLine true rest
    ⟨.includeDirective false none, used + gap + line, ended⟩

def directiveAt (position : Nat) (bs : Bytes) : Found :=
  let spaces := ((bs.drop 1).takeWhile fun b => b = byte ' ' || b = byte '\t').length
  let name := bs.drop (1 + spaces)
  let n := (name.takeWhile isAsciiWord).length
  let used := 1 + spaces + n
  let rest := bs.drop used
  let toEnd := fun (lexeme : Lexeme) (comments : Bool) =>
    let (line, ended) := directiveLine comments rest
    (⟨lexeme, used + line, ended⟩ : Found)
  let withName := fun (lexeme : Lexeme) =>
    let gap := gapLength rest
    (⟨lexeme, used + gap + wordLength (rest.drop gap), true⟩ : Found)
  match wordText name n with
  | "include" => includeAt position used rest
  | "if" => toEnd .openConditional true
  | "ifdef" => withName .openConditional
  | "ifndef" => withName .openConditional
  | "elif" => toEnd .otherBranch true
  | "elifdef" => withName .otherBranch
  | "elifndef" => withName .otherBranch
  | "else" => ⟨.otherBranch, used, true⟩
  | "endif" => ⟨.closeConditional, used, true⟩
  | "" => ⟨.stray, used, false⟩
  | _ => toEnd .directive false

/-- Symbols of more than one character; every other symbol is one byte. -/
def longSymbols : List String := ["...", "<=>", "<<=", "::", "->", "&&", "||", "<<", "<="]

def shortSymbols : List Char := "()[]\x7b\x7d<>;:,.?=+-*/%&|^!~".toList

def symbolAt (b : UInt8) (bs : Bytes) : Found :=
  match longSymbols.find? fun s => (Utf8.encode s).isPrefixOf (b :: bs) with
  | some s => ⟨.symbol s, s.length, true⟩
  | none =>
    let c := Char.ofNat b.toNat
    if shortSymbols.contains c then ⟨.symbol c.toString, 1, true⟩ else ⟨.stray, 1, false⟩

def quotedAt (lexeme : Lexeme) (quote : UInt8) (used : Nat) (rest : Bytes) : Found :=
  match quotedLength quote (rest.drop 1) with
  | some n => ⟨lexeme, used + 1 + n, true⟩
  | none =>
    ⟨lexeme, used + (rest.takeWhile (· ≠ byte '\n')).length, false⟩

def textMarks : List String := ["L", "u", "U", "u8"]

def rawMarks : List String := ["R", "LR", "uR", "UR", "u8R"]

def wordAt (dialect : Dialect) (n : Nat) (bs : Bytes) : Found :=
  let text := wordText bs n
  let rest := bs.drop n
  let next := rest.head?
  if next = some (byte '"') && dialect = .cpp && rawMarks.contains text then
    match rawLength (rest.drop 1) with
    | some m => ⟨.text, n + 1 + m, true⟩
    | none => ⟨.text, bs.length, false⟩
  else if next = some (byte '"') && textMarks.contains text then
    quotedAt .text (byte '"') n rest
  else if next = some (byte '\'') && textMarks.contains text then
    quotedAt .literal (byte '\'') n rest
  else ⟨.word text, n, true⟩

def at? (dialect : Dialect) (position : Nat) (b : UInt8) (bs : Bytes) : Found :=
  if b = byte '#' then directiveAt position (b :: bs)
  else if b = byte '"' then quotedAt .text (byte '"') 0 (b :: bs)
  else if b = byte '\'' then quotedAt .literal (byte '\'') 0 (b :: bs)
  else if isDigit b || (b = byte '.' && bs.head?.any isDigit) then
    ⟨.literal, numberLength (b :: bs), true⟩
  else match wordLength (b :: bs) with
    | 0 => symbolAt b bs
    | n => wordAt dialect n (b :: bs)

/-- Scans from a position on. `comment` is the first comment since the last token. The second
part says whether everything was well-formed. -/
def run (dialect : Dialect) (position : Nat) (comment : Option Span) : Bytes → List Token × Bool
  | [] => ([], true)
  | b :: bs =>
    match blankLength (b :: bs) with
    | n + 1 => run dialect (position + n + 1) comment (bs.drop n)
    | 0 =>
      match comment? (b :: bs) with
      | some (n, closed) =>
        let here := comment.getD ⟨position, position + n⟩
        let (ts, sound) := run dialect (position + (n - 1) + 1) (some here) (bs.drop (n - 1))
        (ts, closed && sound)
      | none =>
        let found := at? dialect position b bs
        let n := found.length - 1
        let (ts, sound) := run dialect (position + n + 1) none (bs.drop n)
        (⟨found.lexeme, ⟨position, position + n + 1⟩, comment⟩ :: ts, found.sound && sound)
termination_by bs => bs.length
decreasing_by all_goals simp only [List.length_cons, List.length_drop]; omega

end Scan

def tokens (dialect : Dialect) (text : Bytes) : List Token × Bool := Scan.run dialect 0 none text

end FunctionPairs.Syntax
