import FunctionPairs.Text.Utf8

/-!
Small text filters: what they write for what they are given. Their patterns and sets are plain
text with ranges; patterns have no special characters.
-/
namespace FunctionPairs

structure Finished where
  status : Nat
  output : Bytes
  unread : Bytes
deriving Repr, DecidableEq

namespace Filter

abbrev Chars := List Char

def replace (pattern replacement : Chars) (everywhere : Bool) : Nat → Chars → Chars
  | 0, cs => cs
  | _, [] => []
  | fuel + 1, c :: cs =>
    if !pattern.isEmpty && pattern.isPrefixOf (c :: cs) then
      let rest := (c :: cs).drop pattern.length
      replacement ++ (if everywhere then replace pattern replacement true fuel rest else rest)
    else c :: replace pattern replacement everywhere fuel cs

def upTo (mark : Char) : Chars → Chars × Chars
  | [] => ([], [])
  | '\\' :: c :: cs =>
    let (part, rest) := upTo mark cs
    ((if c = mark then [c] else ['\\', c]) ++ part, rest)
  | c :: cs =>
    if c = mark then ([], cs)
    else
      let (part, rest) := upTo mark cs
      (c :: part, rest)

structure Substitution where
  pattern : Chars
  replacement : Chars
  everywhere : Bool

def Substitution.ofText? (script : String) : Option Substitution :=
  match script.toList with
  | 's' :: mark :: cs =>
    let (pattern, rest) := upTo mark cs
    let (replacement, flags) := upTo mark rest
    some ⟨pattern, replacement, flags.contains 'g'⟩
  | _ => none

def Substitution.apply (s : Substitution) (line : Chars) : Chars :=
  replace s.pattern s.replacement s.everywhere line.length line

def mapLines (f : Chars → Chars) (current : Chars) : Chars → Chars
  | [] => if current.isEmpty then [] else f current.reverse
  | c :: cs =>
    if c = '\n' then f current.reverse ++ '\n' :: mapLines f [] cs
    else mapLines f (c :: current) cs

def scripts : List String → List String
  | "-e" :: s :: rest => s :: scripts rest
  | s :: _ => [s]
  | [] => []

def substitute (args : List String) (text : String) : String :=
  let edits := (scripts args).filterMap Substitution.ofText?
  String.ofList (mapLines (fun line => edits.foldl (fun l s => s.apply l) line) [] text.toList)

def classes : List (String × String) := [("[:lower:]", "a-z"), ("[:upper:]", "A-Z")]

def nameClasses (set : String) : String :=
  classes.foldl (fun s (name, range) => s.replace name range) set

def expand : Chars → Chars
  | a :: '-' :: b :: cs =>
    ((List.range (b.toNat + 1 - a.toNat)).map fun i => Char.ofNat (a.toNat + i)) ++ expand cs
  | '\\' :: 'n' :: cs => '\n' :: expand cs
  | '\\' :: 't' :: cs => '\t' :: expand cs
  | c :: cs => c :: expand cs
  | [] => []

/-- The character at the same place of the other set, the last one if that is shorter. -/
def mapped (source target : Chars) (c : Char) : Char :=
  match source.idxOf? c with
  | some i => target[i]?.getD (target.getLast?.getD c)
  | none => c

def members (set : String) : Chars := expand (nameClasses set).toList

def translateSet (args : List String) (text : String) : String :=
  match args with
  | ["-d", set] => String.ofList (text.toList.filter fun c => !(members set).contains c)
  | [a, b] => String.ofList (text.toList.map (mapped (members a) (members b)))
  | _ => text

def isOctal (c : Char) : Bool := '0' ≤ c && c ≤ '7'

def escape : Chars → Bytes × Chars
  | 'n' :: cs => ([10], cs)
  | 't' :: cs => ([9], cs)
  | '\\' :: cs => ([0x5C], cs)
  | cs =>
    let digits := (cs.take 3).takeWhile isOctal
    if digits.isEmpty then ([0x5C], cs)
    else
      let n := digits.foldl (fun n d => n * 8 + (d.toNat - '0'.toNat)) 0
      ([UInt8.ofNat n], cs.drop digits.length)

def formatPart : Nat → Chars → Bytes × Option Chars
  | 0, _ => ([], none)
  | _, [] => ([], none)
  | fuel + 1, c :: cs =>
    let behind := fun (front : Bytes) (rest : Chars) =>
      let (bytes, more) := formatPart fuel rest
      (front ++ bytes, more)
    if c = '%' then
      match cs with
      | 's' :: rest => ([], some rest)
      | '%' :: rest => behind [0x25] rest
      | _ => behind [0x25] cs
    else if c = '\\' then
      let (bytes, rest) := escape cs
      behind bytes rest
    else behind (String.utf8EncodeChar c) cs

def fill : Nat → Chars → List String → Bytes × List String
  | 0, _, args => ([], args)
  | fuel + 1, format, args =>
    match formatPart (format.length + 1) format with
    | (bytes, none) => (bytes, args)
    | (bytes, some rest) =>
      let (more, left) := fill fuel rest (args.drop 1)
      (bytes ++ Utf8.encode (args.headD "") ++ more, left)

def fillAll : Nat → Chars → List String → Bytes
  | 0, _, _ => []
  | fuel + 1, format, args =>
    let (bytes, left) := fill (format.length + 1) format args
    if left.isEmpty || left.length = args.length then bytes
    else bytes ++ fillAll fuel format left

def whole (f : String → String) (input : Bytes) : Finished :=
  match Utf8.decode? input with
  | some text => ⟨0, Utf8.encode (f text), []⟩
  | none => ⟨0, input, []⟩

def run? (name : String) (args : List String) (input : Bytes) : Option Finished :=
  match name with
  | "cat" => some ⟨0, input, []⟩
  | "sed" => some (whole (substitute args) input)
  | "tr" => some (whole (translateSet args) input)
  | "true" => some ⟨0, [], input⟩
  | "false" => some ⟨1, [], input⟩
  | "echo" => some ⟨0, Utf8.encode (" ".intercalate args ++ "\n"), input⟩
  | "printf" =>
    let format := (args.headD "").toList
    some ⟨0, fillAll (args.length + 1) format (args.drop 1), input⟩
  | _ => none

end Filter
end FunctionPairs
