import FunctionPairs.Function
import FunctionPairs.ScrapeError
import FunctionPairs.FileSystem.Operations

/-!
The format of decompiled files. A sentinel line `// FUNCTION name` opens each function, whose
text runs to the next sentinel line; what stands before the first belongs to no function. Lines
end in a line feed only, and a carriage return before it is not part of the name. A sentinel
line without a name that is more than blanks makes the whole file ill-formed.
-/
namespace FunctionPairs.Decompiled

structure Line where
  chars : List Char
  ended : Bool
deriving Repr, DecidableEq

def Line.text (l : Line) : List Char := if l.ended then l.chars ++ ['\n'] else l.chars

/-- The lines of a text; what follows the last line feed counts as one unless it is empty. -/
def lines : List Char → List Line
  | [] => []
  | c :: cs =>
    if c = '\n' then ⟨[], true⟩ :: lines cs
    else match lines cs with
      | [] => [⟨[c], false⟩]
      | l :: ls => ⟨c :: l.chars, l.ended⟩ :: ls

def marker : List Char := "// FUNCTION".toList

inductive Sentinel
  | nameless
  | named (name : List Char)
deriving Repr, DecidableEq

def dropReturn (s : List Char) : List Char :=
  if s.getLast? = some '\r' then s.dropLast else s

def sentinel? (line : List Char) : Option Sentinel :=
  if marker.isPrefixOf line then
    match dropReturn (line.drop marker.length) with
    | [] => some .nameless
    | c :: name => if c = ' ' && !name.contains '\r' then some (.named name) else none
  else none

def splitName? (line : List Char) : Option (List Char) :=
  match sentinel? line with
  | some (.named name) => if name.all isBlank then none else some name
  | _ => none

def parts : List Line → List Char × List (List Char × List Char)
  | [] => ([], [])
  | l :: ls =>
    let (text, rest) := parts ls
    match splitName? l.chars with
    | some name => ([], (name, text) :: rest)
    | none => (l.text ++ text, rest)

def segments (text : String) : List String :=
  let (preamble, rest) := parts (lines text.toList)
  String.ofList preamble :: rest.flatMap fun part => [String.ofList part.1, String.ofList part.2]

def sentinelCount (text : String) : Nat :=
  (lines text.toList).countP fun l => (sentinel? l.chars).isSome

def parse (path : Path) (text : String) : Except ScrapeError (List Function) :=
  let rest := (parts (lines text.toList)).2
  if rest.length = sentinelCount text then
    .ok (rest.map fun part => ⟨String.ofList (Text.trimEndChars part.1), String.ofList part.2⟩)
  else .error (.badFormat path (2 * rest.length + 1))

/-- The functions of a decompiled file. An empty file is valid and has none. -/
def scrape (fs : FileSystem) (path : Path) : Logged (Except ScrapeError (List Function)) := do
  match fs.read path with
  | .error e => pure (.error (.unreadable path e.message))
  | .ok [] =>
    Logged.say .debug .decompiledFormat s!"Skipping empty file {path.display}"
    pure (.ok [])
  | .ok bytes =>
    match parse path (Utf8.decode bytes) with
    | .ok [] =>
      Logged.say .debug .decompiledFormat s!"No function sentinels in {path.display}"
      pure (.ok [])
    | result => pure result

end FunctionPairs.Decompiled
