import FunctionPairs.Action
import FunctionPairs.Syntax.Analyzer

/-!
What a command works on: the files and the lines it has printed.
-/
namespace FunctionPairs.CommandLine

/-- A printed line. The time that a run has taken is known only where the line is printed; it
goes behind its label. -/
inductive Line
  | text (line : String)
  | elapsed (label : String)
deriving Repr, DecidableEq

structure Session where
  files : FileSystem
  lines : List Line

structure Environment where
  grammar : Syntax.Grammar
  home : Path
  lookup : String → Option String
  interrupt : Interrupt

abbrev SessionStep (α : Type) : Type := Action Session α

namespace SessionStep

def say (level : Level) (message : String) : SessionStep Unit :=
  Action.ofLogged (Logged.say level .extractCommand message)

def files : SessionStep FileSystem := fun s => ⟨(.ok s.files, s), []⟩

def printLines (ls : List Line) : SessionStep Unit :=
  Action.update fun s => { s with lines := s.lines ++ ls }

def print (line : String) : SessionStep Unit := printLines [.text line]

def changeInPart (f : FileSystem → Except Failure Unit × FileSystem) : SessionStep Unit :=
  fun s =>
    let (result, fs) := f s.files
    ⟨(result, { s with files := fs }), []⟩

def changeWith {α : Type} (f : FileSystem → α × Except Failure FileSystem) : SessionStep α :=
  fun s =>
    match f s.files with
    | (a, .ok fs) => ⟨(.ok a, { s with files := fs }), []⟩
    | (_, .error e) => ⟨(.error e, s), []⟩

end SessionStep
end FunctionPairs.CommandLine
