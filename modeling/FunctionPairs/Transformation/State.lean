import FunctionPairs.Action
import FunctionPairs.FileSystem.Operations
import FunctionPairs.Translator.Basic

/-!
What a transformation works on, and its smallest steps: reading and changing files, counting,
asking the translator and heeding the stop signal.
-/
namespace FunctionPairs

structure TransformStats where
  filesTransformed : Nat
  functionsTransformed : Nat
  filesCopied : Nat
  directories : Nat
deriving Repr, DecidableEq

def TransformStats.zero : TransformStats := ⟨0, 0, 0, 0⟩

structure TransformState (σ : Type) where
  files : FileSystem
  stats : TransformStats
  translator : σ
  interrupt : Interrupt

abbrev TransformStep (σ α : Type) : Type := Action (TransformState σ) α

namespace TransformStep

variable {σ : Type}

def say (level : Level) (message : String) : TransformStep σ Unit :=
  Action.ofLogged (Logged.say level .transformation message)

def files : TransformStep σ FileSystem := fun s => ⟨(.ok s.files, s), []⟩

def stats : TransformStep σ TransformStats := fun s => ⟨(.ok s.stats, s), []⟩

def countWith (f : TransformStats → TransformStats) : TransformStep σ Unit :=
  Action.update fun s => { s with stats := f s.stats }

def change (text : String) (f : FileSystem → Except SystemError FileSystem) :
    TransformStep σ Unit := fun s =>
  match f s.files with
  | .ok fs => ⟨(.ok (), { s with files := fs }), []⟩
  | .error e => ⟨(.error (.ofSystem text e), s), []⟩

def changeInPart (f : FileSystem → Except Failure Unit × FileSystem) : TransformStep σ Unit :=
  fun s =>
    let (result, fs) := f s.files
    ⟨(result, { s with files := fs }), []⟩

def poll : TransformStep σ Unit := fun s =>
  match s.interrupt.poll with
  | .ok i => ⟨(.ok (), { s with interrupt := i }), []⟩
  | .error e => ⟨(.error e, s), []⟩

/-- Asks the translator; `text` is put above its failure. -/
def translate (t : Translator σ) (text body : String) : TransformStep σ String := fun s =>
  let r := t body s.translator
  let s' := { s with
    translator := r.state
    interrupt := if r.stop then s.interrupt.trigger else s.interrupt }
  match r.answer with
  | .ok translated => ⟨(.ok translated, s'), []⟩
  | .error e => ⟨(.error (.context text e), s'), []⟩

end TransformStep
end FunctionPairs
