import FunctionPairs.LanguageModel
import FunctionPairs.Transformation.State

/-!
Transforming one file. In a decompiled file, or a bytecode file that is text, the body of every
top-level function is replaced by its translation and all else is kept; the result gets the
source suffix of the language. Every other file is copied under its own name.
-/
namespace FunctionPairs

structure Transformer (σ : Type) where
  models : List LanguageModel
  translator : Translator σ
  /-- How many files are transformed before the rest are copied; 0 lifts the limit. -/
  maxCount : Nat

namespace Transformer

variable {σ : Type}

def warnIfPresent (source dest : Path) : TransformStep σ Unit := do
  let fs ← TransformStep.files
  if fs.contains dest then TransformStep.say .warn s!"{source.display} overwrites {dest.display}"

def copyFile (source dest : Path) : TransformStep σ Unit := do
  warnIfPresent source dest
  TransformStep.change s!"Failed to copy {source.display} to {dest.display}" fun fs =>
    fs.copy source dest
  TransformStep.countWith fun s => { s with filesCopied := s.filesCopied + 1 }

def rewriteUnit (t : Translator σ) (path : Path) (u : SourceUnit) : TransformStep σ (String × Nat) :=
  match u with
  | .other text => pure (text, 0)
  | .function f =>
    if f.hasBody then do
      let parts := BodySplit.ofText f.text
      let body ← TransformStep.translate t s!"Failed to translate {f.name} in {path.display}" parts.body
      pure (parts.head ++ body ++ parts.tail, 1)
    else pure (f.text, 0)

def rewriteUnits (t : Translator σ) (path : Path) : List SourceUnit → TransformStep σ (String × Nat)
  | [] => pure ("", 0)
  | u :: us => do
    let (text, n) ← rewriteUnit t path u
    let (rest, m) ← rewriteUnits t path us
    pure (text ++ rest, n + m)

def claim? (models : List LanguageModel) (name : String) : Option (LanguageModel × FileRole) :=
  models.findSome? fun m =>
    match m.lang.classify name with
    | some .decompiled => some (m, .decompiled)
    | some .bytecode => some (m, .bytecode)
    | _ => none

def sourceName (lang : Lang) (role : FileRole) (name : String) : String :=
  Lang.dropExtension name ((lang.matchingExtension role name).getD "") ++ lang.primaryExtension

def writeUnits (t : Translator σ) (path dest : Path) (units : List SourceUnit) :
    TransformStep σ Unit := do
  let (text, functions) ← rewriteUnits t path units
  warnIfPresent path dest
  TransformStep.change s!"Failed to write {dest.display}" fun fs => fs.write dest (Utf8.encode text)
  TransformStep.say .debug s!"{path.display} -> {dest.display} ({functions} functions)"
  TransformStep.countWith fun s =>
    { s with
      filesTransformed := s.filesTransformed + 1
      functionsTransformed := s.functionsTransformed + functions }

def transformText (t : Translator σ) (m : LanguageModel) (path copyDest dest : Path) :
    TransformStep σ Unit := do
  let fs ← TransformStep.files
  match ← Action.ofLogged (m.topLevelUnits fs path) with
  | .ok units => writeUnits t path dest units
  | .error e =>
    Action.ofLogged e.log
    copyFile path copyDest

def isCapped (maxCount : Nat) (s : TransformStats) : Bool :=
  0 < maxCount && maxCount ≤ s.filesTransformed

/-- Transforms a file that a language claims. Bytecode that is no text is copied. -/
def transformClaimed (t : Transformer σ) (m : LanguageModel) (role : FileRole) (name : String)
    (path copyDest toDir : Path) : TransformStep σ Unit := do
  let dest := toDir.join (.ofString (sourceName m.lang role name))
  match role with
  | .bytecode =>
    let fs ← TransformStep.files
    let bytes ← Action.ofExcept
      (SystemError.because s!"Failed to read {path.display}" (fs.read path))
    if (Utf8.decode? bytes).isNone then
      TransformStep.say .warn s!"{path.display} is binary, copying unchanged"
      copyFile path copyDest
    else transformText t.translator m path copyDest dest
  | _ => transformText t.translator m path copyDest dest

def transformFile (t : Transformer σ) (path : Path) (name : Name) (toDir : Path) :
    TransformStep σ Unit :=
  let copyDest := toDir.child name
  match Utf8.decode? name with
  | none => do
    TransformStep.say .debug s!"{path.display} has a non UTF-8 name, copying unchanged"
    copyFile path copyDest
  | some text =>
    match claim? t.models text with
    | none => copyFile path copyDest
    | some (m, role) => do
      if isCapped t.maxCount (← TransformStep.stats) then
        TransformStep.say .debug s!"Transform cap reached, copying {path.display}"
        copyFile path copyDest
      else transformClaimed t m role text path copyDest toDir

end Transformer
end FunctionPairs
