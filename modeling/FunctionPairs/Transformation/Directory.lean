import FunctionPairs.Places
import FunctionPairs.Transformation.File

/-!
Transforming a directory tree into a fresh one. Directories are mirrored, their entries taken
in byte order of their names; the directories inside one are entered after all its entries
have been seen. Links to files are treated as files; links to anything else are skipped.
-/
namespace FunctionPairs.Transformer

variable {σ : Type}

structure DirPair where
  source : Path
  dest : Path
deriving Repr, DecidableEq

/-- Mirrors one entry; a directory is created and given back to be entered later. -/
def transformEntry (t : Transformer σ) (d : DirPair) (name : Name) :
    TransformStep σ (Option DirPair) := do
  let path := d.source.child name
  let fs ← TransformStep.files
  let entry ← Action.ofExcept
    (SystemError.because s!"Failed to stat {path.display}" (fs.linkEntry path))
  if entry.isDirectory then
    let dest := d.dest.child name
    TransformStep.change s!"Failed to create {dest.display}" fun fs => fs.createDirectory dest
    TransformStep.countWith fun s => { s with directories := s.directories + 1 }
    pure (some ⟨path, dest⟩)
  else if fs.isFile path then
    TransformStep.poll
    transformFile t path name d.dest
    pure none
  else
    TransformStep.say .warn s!"Skipping {path.display}: not a regular file"
    pure none

def transformEntries (t : Transformer σ) (d : DirPair) : List Name → TransformStep σ (List DirPair)
  | [] => pure []
  | n :: ns => do
    let below ← transformEntry t d n
    let rest ← transformEntries t d ns
    pure (below.toList ++ rest)

def transformOne (t : Transformer σ) (d : DirPair) : TransformStep σ (List DirPair) := do
  let fs ← TransformStep.files
  let entries ← Action.ofExcept
    (SystemError.because s!"Failed to list {d.source.display}" (fs.list d.source))
  transformEntries t d (entries.filterMap Path.fileName)

def transformPending (t : Transformer σ) : Nat → List DirPair → TransformStep σ Unit
  | 0, _ => pure ()
  | _, [] => pure ()
  | fuel + 1, d :: pending => do
    let below ← transformOne t d
    transformPending t fuel (below ++ pending)

/-- More directories than can be entered: even where the fresh tree lies inside the one that is
read, a path has at most so many parts. -/
def visitBound (fs : FileSystem) : Nat := (fs.entries.length + 1) * (FileSystem.maxPathLength + 1)

def transformDirectory (t : Transformer σ) (input output : Path) (force : Bool) :
    TransformStep σ TransformStats := do
  let fs ← TransformStep.files
  Action.ofExcept (Places.requireDirectory fs input)
  Action.ofExcept (Places.requireOutside fs output input)
  TransformStep.changeInPart fun fs => Places.makeEmptyDirectory fs output force
  TransformStep.countWith fun _ => .zero
  transformPending t (visitBound fs) [⟨input, output⟩]
  let s ← TransformStep.stats
  TransformStep.say .info
    s!"Transformed {s.filesTransformed} files ({s.functionsTransformed} functions), copied {s.filesCopied}"
  pure s

end FunctionPairs.Transformer
