import FunctionPairs.Decimal
import FunctionPairs.Failure
import FunctionPairs.Identity
import FunctionPairs.Places

/-!
The settings of a run, the variables that override them, and the include directories they name.
-/
namespace FunctionPairs

structure Config where
  /-- Larger source files are skipped; 0 lifts the limit. -/
  maxSourceBytes : Nat
  libraryDirs : List String
  /-- How far below each directory local includes are searched. -/
  localIncludeDepth : Nat
  identity : IdentityPolicy
deriving Repr, DecidableEq

namespace Config

def standard : Config := ⟨10 * 1024 * 1024, [], 0, .standard⟩

abbrev Variables := String → Option String

def countOf (name raw : String) : Except Failure Nat :=
  match Decimal.readCount (Text.trim raw) with
  | .ok n => .ok n
  | .error e => .error (.context s!"{name} is not a number: {raw}" (.message e.message))

def dirsOf (raw : String) : List String :=
  ((Text.split ',' raw).map Text.trim).filter (!·.isEmpty)

def overridden (vars : Variables) (name : String) (setting : Nat) : Except Failure Nat :=
  match vars name with
  | none => .ok setting
  | some raw => countOf name raw

/-- Applies the three variables. Directories from the variable come before the others. -/
def override (c : Config) (vars : Variables) : Except Failure Config := do
  let dirs := ((vars "LIBRARY_DIRS").map dirsOf).getD []
  let depth ← overridden vars "LOCAL_INCLUDE_CHILD_DEPTH" c.localIncludeDepth
  let bytes ← overridden vars "MAX_SOURCE_BYTES" c.maxSourceBytes
  return { c with
    libraryDirs := dirs ++ c.libraryDirs, localIncludeDepth := depth, maxSourceBytes := bytes }

/-- Puts the home directory in place of a leading tilde that stands alone or before a slash. -/
def expandTilde (home : Path) (dir : String) : Path :=
  match dir.toList with
  | ['~'] => home
  | '~' :: '/' :: rest => ⟨home.bytes ++ Utf8.encode (String.ofList ('/' :: rest))⟩
  | _ => .ofString dir

/-- Drops every path that an earlier one spells in other words. -/
def dropSame (seen : List Path) : List Path → List Path
  | [] => seen
  | p :: ps => dropSame (if seen.any p.same then seen else seen ++ [p]) ps

def includeDirs (c : Config) (fs : FileSystem) (home : Path) : List Path :=
  dropSame [] ((c.libraryDirs.map (expandTilde home)).filter fs.isDirectory ++
    Places.defaultIncludeDirs fs)

end Config
end FunctionPairs
