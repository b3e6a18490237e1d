import FunctionPairs.FileSystem.Operations

/-!
Walking a directory tree: every entry is met before what it holds, and the entries of one
directory in byte order of their names. Links are met but not entered, except that the walk
may start at one.
-/
namespace FunctionPairs

inductive WalkItem
  | found (path : Path) (entry : Entry)
  | failed (path : Path) (cause : SystemError)
deriving Repr, DecidableEq

namespace WalkItem

def failureText (path : Path) (cause : SystemError) : String :=
  s!"IO error for operation on {path.display}: {cause.message}"

end WalkItem

namespace FileSystem

/-- What lies below a directory, down to a number of levels. Every directory met on the way can be
listed, so a walk fails at its root or not at all. -/
def walkBelow (fs : FileSystem) : Nat → Path → Location → List WalkItem
  | 0, _, _ => []
  | depth + 1, p, l =>
    (fs.namesIn l).flatMap fun n =>
      match fs.entryAt (l ++ [n]) with
      | none => []
      | some .directory =>
        .found (p.child n) .directory :: fs.walkBelow depth (p.child n) (l ++ [n])
      | some e => [.found (p.child n) e]

/-- No directory lies deeper than there are entries. -/
def depth (fs : FileSystem) : Nat := fs.entries.length

def walk (fs : FileSystem) (root : Path) : List WalkItem :=
  match fs.find false root with
  | .error e => [.failed root e]
  | .ok (l, .directory) => .found root .directory :: fs.walkBelow fs.depth root l
  | .ok (_, .link target) =>
    match fs.find true root with
    | .error e => [.failed root e]
    | .ok (l, .directory) => .found root (.link target) :: fs.walkBelow fs.depth root l
    | .ok _ => [.found root (.link target)]
  | .ok (_, e) => [.found root e]

def directoriesBelow (fs : FileSystem) (root : Path) (depth : Nat) : List Path :=
  match fs.find true root with
  | .ok (l, .directory) =>
    (fs.walkBelow (min depth fs.depth) root l).filterMap fun item =>
      match item with
      | .found p .directory => some p
      | _ => none
  | _ => []

end FileSystem
end FunctionPairs
