import FunctionPairs.FileSystem.Walk

/-!
Finding the file that an include names. A quoted include is looked up next to the including
file and in each directory above it, nearest first, but never in the root; then, if a depth is
set, in the directories below those; and at last, as any include, in the system directories.
-/
namespace FunctionPairs

structure Include where
  target : String
  /-- Written in angle brackets. -/
  system : Bool
deriving Repr, DecidableEq

structure IncludeResolver where
  systemDirs : List Path
  childDepth : Nat
deriving Repr

namespace IncludeResolver

/-- The directories above a path, nearest first; only those that have one above them in turn. -/
def searchedParents (source : Path) : List Path :=
  source.ancestors.filter fun p => p.parent.isSome

def fileIn (fs : FileSystem) (dirs : List Path) (target : Path) : Option Path :=
  (dirs.map (·.join target)).find? fs.isFile

def findLocal (r : IncludeResolver) (fs : FileSystem) (source target : Path) : Option Path :=
  let parents := searchedParents source
  match fileIn fs parents target with
  | some found => some found
  | none =>
    if r.childDepth = 0 then none
    else fileIn fs (parents.flatMap fun p => fs.directoriesBelow p r.childDepth) target

def resolve (r : IncludeResolver) (fs : FileSystem) (source : Path) (i : Include) :
    Option Path :=
  let target := Path.ofString i.target
  if target.isAbsolute then if fs.isFile target then some target else none
  else
    let near := if i.system then none else r.findLocal fs source target
    match near with
    | some found => some found
    | none => fileIn fs r.systemDirs target

end IncludeResolver
end FunctionPairs
