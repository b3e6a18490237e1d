import FunctionPairs.Path

/-!
The key that a source function and its decompiled twin have in common: the directories from
the artifact root and the file name without extensions, then `::` and the function's name.
-/
namespace FunctionPairs

structure IdentityPolicy where
  /-- Cut names at the first `<`. -/
  truncateGenerics : Bool
  /-- Drop all extensions of the file name, not just the last one. -/
  stripAllExtensions : Bool
deriving Repr, DecidableEq

namespace IdentityPolicy

def standard : IdentityPolicy := ⟨true, true⟩

def beforeLastDot (s : List Char) : List Char :=
  match s.reverse.dropWhile (· ≠ '.') with
  | [] => s
  | _ :: before => before.reverse

/-- The file name without extensions; a dot in front is part of the name. -/
def stemChars (p : IdentityPolicy) (name : List Char) : List Char :=
  let cut := fun s => if p.stripAllExtensions then s.takeWhile (· ≠ '.') else beforeLastDot s
  match name with
  | '.' :: rest => '.' :: cut rest
  | _ => cut name

def nameChars (p : IdentityPolicy) (name : List Char) : List Char :=
  let trimmed := Text.trimChars name
  if p.truncateGenerics then trimmed.takeWhile (· ≠ '<') else trimmed

def placeOf (cs : List Component) : List (List Char) × List Char :=
  let names := fun (l : List Component) => l.filterMap fun c =>
    match c with
    | .name n => some (Utf8.decodeChars n)
    | _ => none
  match cs.getLast? with
  | some (.name n) => (names cs.dropLast, Utf8.decodeChars n)
  | some .root => ([], [])
  | _ => (names cs.dropLast, [])

def identityChars (p : IdentityPolicy) (root path : Path) (name : List Char) : List Char :=
  let (dirs, file) := placeOf (path.componentsFrom root)
  ['/'].intercalate (dirs ++ [p.stemChars file]) ++ [':', ':'] ++ p.nameChars name

def identity (p : IdentityPolicy) (root path : Path) (name : String) : String :=
  String.ofList (p.identityChars root path name.toList)

end IdentityPolicy
end FunctionPairs
