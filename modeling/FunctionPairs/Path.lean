import FunctionPairs.Text.Utf8
import FunctionPairs.Text.Blank

/-!
Paths as they are written: bytes with slashes. A path is compared, taken apart and tested for
containment by its components, where repeated slashes and inner dots do not count; everything
else keeps the spelling.
-/
namespace FunctionPairs

abbrev Name := Bytes

namespace Name

def here : Name := [0x2E]
def up : Name := [0x2E, 0x2E]

def le (a b : Name) : Bool := !(List.lex b a)

end Name

structure Path where
  bytes : Bytes
deriving Repr, DecidableEq, Inhabited

inductive Component
  | root
  | here
  | up
  | name (n : Name)
deriving Repr, DecidableEq

namespace Path

def slash : UInt8 := 0x2F

def ofString (s : String) : Path := ⟨Utf8.encode s⟩

def empty : Path := ⟨[]⟩

def display (p : Path) : String := Utf8.decode p.bytes

def isEmpty (p : Path) : Bool := p.bytes.isEmpty

def isAbsolute (p : Path) : Bool := p.bytes.head? == some slash

def endsInSlash (p : Path) : Bool := p.bytes.getLast? == some slash

def pieces : Bytes → List Bytes
  | [] => [[]]
  | b :: bs =>
    if b = slash then [] :: pieces bs
    else match pieces bs with
      | [] => [[b]]
      | p :: ps => (b :: p) :: ps

/-- The pieces that a lookup goes through one after the other. A final slash stands for `.`:
what comes before it has to be a directory. -/
def steps (p : Path) : List Name :=
  let names := (pieces p.bytes).filter (!·.isEmpty)
  if p.endsInSlash && !names.isEmpty then names ++ [Name.here] else names

def component (n : Name) : Component :=
  if n = Name.up then .up else .name n

def components (p : Path) : List Component :=
  let names := (pieces p.bytes).filter (!·.isEmpty)
  let inner := (names.filter (· ≠ Name.here)).map component
  if p.isAbsolute then .root :: inner
  else if names.head? = some Name.here then .here :: inner
  else inner

def same (p q : Path) : Bool := p.components == q.components

def startsWith (p base : Path) : Bool := base.components.isPrefixOf p.components

/-- The components after those of `base`, or all of them if `base` does not lead there. -/
def componentsFrom (p base : Path) : List Component :=
  let cs := p.components
  let bs := base.components
  if bs.isPrefixOf cs then cs.drop bs.length else cs

def fileName (p : Path) : Option Name :=
  match p.components.getLast? with
  | some (.name n) => some n
  | _ => none

def trimReversed : Bytes → Bytes
  | [] => []
  | [b] => [b]
  | b :: c :: rest =>
    if b = slash then trimReversed (c :: rest)
    else if b = 0x2E && c = slash then
      match rest with
      | [] => [slash]
      | _ => trimReversed rest
    else b :: c :: rest

/-- The spelling without its last component; the root and the empty path have none. -/
def parent (p : Path) : Option Path :=
  match p.components.getLast? with
  | none => none
  | some .root => none
  | some _ =>
    let back := (trimReversed p.bytes.reverse).dropWhile (· ≠ slash)
    some ⟨(trimReversed back).reverse⟩

def ancestorsFrom : Nat → Path → List Path
  | 0, _ => []
  | n + 1, p =>
    match p.parent with
    | none => []
    | some q => q :: ancestorsFrom n q

def ancestors (p : Path) : List Path := ancestorsFrom (p.components.length + 1) p

/-- An absolute right side replaces the left one. -/
def join (p q : Path) : Path :=
  if q.isAbsolute then q
  else if p.isEmpty || p.endsInSlash then ⟨p.bytes ++ q.bytes⟩
  else ⟨p.bytes ++ slash :: q.bytes⟩

def child (p : Path) (n : Name) : Path := p.join ⟨n⟩

end Path
end FunctionPairs
