import FunctionPairs.Text.Blank

/-!
A function as scraped text, the pieces of a file at its top level, and the cut of a function
at its outermost braces. The three parts of the cut always make up the text again.
-/
namespace FunctionPairs

structure Function where
  name : String
  text : String
deriving Repr, DecidableEq

/-- A definition has a brace somewhere; a bare declaration has none. -/
def Function.hasBody (f : Function) : Bool := f.text.toList.contains '{'

inductive SourceUnit
  | function (f : Function)
  | other (text : String)
deriving Repr, DecidableEq

def SourceUnit.text : SourceUnit → String
  | function f => f.text
  | other t => t

/-- A function's text up to its first opening brace, from there to its last closing brace, and
from that brace on. -/
structure BodySplit where
  head : String
  body : String
  tail : String
deriving Repr, DecidableEq

namespace BodySplit

def cutOpen : List Char → List Char × Option (List Char)
  | [] => ([], none)
  | c :: cs =>
    if c = '{' then ([c], some cs)
    else
      let (before, after) := cutOpen cs
      (c :: before, after)

/-- Before the last closing brace, and from it on; all is before if there is none. -/
def cutClose (cs : List Char) : List Char × List Char :=
  match cs.reverse.span (· ≠ '}') with
  | (_, []) => (cs, [])
  | (after, close :: before) => (before.reverse, close :: after.reverse)

def ofText (text : String) : BodySplit :=
  match cutOpen text.toList with
  | (head, none) => ⟨String.ofList head, "", ""⟩
  | (head, some rest) =>
    let (body, tail) := cutClose rest
    ⟨String.ofList head, String.ofList body, String.ofList tail⟩

def bracedBody (s : BodySplit) : String := "\x7b" ++ s.body ++ "\x7d"

end BodySplit
end FunctionPairs
