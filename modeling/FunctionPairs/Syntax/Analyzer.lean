import FunctionPairs.Failure
import FunctionPairs.Syntax.Tree

/-!
A parser for some of the dialects, and the files it has parsed. The grammar that reads them is
a parameter.
-/
namespace FunctionPairs.Syntax

structure ParsedFile where
  dialect : Dialect
  source : Bytes
  root : Tree
  sound : Bool

namespace ParsedFile

def text (f : ParsedFile) (s : Span) : String := textAt f.source s

def functions (f : ParsedFile) : List FunctionSpan := f.root.functions f.dialect f.source

def includes (f : ParsedFile) : List Include := f.root.includes f.source

def topLevelUnits (f : ParsedFile) : List UnitSpan := f.root.topLevelUnits f.dialect f.source

end ParsedFile

/-- How the files of a dialect are read: the tree, and whether nothing in it was malformed. -/
abbrev Grammar := Dialect → Bytes → Tree × Bool

structure Analyzer where
  dialects : List Dialect
deriving Repr, DecidableEq

namespace Analyzer

def parseWith (a : Analyzer) (grammar : Grammar) (dialect : Dialect) (source : Bytes) :
    Except Failure ParsedFile :=
  if a.dialects.contains dialect then
    let (root, sound) := grammar dialect source
    .ok ⟨dialect, source, root, sound⟩
  else .error (.message s!"No parser available for {dialect.label}")

end Analyzer
end FunctionPairs.Syntax
