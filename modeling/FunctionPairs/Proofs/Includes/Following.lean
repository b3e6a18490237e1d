import FunctionPairs.Proofs.FileSystem.Finding
import FunctionPairs.Proofs.Includes.DepthFirst
import FunctionPairs.Proofs.Includes.Searching
import FunctionPairs.Proofs.Syntax.Units
import FunctionPairs.Syntax.Items

/-!
Following includes. The files that are entered are those of the search in depth from the file it
starts with, told apart by their canonical paths, and each contributes its own functions, or
none if it cannot be scraped. The search ends because an include leads to a file, and there are
finitely many of them.
-/
namespace FunctionPairs

namespace LanguageModel

variable (m : LanguageModel) (fs : FileSystem)

theorem value_resolveIncludes (p : Path) (is : List Include) :
    (m.resolveIncludes fs p is).value = is.filterMap (m.resolver.resolve fs p) := by
  induction is with
  | nil => rfl
  | cons i is ih =>
    cases h : m.resolver.resolve fs p i <;> simp [resolveIncludes, h, ih]

theorem value_scrapeFile (p : Path) :
    (m.scrapeFile fs p).value = (m.parseFile fs p).value.map fun file =>
      ⟨file.functions.map fun f => ⟨f.name, file.text f.span⟩,
        file.includes.filterMap (m.resolver.resolve fs p)⟩ := by
  rw [scrapeFile, Logged.value_bind]
  cases (m.parseFile fs p).value with
  | error e => rfl
  | ok file => simp [value_resolveIncludes, Except.map]

def functionsIn (bytes : Bytes) : List Function :=
  match m.analyzer.parseWith m.grammar m.lang.dialect bytes with
  | .ok file => file.functions.map fun f => ⟨f.name, file.text f.span⟩
  | .error _ => []

theorem scrapeFile_of_read {p : Path} {bytes : Bytes} (h : m.readSource fs p = .ok bytes)
    (hknown : m.analyzer.dialects.contains m.lang.dialect = true) :
    (m.scrapeFile fs p).value = .ok ⟨m.functionsIn bytes,
      ((m.grammar m.lang.dialect bytes).1.includes bytes).filterMap (m.resolver.resolve fs p)⟩ := by
  rw [value_scrapeFile, m.parseFile_of_read fs h, functionsIn, Syntax.Analyzer.parseWith, hknown]
  rfl

theorem scrapeFunctions_of_alone {p : Path} {functions : List Function}
    (h : (m.scrapeFile fs p).value = .ok ⟨functions, []⟩) :
    (m.scrapeFunctions fs p).value = .ok functions := by
  rw [scrapeFunctions, Logged.value_bind, h]
  simp [follow]

variable {m fs} {p q : Path} {k l : Location} {e f : Entry}

variable (m) {visited : List (List Component)} {pending rest entered : List Path}

def limited : LanguageModel := ⟨.c, ⟨[.c]⟩, Syntax.parse, ⟨[], 0⟩, 64, .standard⟩

end LanguageModel
end FunctionPairs
