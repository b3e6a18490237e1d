/-!
The counters of an extraction.
-/
namespace FunctionPairs

structure ExtractionStats where
  artifacts : Nat
  sourceFiles : Nat
  decompiledFiles : Nat
  ignoredFiles : Nat
  failedFiles : Nat
  examples : Nat
  missingSources : Nat
  missingDecompileds : Nat
deriving Repr, DecidableEq

namespace ExtractionStats

def zero : ExtractionStats := ⟨0, 0, 0, 0, 0, 0, 0, 0⟩

def add (a b : ExtractionStats) : ExtractionStats :=
  ⟨a.artifacts + b.artifacts, a.sourceFiles + b.sourceFiles,
    a.decompiledFiles + b.decompiledFiles, a.ignoredFiles + b.ignoredFiles,
    a.failedFiles + b.failedFiles, a.examples + b.examples,
    a.missingSources + b.missingSources, a.missingDecompileds + b.missingDecompileds⟩

theorem add_assoc (a b c : ExtractionStats) : (a.add b).add c = a.add (b.add c) := by
  simp [add, Nat.add_assoc]

theorem zero_add (a : ExtractionStats) : zero.add a = a := by simp [add, zero]

end ExtractionStats
end FunctionPairs
