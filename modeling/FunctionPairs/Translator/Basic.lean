import FunctionPairs.Failure

/-!
Translators of function bodies. A translator has a state of its own, so that an answer may
depend on all bodies before it.
-/
namespace FunctionPairs

/-- The answer to one body, the state afterwards, and whether the run was asked to stop while
the answer was made. -/
structure Translation (σ : Type) where
  answer : Except Failure String
  state : σ
  stop : Bool

def Translator (σ : Type) : Type := String → σ → Translation σ

namespace Translator

def passthrough {σ : Type} : Translator σ := fun body state => ⟨.ok body, state, false⟩

end Translator
end FunctionPairs
