import FunctionPairs.Failure
import FunctionPairs.Log

/-!
Steps that read and change a state, write log records and may fail. What a step has done
before it fails stays done.
-/
namespace FunctionPairs

def Action (σ α : Type) : Type := σ → Logged (Except Failure α × σ)

namespace Action

variable {σ α : Type}

instance : Monad (Action σ) where
  pure a := fun s => ⟨(.ok a, s), []⟩
  bind m f := fun s =>
    let x := m s
    match x.value with
    | (.error e, s') => ⟨(.error e, s'), x.records⟩
    | (.ok a, s') =>
      let y := f a s'
      ⟨y.value, x.records ++ y.records⟩

def update (f : σ → σ) : Action σ Unit := fun s => ⟨(.ok (), f s), []⟩

def fail (e : Failure) : Action σ α := fun s => ⟨(.error e, s), []⟩

def ofExcept : Except Failure α → Action σ α
  | .ok a => pure a
  | .error e => fail e

def ofLogged (l : Logged α) : Action σ α := fun s => ⟨(.ok l.value, s), l.records⟩

end Action
end FunctionPairs
