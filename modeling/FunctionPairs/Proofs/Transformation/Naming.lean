import FunctionPairs.Proofs.Language
import FunctionPairs.Proofs.Text.Encoding
import FunctionPairs.Proofs.Transformation.Tasks

/-!
The names of rewritten files. A suffix of the name is replaced by the first source suffix of the
language, and that puts the new name before the old one: no suffix of a file that is transformed
sorts before a suffix of the file it is turned into.
-/
namespace FunctionPairs

namespace Transformer

variable {σ : Type} {t : Transformer σ} {name : Name} {contents : Bytes} {k : Task}

theorem claim?_eq_some {models : List LanguageModel} {text : String} {m : LanguageModel}
    {role : FileRole} (h : claim? models text = some (m, role)) :
    m ∈ models ∧ m.lang.classify text = some role ∧ role ≠ .source := by
  obtain ⟨m', hm, hclaim⟩ := List.exists_of_findSome?_eq_some h
  split at hclaim <;> cases hclaim
  · next hrole => exact ⟨hm, hrole, nofun⟩
  · next hrole => exact ⟨hm, hrole, nofun⟩

theorem task?_naming (h : t.task? name contents = some k) :
    ∃ stem extension, k.model.lang.matchingExtension k.role k.text = some extension ∧
      name = Utf8.encode (stem ++ extension) ∧
      k.target = Utf8.encode (stem ++ k.model.lang.primaryExtension) := by
  obtain ⟨htext, hclaim, -⟩ := task?_eq_some.mp h
  obtain ⟨-, hrole, -⟩ := claim?_eq_some hclaim
  have hsome := List.find?_some hrole
  obtain ⟨extension, hextension⟩ := Option.isSome_iff_exists.mp hsome
  refine ⟨Lang.dropExtension k.text extension, extension, hextension, ?_, ?_⟩
  · rw [Lang.dropExtension_append (Lang.matchingExtension_eq_some hextension).2]
    exact (Utf8.decode?_some htext).2.symm
  · rw [Task.target, sourceName, hextension]
    rfl

theorem target_lt (h : t.task? name contents = some k) : k.target < name := by
  obtain ⟨-, hclaim, -⟩ := task?_eq_some.mp h
  obtain ⟨-, -, hrole⟩ := claim?_eq_some hclaim
  obtain ⟨stem, extension, hextension, rfl, htarget⟩ := task?_naming h
  have hsuffixes : ∀ lang : Lang, ∀ role ∈ [FileRole.bytecode, .decompiled],
      ∀ extension ∈ lang.extensions role,
        Utf8.encode lang.primaryExtension < Utf8.encode extension := by
    intro lang
    cases lang <;> decide
  rw [htarget, Utf8.encode_append, Utf8.encode_append]
  refine List.append_left_lt (hsuffixes k.model.lang k.role ?_ extension
    (Lang.matchingExtension_eq_some hextension).1)
  cases hk : k.role with
  | source => exact absurd hk hrole
  | bytecode => simp
  | decompiled => simp

end Transformer
end FunctionPairs
