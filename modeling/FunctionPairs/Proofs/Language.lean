import FunctionPairs.Language
import Mathlib.Data.List.Basic
import Mathlib.Tactic.SplitIfs

/-!
Files told by the suffixes of their names. No two suffixes of one role end alike, so at most one of
them fits a name; and where a suffix of one language can end a name that fits a suffix of another,
both languages have it in the same role. A file that both languages know is therefore the same to
both.
-/
namespace FunctionPairs

theorem longest_mem {ss : List String} {s : String} (h : longest ss = some s) : s ∈ ss := by
  induction ss generalizing s with
  | nil => cases h
  | cons s' ss ih =>
    rw [longest] at h
    cases hrest : longest ss with
    | none =>
      rw [hrest] at h
      cases h
      exact List.mem_cons_self
    | some s'' =>
      rw [hrest] at h
      dsimp only at h
      split_ifs at h <;> cases h
      · exact List.mem_cons_self
      · exact List.mem_cons_of_mem _ (ih hrest)

theorem longest_eq_none {ss : List String} : longest ss = none ↔ ss = [] := by
  cases ss with
  | nil => simp [longest]
  | cons s ss =>
    rw [longest]
    cases longest ss with
    | none => simp
    | some t =>
      dsimp only
      split_ifs <;> simp

namespace Lang

variable {lang lang' : Lang} {role role' : FileRole} {name extension extension' : String}

theorem hasExtension_iff : hasExtension name extension = true ↔
    extension.toList <:+ name.toList ∧ extension.length < name.length := by
  rw [hasExtension, Bool.and_eq_true, List.isSuffixOf_iff_suffix, decide_eq_true_eq]

theorem dropExtension_append (h : hasExtension name extension = true) :
    dropExtension name extension ++ extension = name := by
  obtain ⟨⟨stem, hstem⟩, -⟩ := hasExtension_iff.mp h
  have hlength : name.length - extension.length = stem.length := by
    rw [← String.length_toList, ← String.length_toList, ← hstem, List.length_append]
    omega
  rw [dropExtension, hlength, ← hstem, List.take_left]
  apply String.toList_injective
  simpa using hstem

theorem dropExtension_ne_empty (h : hasExtension name extension = true) :
    dropExtension name extension ≠ "" := by
  intro hempty
  have hname := dropExtension_append h
  rw [hempty, String.empty_append] at hname
  have hshorter := (hasExtension_iff.mp h).2
  rw [hname] at hshorter
  exact Nat.lt_irrefl _ hshorter

theorem matchingExtension_eq_some (h : lang.matchingExtension role name = some extension) :
    extension ∈ lang.extensions role ∧ hasExtension name extension = true :=
  List.mem_filter.mp (longest_mem h)

theorem isSome_matchingExtension_iff : (lang.matchingExtension role name).isSome = true ↔
    ∃ extension ∈ lang.extensions role, hasExtension name extension = true := by
  rw [Option.isSome_iff_ne_none, matchingExtension, ne_eq, longest_eq_none, List.filter_eq_nil_iff]
  simp

theorem suffix_or_suffix (h : hasExtension name extension = true)
    (h' : hasExtension name extension' = true) :
    extension.toList <:+ extension'.toList ∨ extension'.toList <:+ extension.toList :=
  List.suffix_or_suffix_of_suffix (hasExtension_iff.mp h).1 (hasExtension_iff.mp h').1

theorem extension_unique (hmem : extension ∈ lang.extensions role)
    (hmem' : extension' ∈ lang.extensions role) (h : hasExtension name extension = true)
    (h' : hasExtension name extension' = true) : extension = extension' := by
  have hends : ∀ lang : Lang, ∀ role, ∀ e ∈ lang.extensions role, ∀ e' ∈ lang.extensions role,
      e.toList <:+ e'.toList → e = e' := by
    intro lang role
    cases lang <;> cases role <;> decide
  rcases suffix_or_suffix h h' with hsub | hsub
  · exact hends lang role _ hmem _ hmem' hsub
  · exact (hends lang role _ hmem' _ hmem hsub).symm

def triedBefore : FileRole → List FileRole
  | .decompiled => []
  | .source => [.decompiled]
  | .bytecode => [.decompiled, .source]

theorem classify_eq_some_iff : lang.classify name = some role ↔
    (lang.matchingExtension role name).isSome = true ∧
      ∀ r ∈ triedBefore role, (lang.matchingExtension r name).isSome = false := by
  unfold classify
  cases role <;> simp only [List.find?, triedBefore] <;> grind

theorem classify_cpp (h : c.classify name = some role) : cpp.classify name = some role := by
  have hmore : ∀ role, c.extensions role ⊆ cpp.extensions role := by
    intro role
    cases role <;> decide
  -- a suffix of C++ that fits beside one of C is tried before it in C, too
  have hsooner : ∀ role, ∀ r ∈ triedBefore role, ∀ e ∈ c.extensions role, ∀ e' ∈ cpp.extensions r,
      e.toList <:+ e'.toList ∨ e'.toList <:+ e.toList → e' ∈ c.extensions r := by
    intro role
    cases role <;> decide
  obtain ⟨hfits, hnone⟩ := classify_eq_some_iff.mp h
  obtain ⟨e, he, hname⟩ := isSome_matchingExtension_iff.mp hfits
  refine classify_eq_some_iff.mpr ⟨isSome_matchingExtension_iff.mpr ⟨e, hmore role he, hname⟩, ?_⟩
  intro r hr
  rw [Bool.eq_false_iff, ne_eq, isSome_matchingExtension_iff]
  rintro ⟨e', he', hname'⟩
  have hmem := hsooner role r hr e he e' he' (suffix_or_suffix hname hname')
  have hsome := isSome_matchingExtension_iff.mpr ⟨e', hmem, hname'⟩
  rw [hnone r hr] at hsome
  cases hsome

theorem classify_agree (h : lang.classify name = some role) (h' : lang'.classify name = some role') :
    role = role' := by
  have hcpp : ∀ {lang : Lang} {role}, lang.classify name = some role →
      cpp.classify name = some role := by
    intro lang role h
    cases lang with
    | c => exact classify_cpp h
    | cpp => exact h
  exact Option.some.inj ((hcpp h).symm.trans (hcpp h'))

end Lang
end FunctionPairs
