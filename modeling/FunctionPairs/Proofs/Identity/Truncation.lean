import FunctionPairs.Identity
import FunctionPairs.Proofs.Text.Trimming
import Mathlib.Data.List.Basic

/-!
What truncation leaves of a name. A name is trimmed first and cut at its first marker then, so that
blanks around the name do not count and nothing behind the marker does, but blanks directly before
the marker stay. The part before the marker has the key of the whole name unless such blanks stand
at its end; if they do, they count in the whole name and not in the part.
-/
namespace FunctionPairs.IdentityPolicy

open Text (trimChars trimEndChars trimEndChars_eq_self_iff)

variable {p : IdentityPolicy}

theorem identity_eq_iff_nameChars (root path : Path) (name name' : String) :
    p.identity root path name = p.identity root path name' ↔
      p.nameChars name.toList = p.nameChars name'.toList := by
  rw [identity, identity, String.ofList_inj]
  exact List.append_right_inj _

theorem takeWhile_marked {before : List Char} (hbefore : '<' ∉ before) (rest : List Char) :
    (before ++ '<' :: rest).takeWhile (· ≠ '<') = before := by
  rw [List.takeWhile_append_of_pos]
  · simp
  · intro c hc
    exact decide_eq_true fun h => hbefore (h ▸ hc)

theorem takeWhile_unmarked {name : List Char} (hname : '<' ∉ name) :
    name.takeWhile (· ≠ '<') = name := by
  rw [List.takeWhile_eq_self_iff]
  intro c hc
  exact decide_eq_true fun h => hname (h ▸ hc)

theorem trimEndChars_marked (before rest : List Char) :
    ∃ rest', trimEndChars (before ++ '<' :: rest) = before ++ '<' :: rest' := by
  have hmarker : isBlank '<' ≠ true := by decide
  -- blanks go from the end of the rest one by one until there is none or the rest is used up
  induction rest using List.reverseRecOn with
  | nil => exact ⟨[], (Text.trimEndChars_concat before '<').trans (if_neg hmarker)⟩
  | append_singleton rest c ih =>
    have hassoc : before ++ '<' :: (rest ++ [c]) = before ++ '<' :: rest ++ [c] := by simp
    rw [hassoc, Text.trimEndChars_concat]
    split_ifs with hc
    · exact ih
    · exact ⟨rest ++ [c], hassoc.symm⟩

theorem dropWhile_marked (before rest : List Char) :
    (before ++ '<' :: rest).dropWhile isBlank = before.dropWhile isBlank ++ '<' :: rest := by
  have hmarker : ¬ isBlank '<' = true := by decide
  rw [List.dropWhile_append]
  split_ifs with hempty
  · rw [List.isEmpty_iff.mp hempty, List.dropWhile_cons_of_neg hmarker]
    rfl
  · rfl

theorem nameChars_marked (hp : p.truncateGenerics = true) {before : List Char}
    (hbefore : '<' ∉ before) (rest : List Char) :
    p.nameChars (before ++ '<' :: rest) = before.dropWhile isBlank := by
  have hmem : '<' ∉ before.dropWhile isBlank := fun h =>
    hbefore ((List.dropWhile_sublist _).subset h)
  obtain ⟨rest', hrest'⟩ := trimEndChars_marked (before.dropWhile isBlank) rest
  rw [nameChars, if_pos hp, trimChars, dropWhile_marked, hrest', takeWhile_marked hmem]

theorem nameChars_unmarked (hp : p.truncateGenerics = true) {name : List Char}
    (hname : '<' ∉ name) : p.nameChars name = trimChars name := by
  have hmem : '<' ∉ trimChars name := fun h => hname (Text.mem_of_mem_trimChars h)
  rw [nameChars, if_pos hp, takeWhile_unmarked hmem]

/-- With truncation a name counts up to its first marker. What follows the marker does not count, and
neither do blanks around a name. What stands before the marker has the key of the whole name exactly
if no blank ends it, blanks in front left aside, and it is under this condition too that the name as
it is in the key is normalized already; a part that is trimmed meets it. -/
theorem identity_truncated (hp : p.truncateGenerics = true) (root path : Path) {before : String}
    (hbefore : '<' ∉ before.toList) (rest : String) :
    let key := p.identity root path
    let normalized := fun name : String => String.ofList (p.nameChars name.toList)
    let clear := ∀ c ∈ (before.toList.dropWhile isBlank).getLast?, isBlank c = false
    (∀ rest', key (before ++ "<" ++ rest') = key (before ++ "<" ++ rest)) ∧
      (key (before ++ "<" ++ rest) = key before ↔ clear) ∧
      (key (normalized (before ++ "<" ++ rest)) = key (before ++ "<" ++ rest) ↔ clear) ∧
      key (Text.trimEnd before ++ "<" ++ rest) = key before ∧
      key (normalized before) = key before ∧
      ∀ l r : String, Text.isAllBlank l = true → Text.isAllBlank r = true →
        ∀ name, key (l ++ name ++ r) = key name := by
  intro key normalized clear
  have hmarked : ∀ {name : String}, '<' ∉ name.toList → ∀ rest : String,
      p.nameChars (name ++ "<" ++ rest).toList = name.toList.dropWhile isBlank := by
    intro name hname rest
    have hchars : (name ++ "<" ++ rest).toList = name.toList ++ '<' :: rest.toList := by simp
    rw [hchars, nameChars_marked hp hname]
  have hpart : p.nameChars before.toList = trimChars before.toList := nameChars_unmarked hp hbefore
  have hend : trimChars before.toList = before.toList.dropWhile isBlank ↔ clear :=
    trimEndChars_eq_self_iff
  simp only [key, normalized, identity_eq_iff_nameChars, String.toList_ofList, hmarked hbefore, hpart]
  refine ⟨fun _ => trivial, eq_comm.trans hend, ?_, ?_, ?_, ?_⟩
  · have hdropped : '<' ∉ before.toList.dropWhile isBlank := fun h =>
      hbefore ((List.dropWhile_sublist _).subset h)
    rw [nameChars_unmarked hp hdropped, Text.trimChars_dropWhile]
    exact hend
  · have htrimmed : '<' ∉ (Text.trimEnd before).toList := by
      rw [Text.trimEnd, String.toList_ofList]
      exact fun h => hbefore (Text.mem_of_mem_trimEndChars h)
    rw [hmarked htrimmed, Text.trimEnd, String.toList_ofList, ← Text.trimEndChars_dropWhile]
    rfl
  · have htrimmed : '<' ∉ trimChars before.toList := fun h =>
      hbefore (Text.mem_of_mem_trimChars h)
    rw [nameChars_unmarked hp htrimmed, Text.trimChars_trimChars]
  · intro l r hl hr name
    have hchars : (l ++ name ++ r).toList = l.toList ++ name.toList ++ r.toList := by simp
    rw [hchars, nameChars, Text.trimChars_surrounded hl hr, nameChars]

theorem identity_truncated_nested :
    let key := standard.identity (.ofString "r") (.ofString "r/f.cpp")
    standard.truncateGenerics = true ∧ '<' ∉ "\tBox".toList ∧
      key "\tBox<Vec<int> >::get" = key "\tBox<char>" ∧ key "\tBox<Vec<int> >::get" = key "\tBox" := by
  intro key
  have hplain : '<' ∉ "\tBox".toList := by decide
  have hnested : "\tBox" ++ "<" ++ "Vec<int> >::get" = "\tBox<Vec<int> >::get" := by decide
  have hother : "\tBox" ++ "<" ++ "char>" = "\tBox<char>" := by decide
  obtain ⟨hrest, hpart, -⟩ := identity_truncated (p := standard) rfl (.ofString "r")
    (.ofString "r/f.cpp") hplain "Vec<int> >::get"
  rw [hnested] at hrest hpart
  have hlast : ("\tBox".toList.dropWhile isBlank).getLast? = some 'x' := by decide +kernel
  refine ⟨rfl, hplain, ?_, hpart.mpr ?_⟩
  · rw [← hother]
    exact (hrest "char>").symm
  · intro c hc
    rw [hlast] at hc
    cases hc
    decide

/-- Written with a blank before the marker a name has another key than without, and than the part
before the marker; when it is normalized it is not normal yet. -/
theorem identity_spaced :
    let key := standard.identity (.ofString "r") (.ofString "r/f.cpp")
    '<' ∉ "Box ".toList ∧ key "Box <int>::get" = "f::Box " ∧ key "Box<int>::get" = "f::Box" ∧
      key "Box " = "f::Box" ∧ key "Box <int>::get" ≠ key "Box " ∧
      standard.nameChars "Box <int>::get".toList = "Box ".toList ∧
      standard.nameChars "Box ".toList = "Box".toList := by
  have hspaced : standard.identity (.ofString "r") (.ofString "r/f.cpp") "Box <int>::get" =
      "f::Box " := by decide +kernel
  have hunspaced : standard.identity (.ofString "r") (.ofString "r/f.cpp") "Box<int>::get" =
      "f::Box" := by decide +kernel
  have hpart : standard.identity (.ofString "r") (.ofString "r/f.cpp") "Box " = "f::Box" := by
    decide +kernel
  refine ⟨by decide, hspaced, hunspaced, hpart, ?_, by decide +kernel, by decide +kernel⟩
  rw [hspaced, hpart]
  decide

end FunctionPairs.IdentityPolicy
