import FunctionPairs.Text.Blank
import Mathlib.Data.List.DropRight
import Mathlib.Data.List.TakeWhile

/-!
Trimming at the two ends. It may be done in either order, so what counts of a text is what lies
between its first and its last character that is not blank, whatever blanks stand around it.
-/
namespace FunctionPairs.Text

theorem trimEndChars_eq_self {s : List Char} (h : ∀ c ∈ s.getLast?, isBlank c = false) :
    trimEndChars s = s := by
  rw [trimEndChars, dropEndWhile]
  cases hs : s.reverse with
  | nil => simpa using hs.symm
  | cons c cs =>
    have hlast : s.getLast? = some c := by rw [← List.head?_reverse, hs, List.head?_cons]
    rw [List.dropWhile_cons_of_neg (by simp [h c hlast]), ← hs, List.reverse_reverse]

theorem noBlankEnd_trimEndChars (s : List Char) :
    ∀ c ∈ (trimEndChars s).getLast?, isBlank c = false := by
  intro c hc
  rw [trimEndChars, dropEndWhile, List.getLast?_reverse] at hc
  have hhead := List.head?_dropWhile_not isBlank s.reverse
  rw [hc] at hhead
  simpa using hhead

theorem trimEndChars_eq_self_iff {s : List Char} :
    trimEndChars s = s ↔ ∀ c ∈ s.getLast?, isBlank c = false :=
  ⟨fun h => h ▸ noBlankEnd_trimEndChars s, trimEndChars_eq_self⟩

theorem mem_of_mem_trimEndChars {s : List Char} {c : Char} (h : c ∈ trimEndChars s) : c ∈ s :=
  (List.rdropWhile_prefix isBlank s).subset h

theorem mem_of_mem_trimChars {s : List Char} {c : Char} (h : c ∈ trimChars s) : c ∈ s :=
  (List.dropWhile_sublist _).subset (mem_of_mem_trimEndChars h)

theorem trimChars_eq_nil {s : List Char} : trimChars s = [] ↔ s.all isBlank = true := by
  rw [trimChars, trimEndChars, dropEndWhile, List.reverse_eq_nil_iff,
    List.dropWhile_eq_nil_iff, List.all_eq_true]
  constructor
  · intro h
    have hhead := List.head?_dropWhile_not isBlank s
    cases hs : s.dropWhile isBlank with
    | nil => exact List.dropWhile_eq_nil_iff.mp hs
    | cons c cs =>
      rw [hs] at hhead h
      have hblank := h c (by simp)
      simp [hblank] at hhead
  · exact fun h c hc => h c ((List.dropWhile_sublist _).subset (List.mem_reverse.mp hc))

theorem trimEndChars_concat (s : List Char) (c : Char) :
    trimEndChars (s ++ [c]) = if isBlank c then trimEndChars s else s ++ [c] :=
  List.rdropWhile_concat isBlank s c

theorem trimEndChars_append_blank (s : List Char) {r : List Char} (hr : r.all isBlank = true) :
    trimEndChars (s ++ r) = trimEndChars s := by
  rw [trimEndChars, dropEndWhile, List.reverse_append, List.dropWhile_append_of_pos]
  · rfl
  · intro c hc
    exact List.all_eq_true.mp hr c (List.mem_reverse.mp hc)

theorem trimEndChars_dropWhile (s : List Char) :
    trimEndChars (s.dropWhile isBlank) = (trimEndChars s).dropWhile isBlank := by
  induction s using List.reverseRecOn with
  | nil => rfl
  | append_singleton s c ih =>
    rw [trimEndChars_concat, List.dropWhile_append]
    by_cases hc : isBlank c = true
    · rw [if_pos hc, ← ih]
      split_ifs with hempty
      · rw [List.isEmpty_iff.mp hempty, List.dropWhile_cons_of_pos hc]
        rfl
      · rw [trimEndChars_concat, if_pos hc]
    · rw [if_neg hc, List.dropWhile_append]
      split_ifs with hempty
      · rw [List.dropWhile_cons_of_neg hc]
        exact (trimEndChars_concat [] c).trans (if_neg hc)
      · rw [trimEndChars_concat, if_neg hc]

theorem trimChars_dropWhile (s : List Char) : trimChars (s.dropWhile isBlank) = trimChars s := by
  rw [trimChars, List.dropWhile_idempotent, trimChars]

theorem trimChars_trimEndChars (s : List Char) : trimChars (trimEndChars s) = trimChars s := by
  rw [trimChars, ← trimEndChars_dropWhile,
    trimEndChars_eq_self (noBlankEnd_trimEndChars (s.dropWhile isBlank)), trimChars]

theorem trimChars_trimChars (s : List Char) : trimChars (trimChars s) = trimChars s :=
  (trimChars_trimEndChars _).trans (trimChars_dropWhile s)

theorem trimChars_surrounded {l r : List Char} (hl : l.all isBlank = true)
    (hr : r.all isBlank = true) (s : List Char) : trimChars (l ++ s ++ r) = trimChars s := by
  rw [trimChars, trimEndChars_dropWhile, trimEndChars_append_blank _ hr, ← trimEndChars_dropWhile,
    List.dropWhile_append_of_pos (List.all_eq_true.mp hl)]
  rfl

end FunctionPairs.Text
