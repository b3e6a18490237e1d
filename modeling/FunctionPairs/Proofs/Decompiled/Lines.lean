import FunctionPairs.Decompiled
import Mathlib.Data.List.Basic
import Mathlib.Tactic.SplitIfs

/-!
The lines of a decompiled file. A text whose last line is ended has the lines of its parts one
after the other, so lines are found where they were written; and the sentinel lines are those
of the marker, with or without a name, that end in at most one carriage return.
-/
namespace FunctionPairs.Decompiled

/-- Nothing is left open at the end: the text is empty or a line feed ends it. -/
def Complete (s : List Char) : Prop := s = [] ∨ s.getLast? = some '\n'

instance (s : List Char) : Decidable (Complete s) := by unfold Complete; infer_instance

/-- The marker alone or with a blank and a name behind it, and then at most one return. -/
def IsSentinel (line : List Char) : Prop :=
  ∃ named returns, (named = [] ∨ ∃ name, '\r' ∉ name ∧ named = ' ' :: name) ∧
    (returns = [] ∨ returns = ['\r']) ∧ line = marker ++ named ++ returns

theorem lines_ne_nil {s : List Char} (h : s ≠ []) : lines s ≠ [] := by
  cases s with
  | nil => exact absurd rfl h
  | cons c cs =>
    unfold lines
    split_ifs
    · simp
    · cases lines cs <;> simp

theorem lines_newline (cs : List Char) : lines ('\n' :: cs) = ⟨[], true⟩ :: lines cs := by
  simp [lines]

theorem lines_cons {c : Char} {cs : List Char} {l : Line} {ls : List Line} (hc : c ≠ '\n')
    (h : lines cs = l :: ls) : lines (c :: cs) = ⟨c :: l.chars, l.ended⟩ :: ls := by
  simp [lines, hc, h]

theorem lines_append {s : List Char} (h : Complete s) (t : List Char) :
    lines (s ++ t) = lines s ++ lines t := by
  induction s with
  | nil => rfl
  | cons c cs ih =>
    by_cases hc : c = '\n'
    · have hcs : Complete cs := by
        cases cs with
        | nil => exact Or.inl rfl
        | cons b bs => exact Or.inr (by simpa [Complete] using h)
      rw [hc, List.cons_append, lines_newline, lines_newline, ih hcs, List.cons_append]
    · have hlast : cs.getLast? = some '\n' := by
        cases cs with
        | nil => simp [Complete, hc] at h
        | cons b bs => simpa [Complete] using h
      have hne : cs ≠ [] := fun hnil => by simp [hnil] at hlast
      obtain ⟨l, ls, hl⟩ := List.exists_cons_of_ne_nil (lines_ne_nil hne)
      have happend : lines (cs ++ t) = l :: (ls ++ lines t) := by
        rw [ih (Or.inr hlast), hl, List.cons_append]
      rw [List.cons_append, lines_cons hc happend, lines_cons hc hl, List.cons_append]

theorem lines_line {s : List Char} (h : '\n' ∉ s) (t : List Char) :
    lines (s ++ '\n' :: t) = ⟨s, true⟩ :: lines t := by
  induction s with
  | nil => exact lines_newline t
  | cons c cs ih =>
    rw [List.mem_cons, not_or] at h
    exact lines_cons (Ne.symm h.1) (ih h.2)

theorem text_lines (s : List Char) : (lines s).flatMap Line.text = s := by
  induction s with
  | nil => rfl
  | cons c cs ih =>
    by_cases hc : c = '\n'
    · rw [hc, lines_newline, List.flatMap_cons, ih]
      rfl
    · cases hl : lines cs with
      | nil =>
        rw [hl] at ih
        simp [lines, hc, Line.text, ← ih]
      | cons l ls =>
        rw [hl, List.flatMap_cons] at ih
        rw [lines_cons hc hl, List.flatMap_cons, ← ih]
        cases he : l.ended <;> simp [Line.text, he]

theorem dropReturn_concat (s : List Char) : dropReturn (s ++ ['\r']) = s := by
  simp [dropReturn]

theorem dropReturn_of_notMem {s : List Char} (h : '\r' ∉ s) : dropReturn s = s := by
  have hlast : s.getLast? ≠ some '\r' := fun hs => h (List.mem_of_getLast? hs)
  simp [dropReturn, hlast]

theorem dropReturn_cases (s : List Char) : s = dropReturn s ∨ s = dropReturn s ++ ['\r'] := by
  unfold dropReturn
  split_ifs with h
  · exact Or.inr (List.dropLast_append_getLast? _ h).symm
  · exact Or.inl rfl

theorem sentinel?_marker (s : List Char) :
    sentinel? (marker ++ s) = match dropReturn s with
      | [] => some .nameless
      | c :: name => if c = ' ' && !name.contains '\r' then some (.named name) else none := by
  have hprefix : marker.isPrefixOf (marker ++ s) = true :=
    List.isPrefixOf_iff_prefix.mpr (List.prefix_append marker s)
  cases hs : dropReturn s <;> simp [sentinel?, hprefix, hs]

theorem sentinel?_named {name returns : List Char} (hname : '\r' ∉ name)
    (hreturns : returns = [] ∨ returns = ['\r']) :
    sentinel? (marker ++ ' ' :: name ++ returns) = some (.named name) := by
  have hdrop : dropReturn (' ' :: name ++ returns) = ' ' :: name := by
    rcases hreturns with rfl | rfl
    · rw [List.append_nil]
      exact dropReturn_of_notMem (by simp [hname])
    · exact dropReturn_concat (' ' :: name)
  rw [List.append_assoc, sentinel?_marker, hdrop]
  simp [hname]

theorem sentinel?_nameless {returns : List Char} (hreturns : returns = [] ∨ returns = ['\r']) :
    sentinel? (marker ++ returns) = some .nameless := by
  have hdrop : dropReturn returns = [] := by
    rcases hreturns with rfl | rfl <;> rfl
  rw [sentinel?_marker, hdrop]

theorem isSome_sentinel?_iff (line : List Char) :
    (sentinel? line).isSome = true ↔ IsSentinel line := by
  constructor
  · intro h
    by_cases hmarker : marker.isPrefixOf line = true
    · obtain ⟨s, rfl⟩ := List.isPrefixOf_iff_prefix.mp hmarker
      rw [sentinel?_marker] at h
      have hreturns : ∃ returns, (returns = [] ∨ returns = ['\r']) ∧ s = dropReturn s ++ returns := by
        rcases dropReturn_cases s with hs | hs
        · exact ⟨[], Or.inl rfl, by simpa using hs⟩
        · exact ⟨['\r'], Or.inr rfl, hs⟩
      obtain ⟨returns, hr, hs⟩ := hreturns
      refine ⟨dropReturn s, returns, ?_, hr, by rw [List.append_assoc, ← hs]⟩
      cases hd : dropReturn s with
      | nil => exact Or.inl rfl
      | cons c name =>
        rw [hd] at h
        by_cases hc : c = ' ' ∧ '\r' ∉ name
        · exact Or.inr ⟨name, hc.2, by rw [hc.1]⟩
        · simp [hc] at h
    · simp [sentinel?, hmarker] at h
  · rintro ⟨named, returns, rfl | ⟨name, hname, rfl⟩, hr, rfl⟩
    · rw [List.append_nil, sentinel?_nameless hr]
      rfl
    · rw [sentinel?_named hname hr]
      rfl

instance (line : List Char) : Decidable (IsSentinel line) :=
  decidable_of_iff _ (isSome_sentinel?_iff line)

theorem sentinel?_eq_none {line : List Char} (h : ¬ IsSentinel line) : sentinel? line = none := by
  rwa [← isSome_sentinel?_iff, Option.not_isSome_iff_eq_none] at h

end FunctionPairs.Decompiled
