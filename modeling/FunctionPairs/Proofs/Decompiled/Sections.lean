import FunctionPairs.Proofs.Decompiled.Lines
import FunctionPairs.Proofs.Text.Trimming
import Mathlib.Algebra.Ring.Parity
import Mathlib.Data.List.TakeWhile

/-!
Any text taken apart at its sentinel lines. The segments are the text before the first line that
splits and then, for each such line, its name and the text behind it, so that with these lines put
back in they make up the text. A text is well-formed if every sentinel line splits, which is to say
that none is without a name that is more than blanks; its functions are then the sections that
begin at the sentinel lines.
-/
namespace FunctionPairs

namespace Decompiled

def Introduces (line name : List Char) : Prop :=
  '\r' ∉ name ∧ ∃ returns, (returns = [] ∨ returns = ['\r']) ∧
    line = marker ++ ' ' :: name ++ returns

/-- A sentinel line whose name is more than blanks. -/
def Splits (line : List Char) : Prop := ∃ name, Introduces line name ∧ Text.trimChars name ≠ []

/-- A sentinel line without a name, or with one of blanks only. -/
def Faulty (line : List Char) : Prop :=
  IsSentinel line ∧ ∀ name, Introduces line name → Text.trimChars name = []

structure Section where
  heading : Line
  name : List Char
  body : List Line

def textOf (ls : List Line) : String := String.ofList (ls.flatMap Line.text)

namespace Section

def lines (s : Section) : List Line := s.heading :: s.body

def segments (s : Section) : List String := [String.ofList s.name, textOf s.body]

def function (s : Section) : Function :=
  ⟨String.ofList (Text.trimEndChars s.name), textOf s.body⟩

end Section

/-- Lines taken apart at exactly those that have a property: what comes before the first, and
then sections, each with the lines up to the next. -/
structure Divided (P : List Char → Prop) (ls before : List Line) (sections : List Section) :
    Prop where
  lines : ls = before ++ sections.flatMap Section.lines
  plain : ∀ l ∈ before, ¬ P l.chars
  heading : ∀ s ∈ sections, P s.heading.chars ∧ Introduces s.heading.chars s.name
  body : ∀ s ∈ sections, ∀ l ∈ s.body, ¬ P l.chars

theorem splitOn_newline (s : List Char) :
    s.splitOn '\n' = (lines s).map Line.chars ++ if Complete s then [[]] else [] := by
  induction s with
  | nil => rfl
  | cons c cs ih =>
    rw [List.splitOn_cons_eq_if_modifyHead]
    by_cases hc : c = '\n'
    · have hcomplete : Complete ('\n' :: cs) ↔ Complete cs := by
        cases cs <;> simp [Complete]
      rw [if_pos (by simpa using hc), hc, lines_newline, ih, List.map_cons, List.cons_append]
      simp only [hcomplete]
    · rw [if_neg (by simpa using hc), ih]
      cases hcs : cs with
      | nil => simp [lines, Complete, hc]
      | cons d ds =>
        obtain ⟨l, ls, hl⟩ := List.exists_cons_of_ne_nil (lines_ne_nil (List.cons_ne_nil d ds))
        have hcomplete : Complete (c :: d :: ds) ↔ Complete (d :: ds) := by simp [Complete]
        rw [lines_cons hc hl, hl]
        simp only [hcomplete]
        rfl

theorem mem_splitOn_newline {s line : List Char} (hline : line ≠ []) :
    line ∈ s.splitOn '\n' ↔ ∃ l ∈ lines s, l.chars = line := by
  rw [splitOn_newline, List.mem_append, List.mem_map]
  split_ifs <;> simp [hline]

theorem introduces_of_sentinel? {line name : List Char}
    (h : sentinel? line = some (.named name)) : Introduces line name := by
  have hline : IsSentinel line := by
    rw [← isSome_sentinel?_iff, h]
    rfl
  obtain ⟨named, returns, rfl | ⟨name', hname, rfl⟩, hreturns, rfl⟩ := hline
  · rw [List.append_nil, sentinel?_nameless hreturns] at h
    cases h
  · rw [sentinel?_named hname hreturns] at h
    cases h
    exact ⟨hname, returns, hreturns, rfl⟩

theorem sentinel?_of_introduces {line name : List Char} (h : Introduces line name) :
    sentinel? line = some (.named name) := by
  obtain ⟨hname, returns, hreturns, rfl⟩ := h
  exact sentinel?_named hname hreturns

theorem splitName?_eq_some {line name : List Char} :
    splitName? line = some name ↔ Introduces line name ∧ Text.trimChars name ≠ [] := by
  rw [Ne, Text.trimChars_eq_nil, splitName?]
  constructor
  · intro h
    split at h
    · next found hfound =>
      split_ifs at h with hblank
      cases h
      exact ⟨introduces_of_sentinel? hfound, hblank⟩
    · cases h
  · rintro ⟨h, hblank⟩
    rw [sentinel?_of_introduces h]
    exact if_neg hblank

theorem isSome_splitName?_iff (line : List Char) :
    (splitName? line).isSome = true ↔ Splits line := by
  simp only [Option.isSome_iff_exists, splitName?_eq_some, Splits]

instance (line : List Char) : Decidable (Splits line) :=
  decidable_of_iff _ (isSome_splitName?_iff line)

theorem isSentinel_of_splits {line : List Char} (h : Splits line) : IsSentinel line := by
  obtain ⟨name, hname, -⟩ := h
  rw [← isSome_sentinel?_iff, sentinel?_of_introduces hname]
  rfl

theorem faulty_iff (line : List Char) : Faulty line ↔ IsSentinel line ∧ ¬ Splits line := by
  simp only [Faulty, Splits, not_exists, not_and, not_not]

instance (line : List Char) : Decidable (Faulty line) := decidable_of_iff' _ (faulty_iff line)

theorem ne_nil_of_faulty {line : List Char} (h : Faulty line) : line ≠ [] := by
  rintro rfl
  exact absurd h.1 (by decide)

theorem Divided.section_cons {P : List Char → Prop} {l : Line} {ls before : List Line}
    {sections : List Section} (h : Divided P ls before sections) {name : List Char}
    (hl : P l.chars) (hname : Introduces l.chars name) :
    Divided P (l :: ls) [] (⟨l, name, before⟩ :: sections) where
  lines := by rw [h.lines]; rfl
  plain := nofun
  heading := List.forall_mem_cons.mpr ⟨⟨hl, hname⟩, h.heading⟩
  body := List.forall_mem_cons.mpr ⟨h.plain, h.body⟩

theorem Divided.plain_cons {P : List Char → Prop} {l : Line} {ls before : List Line}
    {sections : List Section} (h : Divided P ls before sections) (hl : ¬ P l.chars) :
    Divided P (l :: ls) (l :: before) sections where
  lines := by rw [h.lines]; rfl
  plain := List.forall_mem_cons.mpr ⟨hl, h.plain⟩
  heading := h.heading
  body := h.body

theorem exists_divided (ls : List Line) :
    ∃ before sections, Divided Splits ls before sections ∧
      parts ls = (before.flatMap Line.text,
        sections.map fun s => (s.name, s.body.flatMap Line.text)) := by
  induction ls with
  | nil => exact ⟨[], [], ⟨rfl, nofun, nofun, nofun⟩, rfl⟩
  | cons l ls ih =>
    obtain ⟨before, sections, hdivided, hparts⟩ := ih
    cases hl : splitName? l.chars with
    | some name =>
      have hsplits : Splits l.chars := (isSome_splitName?_iff l.chars).mp (by rw [hl]; rfl)
      refine ⟨[], ⟨l, name, before⟩ :: sections,
        hdivided.section_cons hsplits (splitName?_eq_some.mp hl).1, ?_⟩
      rw [parts, hparts, hl]
      rfl
    | none =>
      have hplain : ¬ Splits l.chars := by rw [← isSome_splitName?_iff, hl]; exact nofun
      refine ⟨l :: before, sections, hdivided.plain_cons hplain, ?_⟩
      rw [parts, hparts, hl]
      rfl

theorem countP_sentinels (ls : List Line) :
    ls.countP (fun l => (sentinel? l.chars).isSome) =
      (parts ls).2.length + ls.countP (fun l => decide (Faulty l.chars)) := by
  induction ls with
  | nil => rfl
  | cons l ls ih =>
    have hsentinel := isSome_sentinel?_iff l.chars
    have hsplit := isSome_splitName?_iff l.chars
    have hfaulty := faulty_iff l.chars
    rw [List.countP_cons, List.countP_cons, ih, parts]
    cases hl : splitName? l.chars with
    | some name =>
      rw [hl] at hsplit
      have hs : Splits l.chars := hsplit.mp rfl
      have hsound : ¬ decide (Faulty l.chars) = true := by simp [hfaulty, hs]
      rw [if_pos (hsentinel.mpr (isSentinel_of_splits hs)), if_neg hsound, List.length_cons]
      omega
    | none =>
      rw [hl] at hsplit
      have hs : ¬ Splits l.chars := fun hs => nomatch hsplit.mpr hs
      simp [hsentinel, hfaulty, hs, Nat.add_assoc]

theorem length_parts_eq_iff (ls : List Line) :
    (parts ls).2.length = ls.countP (fun l => (sentinel? l.chars).isSome) ↔
      ∀ l ∈ ls, ¬ Faulty l.chars := by
  rw [countP_sentinels, left_eq_add, List.countP_eq_zero]
  simp

theorem forall_lines_iff (s : List Char) :
    (∀ l ∈ lines s, ¬ Faulty l.chars) ↔ ∀ line ∈ s.splitOn '\n', ¬ Faulty line := by
  constructor
  · intro h line hline hfaulty
    obtain ⟨l, hl, rfl⟩ := (mem_splitOn_newline (ne_nil_of_faulty hfaulty)).mp hline
    exact h l hl hfaulty
  · intro h l hl hfaulty
    exact h l.chars ((mem_splitOn_newline (ne_nil_of_faulty hfaulty)).mpr ⟨l, hl, rfl⟩) hfaulty

theorem Divided.congr {P Q : List Char → Prop} {ls before : List Line} {sections : List Section}
    (h : Divided P ls before sections) (hPQ : ∀ l ∈ ls, (P l.chars ↔ Q l.chars)) :
    Divided Q ls before sections := by
  have hbefore : ∀ l ∈ before, l ∈ ls := fun l hl => by
    rw [h.lines]
    exact List.mem_append_left _ hl
  have hsection : ∀ s ∈ sections, ∀ l ∈ s.lines, l ∈ ls := fun s hs l hl => by
    rw [h.lines]
    exact List.mem_append_right _ (List.mem_flatMap.mpr ⟨s, hs, hl⟩)
  refine ⟨h.lines, ?_, ?_, ?_⟩
  · intro l hl
    rw [← hPQ l (hbefore l hl)]
    exact h.plain l hl
  · intro s hs
    rw [← hPQ s.heading (hsection s hs _ List.mem_cons_self)]
    exact h.heading s hs
  · intro s hs l hl
    rw [← hPQ l (hsection s hs l (List.mem_cons_of_mem _ hl))]
    exact h.body s hs l hl

theorem Divided.text {P : List Char → Prop} {text : String} {before : List Line}
    {sections : List Section} (h : Divided P (Decompiled.lines text.toList) before sections) :
    text = textOf before ++ String.join
      (sections.map fun s => String.ofList s.heading.text ++ textOf s.body) := by
  have hchars : text.toList = before.flatMap Line.text ++
      sections.flatMap fun s => s.heading.text ++ s.body.flatMap Line.text := by
    rw [← text_lines text.toList, h.lines, List.flatMap_append, List.flatMap_assoc]
    rfl
  apply String.toList_injective
  rw [hchars]
  simp [textOf, String.toList_join, List.flatMap_def, Function.comp_def]

/-- What any text says. Its segments are the text before the first line that splits and then, for
each such line, its name and the text behind it; there is an odd number of them, and with the lines
put back in they make up the text. Reading it fails exactly if, of what lies between line feeds,
something is a sentinel line without a name that is more than blanks; otherwise there is one
function for each sentinel line, in order, with its name trimmed at the end, and its text is all
that follows the line up to the next one. -/
theorem parse_divided (path : Path) (text : String) :
    ∃ before sections, Divided Splits (lines text.toList) before sections ∧
      segments text = textOf before :: sections.flatMap Section.segments ∧
      Odd (segments text).length ∧
      text = textOf before ++ String.join
        (sections.map fun s => String.ofList s.heading.text ++ textOf s.body) ∧
      (parse path text = .error (.badFormat path (segments text).length) ↔
        ∃ line ∈ text.toList.splitOn '\n', Faulty line) ∧
      ((∀ line ∈ text.toList.splitOn '\n', ¬ Faulty line) →
        Divided IsSentinel (lines text.toList) before sections ∧
          parse path text = .ok (sections.map Section.function)) := by
  obtain ⟨before, sections, hdivided, hparts⟩ := exists_divided (lines text.toList)
  have hsegments : segments text = textOf before :: sections.flatMap Section.segments := by
    simp only [segments, hparts, List.flatMap_map]
    rfl
  have hlength : (segments text).length = 2 * sections.length + 1 := by
    rw [hsegments, List.length_cons, List.length_flatMap]
    simp [Section.segments, Nat.mul_comm]
  have hcount : sections.length = sentinelCount text ↔
      ∀ line ∈ text.toList.splitOn '\n', ¬ Faulty line := by
    have hlines := length_parts_eq_iff (lines text.toList)
    rwa [hparts, List.length_map, forall_lines_iff] at hlines
  have hparse : parse path text = if sections.length = sentinelCount text then
      .ok (sections.map Section.function) else .error (.badFormat path (segments text).length) := by
    simp only [parse, hparts, hlength, List.length_map, List.map_map]
    rfl
  refine ⟨before, sections, hdivided, hsegments, ⟨sections.length, hlength⟩, hdivided.text, ?_, ?_⟩
  · have hfaulty : ¬ sections.length = sentinelCount text ↔
        ∃ line ∈ text.toList.splitOn '\n', Faulty line := by
      rw [hcount]
      simp only [not_forall, not_not, exists_prop]
    rw [hparse, ← hfaulty]
    split_ifs with hsame <;> simp [hsame]
  · intro hsound
    refine ⟨hdivided.congr ?_, ?_⟩
    · intro l hl
      have hl' := (forall_lines_iff text.toList).mpr hsound l hl
      rw [faulty_iff, not_and, not_not] at hl'
      exact ⟨isSentinel_of_splits, hl'⟩
    · rw [hparse]
      exact if_pos (hcount.mpr hsound)

end Decompiled
end FunctionPairs
