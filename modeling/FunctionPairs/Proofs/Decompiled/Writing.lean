import FunctionPairs.Proofs.Decompiled.Lines
import FunctionPairs.Proofs.Text.Encoding
import FunctionPairs.Proofs.Text.Trimming

/-!
Writing decompiled files, and reading them back. A file is written as a preamble and, for each
function, a sentinel line with its name and then its text. Whatever the texts hold, as long as
no line of theirs is itself a sentinel line, reading gives the names and texts that were written.
-/
namespace FunctionPairs.Decompiled

open Text (trimEndChars_eq_self)

theorem scrape_of_read {fs : FileSystem} {path : Path} {bytes : Bytes}
    (h : fs.read path = .ok bytes) :
    (scrape fs path).value = parse path (Utf8.decode bytes) := by
  unfold scrape
  rw [h]
  cases bytes with
  | nil =>
    rw [Utf8.decode_nil]
    rfl
  | cons b bs =>
    dsimp only
    cases parse path (Utf8.decode (b :: bs)) with
    | error e => rfl
    | ok fns => cases fns <;> rfl

theorem scrape_of_text {fs : FileSystem} {path : Path} {text : String}
    (h : fs.read path = .ok (Utf8.encode text)) : (scrape fs path).value = parse path text := by
  rw [scrape_of_read h, (Utf8.decode?_some (Utf8.decode?_encode text)).1]

/-- A function in a file; `returned` if a carriage return ends its sentinel line. -/
structure Passage where
  name : String
  text : String
  returned : Bool
deriving Repr, DecidableEq

namespace Passage

def heading (p : Passage) : List Char :=
  marker ++ ' ' :: p.name.toList ++ if p.returned then ['\r'] else []

def chars (p : Passage) : List Char := p.heading ++ '\n' :: p.text.toList

def lines (p : Passage) : List Line := ⟨p.heading, true⟩ :: Decompiled.lines p.text.toList

def segment (p : Passage) : List Char × List Char := (p.name.toList, p.text.toList)

/-- A name that stands on one line and does not end in a blank, and a text without sentinels. -/
structure Proper (p : Passage) : Prop where
  noReturn : '\r' ∉ p.name.toList
  noNewline : '\n' ∉ p.name.toList
  notBlank : p.name.toList.all isBlank = false
  noBlankEnd : ∀ c ∈ p.name.toList.getLast?, isBlank c = false
  plain : ∀ l ∈ Decompiled.lines p.text.toList, ¬ IsSentinel l.chars

end Passage

def write (preamble : String) (passages : List Passage) : String :=
  String.ofList (preamble.toList ++ passages.flatMap Passage.chars)

variable {p : Passage} {passages : List Passage}

theorem newline_notMem_heading (h : p.Proper) : '\n' ∉ p.heading := by
  have hmarker : '\n' ∉ marker := by decide
  cases hr : p.returned <;> simp [Passage.heading, hr, hmarker, h.noNewline]

theorem sentinel?_heading (h : p.Proper) : sentinel? p.heading = some (.named p.name.toList) := by
  apply sentinel?_named h.noReturn
  cases p.returned
  · exact Or.inl rfl
  · exact Or.inr rfl

theorem splitName?_heading (h : p.Proper) : splitName? p.heading = some p.name.toList := by
  simp [splitName?, sentinel?_heading h, h.notBlank]

theorem lines_flatMap_chars (hp : ∀ p ∈ passages, p.Proper)
    (hc : ∀ p ∈ passages.dropLast, Complete p.text.toList) :
    lines (passages.flatMap Passage.chars) = passages.flatMap Passage.lines := by
  induction passages with
  | nil => rfl
  | cons p rest ih =>
    have hline := newline_notMem_heading (hp p List.mem_cons_self)
    have hsplit : lines (p.text.toList ++ rest.flatMap Passage.chars) =
        lines p.text.toList ++ lines (rest.flatMap Passage.chars) := by
      cases rest with
      | nil => simp [lines]
      | cons q rest => exact lines_append (hc p (by simp)) _
    have hrest := ih (fun q hq => hp q (List.mem_cons_of_mem _ hq)) fun q hq => by
      cases rest with
      | nil => cases hq
      | cons r rest => exact hc q (List.mem_cons_of_mem _ hq)
    rw [List.flatMap_cons, List.flatMap_cons, Passage.chars, List.append_assoc, List.cons_append,
      lines_line hline, hsplit, hrest, Passage.lines, List.cons_append]

theorem splitName?_plain {line : List Char} (h : ¬ IsSentinel line) : splitName? line = none := by
  simp [splitName?, sentinel?_eq_none h]

theorem parts_append {ls : List Line} (h : ∀ l ∈ ls, ¬ IsSentinel l.chars) (rest : List Line) :
    parts (ls ++ rest) = (ls.flatMap Line.text ++ (parts rest).1, (parts rest).2) := by
  induction ls with
  | nil => rfl
  | cons l ls ih =>
    have hl := splitName?_plain (h l List.mem_cons_self)
    have hls := ih fun k hk => h k (List.mem_cons_of_mem _ hk)
    simp [parts, hl, hls]

theorem parts_passages (hp : ∀ p ∈ passages, p.Proper) :
    parts (passages.flatMap Passage.lines) = ([], passages.map Passage.segment) := by
  induction passages with
  | nil => rfl
  | cons p rest ih =>
    have hfirst := hp p List.mem_cons_self
    have hrest := ih fun q hq => hp q (List.mem_cons_of_mem _ hq)
    have htext := parts_append hfirst.plain (rest.flatMap Passage.lines)
    rw [hrest, text_lines, List.append_nil] at htext
    rw [List.flatMap_cons, Passage.lines, List.cons_append, parts, htext]
    simp [splitName?_heading hfirst, Passage.segment]

theorem countP_plain {ls : List Line} (h : ∀ l ∈ ls, ¬ IsSentinel l.chars) :
    ls.countP (fun l => (sentinel? l.chars).isSome) = 0 := by
  rw [List.countP_eq_zero]
  intro l hl
  rw [isSome_sentinel?_iff]
  exact h l hl

theorem countP_passages (hp : ∀ p ∈ passages, p.Proper) :
    (passages.flatMap Passage.lines).countP (fun l => (sentinel? l.chars).isSome) =
      passages.length := by
  induction passages with
  | nil => rfl
  | cons p rest ih =>
    have hfirst := hp p List.mem_cons_self
    have hrest := ih fun q hq => hp q (List.mem_cons_of_mem _ hq)
    have hone : p.lines.countP (fun l => (sentinel? l.chars).isSome) = 1 := by
      simp [Passage.lines, sentinel?_heading hfirst, countP_plain hfirst.plain]
    rw [List.flatMap_cons, List.countP_append, hone, hrest, List.length_cons, Nat.add_comm]

/-- Reading a written file gives back the names and texts, and its segments are the preamble and
then each name with its text. -/
theorem parse_write (path : Path) {preamble : String} (hcomplete : Complete preamble.toList)
    (hplain : ∀ l ∈ lines preamble.toList, ¬ IsSentinel l.chars)
    (hp : ∀ p ∈ passages, p.Proper)
    (hc : ∀ p ∈ passages.dropLast, Complete p.text.toList) :
    parse path (write preamble passages) = .ok (passages.map fun p => ⟨p.name, p.text⟩) ∧
      segments (write preamble passages) =
        preamble :: passages.flatMap fun p => [p.name, p.text] := by
  have hlines : lines (write preamble passages).toList = lines preamble.toList ++
      passages.flatMap Passage.lines := by
    rw [write, String.toList_ofList, lines_append hcomplete, lines_flatMap_chars hp hc]
  have hparts : parts (lines (write preamble passages).toList) =
      (preamble.toList, passages.map Passage.segment) := by
    rw [hlines, parts_append hplain, parts_passages hp, text_lines, List.append_nil]
  have hcount : sentinelCount (write preamble passages) = passages.length := by
    rw [sentinelCount, hlines, List.countP_append, countP_plain hplain, countP_passages hp, Nat.zero_add]
  constructor
  · have hlength : (passages.map Passage.segment).length = passages.length := List.length_map _
    simp only [parse, hparts, hcount, hlength, if_true, List.map_map]
    congr 1
    apply List.map_congr_left
    intro p hmem
    simp [Passage.segment, trimEndChars_eq_self (hp p hmem).noBlankEnd]
  · simp [segments, hparts, Passage.segment, List.flatMap_map]

def nearMisses : List Passage :=
  [⟨" ns::f<int>", "// FUNCTIONAL\r\n // FUNCTION g\n// FUNCTION h\ri\n", true⟩, ⟨"é", "", false⟩,
    ⟨"operator+", "\x7b \x7d\r", false⟩]

theorem parse_write_nearMisses :
    Complete "/* FUNCTION */\n".toList ∧ (∀ p ∈ nearMisses, p.Proper) ∧
      parse .empty (write "/* FUNCTION */\n" nearMisses) =
        .ok (nearMisses.map fun p => ⟨p.name, p.text⟩) ∧
      segments (write "/* FUNCTION */\n" nearMisses) =
        "/* FUNCTION */\n" :: nearMisses.flatMap fun p => [p.name, p.text] := by
  have hproper : ∀ p ∈ nearMisses, p.Proper := by
    intro p hp
    simp only [nearMisses, List.mem_cons, List.not_mem_nil, or_false] at hp
    rcases hp with rfl | rfl | rfl
    · exact ⟨by decide, by decide, by decide, fun c hc => by cases hc; decide, by decide⟩
    · exact ⟨by decide, by decide, by decide, fun c hc => by cases hc; decide, by decide⟩
    · exact ⟨by decide, by decide, by decide, fun c hc => by cases hc; decide, by decide⟩
  have hcomplete : Complete "/* FUNCTION */\n".toList := by decide
  exact ⟨hcomplete, hproper, parse_write .empty hcomplete (by decide) hproper (by decide)⟩

end FunctionPairs.Decompiled
