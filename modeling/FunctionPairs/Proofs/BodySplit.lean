import FunctionPairs.Function
import Mathlib.Data.List.TakeDrop
import Mathlib.Data.List.TakeWhile

/-!
The cut of a function at its braces. A text is cut behind its first opening brace and before the
last closing brace that follows, and there is one way to do so; hence head, body and tail make up
the text again, wherever the braces are and whether or not there are any. As the cut looks at
nothing between these two braces, any body may be put there and is found again by the next cut.
-/
namespace FunctionPairs.BodySplit

inductive Cut : List Char → List Char → List Char → List Char → Prop
  | whole {text} (hopen : '{' ∉ text) : Cut text text [] []
  | unclosed {before body} (hopen : '{' ∉ before) (hclose : '}' ∉ body) :
      Cut (before ++ '{' :: body) (before ++ ['{']) body []
  | closed {before body after} (hopen : '{' ∉ before) (hclose : '}' ∉ after) :
      Cut (before ++ '{' :: (body ++ '}' :: after)) (before ++ ['{']) body ('}' :: after)

variable {text head body tail before after : List Char}

theorem cutOpen_of_notMem (h : '{' ∉ text) : cutOpen text = (text, none) := by
  induction text with
  | nil => rfl
  | cons c cs ih =>
    rw [List.mem_cons, not_or] at h
    rw [cutOpen, if_neg (Ne.symm h.1), ih h.2]

theorem cutOpen_append_cons (h : '{' ∉ before) (rest : List Char) :
    cutOpen (before ++ '{' :: rest) = (before ++ ['{'], some rest) := by
  induction before with
  | nil => rfl
  | cons c cs ih =>
    rw [List.mem_cons, not_or] at h
    rw [List.cons_append, cutOpen, if_neg (Ne.symm h.1), ih h.2]
    rfl

theorem cutClose_of_notMem (h : '}' ∉ text) : cutClose text = (text, []) := by
  have hrest : text.reverse.dropWhile (· ≠ '}') = [] := by
    rw [List.dropWhile_eq_nil_iff]
    intro c hc
    simpa using fun heq : c = '}' => h (heq ▸ List.mem_reverse.mp hc)
  rw [cutClose, List.span_eq_takeWhile_dropWhile, hrest]

theorem cutClose_append_cons (h : '}' ∉ after) (body : List Char) :
    cutClose (body ++ '}' :: after) = (body, '}' :: after) := by
  have hafter : ∀ c ∈ after.reverse, decide (c ≠ '}') = true := by
    intro c hc
    simpa using fun heq : c = '}' => h (heq ▸ List.mem_reverse.mp hc)
  have hreverse : (body ++ '}' :: after).reverse = after.reverse ++ '}' :: body.reverse := by simp
  rw [cutClose, List.span_eq_takeWhile_dropWhile, hreverse, List.takeWhile_append_of_pos hafter,
    List.dropWhile_append_of_pos hafter]
  simp

theorem exists_cut (text : List Char) : ∃ head body tail, Cut text head body tail := by
  by_cases hopen : '{' ∈ text
  · obtain ⟨before, rest, rfl, hbefore⟩ := List.eq_append_cons_of_mem hopen
    by_cases hclose : '}' ∈ rest
    · obtain ⟨after, body, hrest, hafter⟩ :=
        List.eq_append_cons_of_mem (List.mem_reverse.mpr hclose)
      have hsplit : rest = body.reverse ++ '}' :: after.reverse := by
        simpa using congrArg List.reverse hrest
      subst hsplit
      exact ⟨_, _, _, .closed hbefore (by simpa using hafter)⟩
    · exact ⟨_, _, _, .unclosed hbefore hclose⟩
  · exact ⟨_, _, _, .whole hopen⟩

theorem Cut.ofText_eq (h : Cut text head body tail) :
    ofText (String.ofList text) =
      ⟨String.ofList head, String.ofList body, String.ofList tail⟩ := by
  unfold ofText
  rw [String.toList_ofList]
  cases h with
  | whole hopen => rw [cutOpen_of_notMem hopen]
  | unclosed hopen hclose =>
    rw [cutOpen_append_cons hopen]
    dsimp only
    rw [cutClose_of_notMem hclose]
  | closed hopen hclose =>
    rw [cutOpen_append_cons hopen]
    dsimp only
    rw [cutClose_append_cons hclose]

theorem Cut.append_eq (h : Cut text head body tail) : head ++ body ++ tail = text := by
  cases h <;> simp

theorem cut_ofText (text : String) :
    Cut text.toList (ofText text).head.toList (ofText text).body.toList
      (ofText text).tail.toList := by
  obtain ⟨head, body, tail, h⟩ := exists_cut text.toList
  have heq := h.ofText_eq
  rw [String.ofList_toList] at heq
  simpa [heq] using h

theorem ofText_append (text : String) :
    (ofText text).head ++ (ofText text).body ++ (ofText text).tail = text := by
  apply String.toList_injective
  rw [String.toList_append, String.toList_append, (cut_ofText text).append_eq]

theorem ofText_of_cut {text head body tail : String}
    (h : Cut text.toList head.toList body.toList tail.toList) : ofText text = ⟨head, body, tail⟩ := by
  simpa using h.ofText_eq

theorem Cut.replace (h : Cut text head body tail) (htail : tail ≠ []) (other : List Char) :
    Cut (head ++ other ++ tail) head other tail := by
  cases h with
  | whole => exact absurd rfl htail
  | unclosed => exact absurd rfl htail
  | closed hopen hclose =>
    have h : Cut _ _ other _ := .closed hopen hclose
    rwa [← h.append_eq] at h

theorem Cut.of_mem (h : Cut text head body tail) (hopen : '{' ∈ text) :
    ∃ before rest, text = before ++ '{' :: rest ∧ '{' ∉ before ∧ head = before ++ ['{'] ∧
      (tail = [] ↔ '}' ∉ rest) ∧ (tail ≠ [] → ∃ after, tail = '}' :: after ∧ '}' ∉ after) := by
  cases h with
  | whole hnone => exact absurd hopen hnone
  | @unclosed before body hbefore hclose =>
    exact ⟨before, body, rfl, hbefore, rfl, by simp [hclose], fun hne => absurd rfl hne⟩
  | @closed before body after hbefore hclose =>
    exact ⟨before, body ++ '}' :: after, rfl, hbefore, rfl, by simp, fun _ => ⟨after, rfl, hclose⟩⟩

/-- A text without an opening brace is all head. Otherwise the head ends with the first one and
has no other; there is a tail exactly if a closing brace follows, and it starts with the last one
and has no other. Where there is a tail, any body put in place of the old one is cut out again. -/
theorem ofText_parts (text : String) :
    let s := ofText text
    s.head ++ s.body ++ s.tail = text ∧
    ('{' ∉ text.toList → s = ⟨text, "", ""⟩) ∧
    ('{' ∈ text.toList → ∃ before rest, text.toList = before ++ '{' :: rest ∧ '{' ∉ before ∧
      s.head.toList = before ++ ['{'] ∧
      (s.tail = "" ↔ '}' ∉ rest) ∧
      (s.tail ≠ "" → ∃ after, s.tail.toList = '}' :: after ∧ '}' ∉ after)) ∧
    (s.tail ≠ "" → ∀ body, ofText (s.head ++ body ++ s.tail) = ⟨s.head, body, s.tail⟩) := by
  intro s
  have hcut : Cut text.toList s.head.toList s.body.toList s.tail.toList := cut_ofText text
  refine ⟨ofText_append text, fun hnone => ?_, fun hsome => ?_, fun htail body => ?_⟩
  · have hwhole := Cut.whole hnone
    exact ofText_of_cut (by simpa using hwhole)
  · have hparts := hcut.of_mem hsome
    rwa [ne_eq, String.toList_eq_nil_iff] at hparts
  · have hne : s.tail.toList ≠ [] := by simpa using htail
    exact ofText_of_cut (by simpa using hcut.replace hne body.toList)

theorem ofText_braces (body : String) :
    ofText ("\x7b" ++ body ++ "\x7d") = ⟨"\x7b", body, "\x7d"⟩ := by
  have hcut : Cut ('{' :: (body.toList ++ ['}'])) ['{'] body.toList ['}'] :=
    @Cut.closed [] body.toList [] List.not_mem_nil List.not_mem_nil
  exact ofText_of_cut (by simpa using hcut)

/-- A text in braces that the cut takes apart into just these braces and what is between them. -/
def Braced (text : String) : Prop :=
  ∃ body, text = "\x7b" ++ body ++ "\x7d" ∧ (ofText text).body = body ∧
    (ofText text).bracedBody = text

theorem braced_bracedBody (s : BodySplit) : Braced s.bracedBody := by
  have hcut : ofText s.bracedBody = ⟨"\x7b", s.body, "\x7d"⟩ := ofText_braces s.body
  refine ⟨s.body, rfl, ?_, ?_⟩
  · rw [hcut]
  · rw [hcut]
    rfl

example : (ofText "\x7d int f() \x7b x").bracedBody = "\x7b x\x7d" := by decide +kernel

end FunctionPairs.BodySplit
