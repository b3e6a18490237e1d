import FunctionPairs.Proofs.Text.Boundary
import FunctionPairs.Proofs.Logged
import FunctionPairs.LanguageModel

/-!
The pieces of a file at its top level. If the nodes below the root stand in document order, do
not overlap and cut no character in two, the texts of the pieces make up the text of the file,
whatever the bytes are and whichever of the nodes are functions.
-/
namespace FunctionPairs.Syntax

open Utf8 (Boundary)

/-- How a grammar places the nodes below a root in a file. -/
structure Placed (source : Bytes) (nodes : List Tree) : Prop where
  ordered : nodes.Pairwise fun a b => a.span.stop ≤ b.span.start
  forward : ∀ c ∈ nodes, c.span.start ≤ c.span.stop
  start_boundary : ∀ c ∈ nodes, Boundary source c.span.start
  stop_boundary : ∀ c ∈ nodes, Boundary source c.span.stop

theorem Placed.tail {source : Bytes} {c : Tree} {cs : List Tree} (h : Placed source (c :: cs)) :
    Placed source cs where
  ordered := h.ordered.of_cons
  forward d hd := h.forward d (List.mem_cons_of_mem c hd)
  start_boundary d hd := h.start_boundary d (List.mem_cons_of_mem c hd)
  stop_boundary d hd := h.stop_boundary d (List.mem_cons_of_mem c hd)

theorem textAt_rest (source : Bytes) (p : Nat) :
    textAt source ⟨p, source.length⟩ = Utf8.decode (source.drop p) := by
  unfold textAt
  rw [List.take_of_length_le (Nat.le_of_eq List.length_drop)]

theorem textAt_append {source : Bytes} {p q : Nat} (hp : Boundary source p)
    (hq : Boundary source q) (hpq : p ≤ q) :
    textAt source ⟨p, q⟩ ++ Utf8.decode (source.drop q) = Utf8.decode (source.drop p) := by
  have hcut := (hp.drop hq hpq).decodeChars_append
  rw [List.drop_drop, Nat.add_sub_cancel' hpq] at hcut
  unfold textAt Utf8.decode
  rw [← String.ofList_append, hcut]

variable (dialect : Dialect) (source : Bytes) (scopes : List String)

theorem unitsFrom_text (nodes : List Tree) (position : Nat) (hnodes : Placed source nodes)
    (hposition : Boundary source position) (hahead : ∀ c ∈ nodes, position ≤ c.span.start) :
    String.join ((Tree.unitsFrom dialect source scopes position nodes).map
      fun u => textAt source u.span) = Utf8.decode (source.drop position) := by
  induction nodes generalizing position with
  | nil =>
    unfold Tree.unitsFrom
    by_cases h : position < source.length
    · rw [if_pos h, List.map_singleton, String.join_cons, String.join_nil, String.append_empty]
      exact textAt_rest source position
    · rw [if_neg h, List.drop_of_length_le (by omega), Utf8.decode_nil, List.map_nil,
        String.join_nil]
  | cons c cs ih =>
    unfold Tree.unitsFrom
    cases hname : c.topLevelName? dialect source with
    | none =>
      exact ih position hnodes.tail hposition fun d hd => hahead d (List.mem_cons_of_mem c hd)
    | some name =>
      have hc : c ∈ c :: cs := List.mem_cons_self
      have hstart := hnodes.start_boundary c hc
      have hstop := hnodes.stop_boundary c hc
      have hbehind := ih c.span.stop hnodes.tail hstop (List.pairwise_cons.mp hnodes.ordered).1
      have hfunction : textAt source c.span ++ Utf8.decode (source.drop c.span.stop) =
          Utf8.decode (source.drop c.span.start) :=
        textAt_append hstart hstop (hnodes.forward c hc)
      dsimp only
      -- the text up to the function is a piece only if there is any
      split_ifs with hgap
      · rw [List.map_cons, List.map_cons, String.join_cons, String.join_cons, hbehind]
        rw [show UnitSpan.span (.function (Tree.qualify scopes name) c.span) = c.span from rfl,
          hfunction]
        exact textAt_append hposition hstart (hahead c hc)
      · have hsame : position = c.span.start := Nat.le_antisymm (hahead c hc) (by omega)
        rw [List.map_cons, String.join_cons, hbehind, hsame]
        exact hfunction

theorem topLevelUnits_text (root : Tree) (h : Placed source root.children) :
    String.join ((root.topLevelUnits dialect source).map fun u => textAt source u.span) =
      Utf8.decode source := by
  have hunits := unitsFrom_text dialect source (root.scopeName? dialect source).toList
    root.children 0 h (.start source) fun _ _ => Nat.zero_le _
  rw [List.drop_zero] at hunits
  exact hunits

end FunctionPairs.Syntax

namespace FunctionPairs.LanguageModel

open Syntax (Placed UnitSpan textAt)

variable (m : LanguageModel) (fs : FileSystem)

def unitOf (source : Bytes) : UnitSpan → SourceUnit
  | .function name span => .function ⟨name, textAt source span⟩
  | .other span => .other (textAt source span)

def unitsOf (source : Bytes) : List SourceUnit :=
  ((m.grammar m.lang.dialect source).1.topLevelUnits m.lang.dialect source).map (unitOf source)

theorem unitsOf_text {source : Bytes} (h : Placed source (m.grammar m.lang.dialect source).1.children) :
    String.join ((m.unitsOf source).map SourceUnit.text) = Utf8.decode source := by
  rw [← Syntax.topLevelUnits_text m.lang.dialect source _ h, unitsOf, List.map_map]
  congr 1
  apply List.map_congr_left
  intro u _
  cases u <;> rfl

theorem read_of_readSource {p : Path} {bytes : Bytes} (h : m.readSource fs p = .ok bytes) :
    fs.read p = .ok bytes := by
  unfold readSource at h
  cases hsize : fs.size p with
  | error e =>
    rw [hsize] at h
    cases h
  | ok size =>
    rw [hsize] at h
    dsimp only at h
    split_ifs at h
    cases hread : fs.read p with
    | error e =>
      rw [hread] at h
      cases h
    | ok found =>
      rw [hread] at h
      cases h
      rfl

theorem parseFile_of_read {p : Path} {bytes : Bytes} (h : m.readSource fs p = .ok bytes) :
    (m.parseFile fs p).value =
      (m.analyzer.parseWith m.grammar m.lang.dialect bytes).mapError fun f =>
        .unparsable p f.text := by
  unfold parseFile
  rw [h]
  dsimp only
  cases m.analyzer.parseWith m.grammar m.lang.dialect bytes with
  | error f => rfl
  | ok file => cases hsound : file.sound <;> simp [hsound, Except.mapError]

theorem topLevelUnits_eq_ok {p : Path} {units : List SourceUnit} :
    (m.topLevelUnits fs p).value = .ok units ↔
      ∃ bytes, m.readSource fs p = .ok bytes ∧
        m.analyzer.dialects.contains m.lang.dialect = true ∧ units = m.unitsOf bytes := by
  unfold topLevelUnits
  rw [Logged.value_bind]
  cases hread : m.readSource fs p with
  | error e =>
    have hparse : (m.parseFile fs p).value = .error e := by
      unfold parseFile
      rw [hread]
      rfl
    rw [hparse]
    exact ⟨fun h => (nomatch h), fun ⟨_, h, _⟩ => (nomatch h)⟩
  | ok bytes =>
    rw [m.parseFile_of_read fs hread]
    unfold Syntax.Analyzer.parseWith
    cases hknown : m.analyzer.dialects.contains m.lang.dialect with
    | false => simp [Except.mapError]
    | true =>
      simp only [if_true, Except.mapError, Logged.value_pure, Except.ok.injEq, true_and,
        exists_eq_left']
      exact eq_comm

end FunctionPairs.LanguageModel
