import FunctionPairs.Proofs.Syntax.Units
import Mathlib.Data.List.Chain
import Mathlib.Order.Basic

/-!
How the top-level pieces of a file lie in it. If the nodes below the root are placed in document
order at boundaries and none of them is empty, the pieces tile the file: none is empty, each begins
where the one before it ends, and the text between functions is never cut in two. The functions
among them are the nodes below the root that define one, and what is neither a function nor named
ends up in the text around.
-/
namespace FunctionPairs.Syntax

/-- Pieces that follow one another from one position to another, each with a byte at least. -/
def Tiles : Nat → List UnitSpan → Nat → Prop
  | low, [], high => low = high
  | low, u :: us, high => u.span.start = low ∧ low < u.span.stop ∧ Tiles u.span.stop us high

def UnitSpan.isOther : UnitSpan → Bool
  | .function _ _ => false
  | .other _ => true

def UnitSpan.function? : UnitSpan → Option FunctionSpan
  | .function name span => some ⟨name, span⟩
  | .other _ => none

/-- The nodes below a root as a grammar gives them: placed in the file, and each with a byte. -/
structure Delivered (source : Bytes) (nodes : List Tree) : Prop extends Placed source nodes where
  nonempty : ∀ c ∈ nodes, c.span.start < c.span.stop

theorem Delivered.tail {source : Bytes} {c : Tree} {cs : List Tree}
    (h : Delivered source (c :: cs)) : Delivered source cs where
  toPlaced := h.toPlaced.tail
  nonempty d hd := h.nonempty d (List.mem_cons_of_mem c hd)

variable (dialect : Dialect) (source : Bytes) (scopes : List String)

def Tree.topLevelFunction? (c : Tree) : Option FunctionSpan :=
  (c.topLevelName? dialect source).map fun name => ⟨qualify scopes name, c.span⟩

theorem unitsFrom_functions (nodes : List Tree) (position : Nat) :
    (Tree.unitsFrom dialect source scopes position nodes).filterMap UnitSpan.function? =
      nodes.filterMap (·.topLevelFunction? dialect source scopes) := by
  induction nodes generalizing position with
  | nil =>
    rw [Tree.unitsFrom]
    split_ifs <;> rfl
  | cons c cs ih =>
    rw [Tree.unitsFrom, List.filterMap_cons, Tree.topLevelFunction?]
    cases c.topLevelName? dialect source with
    | none => exact ih position
    | some name =>
      have hrest : (.function (Tree.qualify scopes name) c.span ::
          Tree.unitsFrom dialect source scopes c.span.stop cs).filterMap UnitSpan.function? =
          ⟨Tree.qualify scopes name, c.span⟩ ::
            cs.filterMap (·.topLevelFunction? dialect source scopes) :=
        congrArg (List.cons _) (ih c.span.stop)
      dsimp only
      split_ifs <;> exact hrest

theorem unitsFrom_tiles (nodes : List Tree) (position : Nat) (hnodes : Delivered source nodes)
    (hahead : ∀ c ∈ nodes, position ≤ c.span.start) (hposition : position ≤ source.length) :
    Tiles position (Tree.unitsFrom dialect source scopes position nodes) source.length := by
  induction nodes generalizing position with
  | nil =>
    rw [Tree.unitsFrom]
    split_ifs with h
    · exact ⟨rfl, h, rfl⟩
    · exact Nat.le_antisymm hposition (Nat.le_of_not_lt h)
  | cons c cs ih =>
    rw [Tree.unitsFrom]
    have hc : c ∈ c :: cs := List.mem_cons_self
    cases c.topLevelName? dialect source with
    | none =>
      exact ih position hnodes.tail (fun d hd => hahead d (List.mem_cons_of_mem c hd)) hposition
    | some name =>
      have hbehind := ih c.span.stop hnodes.tail (List.pairwise_cons.mp hnodes.ordered).1
        (hnodes.stop_boundary c hc).le_length
      have hfunction : Tiles c.span.start (.function (Tree.qualify scopes name) c.span ::
          Tree.unitsFrom dialect source scopes c.span.stop cs) source.length :=
        ⟨rfl, hnodes.nonempty c hc, hbehind⟩
      dsimp only
      split_ifs with hgap
      · exact ⟨rfl, hgap, hfunction⟩
      · have hsame : position = c.span.start :=
          Nat.le_antisymm (hahead c hc) (Nat.le_of_not_lt hgap)
        exact hsame ▸ hfunction

def Merged (units : List UnitSpan) : Prop := units.IsChain fun u v => ¬ (u.isOther ∧ v.isOther)

theorem unitsFrom_merged (nodes : List Tree) (position : Nat) :
    Merged (Tree.unitsFrom dialect source scopes position nodes) := by
  induction nodes generalizing position with
  | nil =>
    rw [Tree.unitsFrom]
    split_ifs
    · exact .singleton _
    · exact .nil
  | cons c cs ih =>
    rw [Tree.unitsFrom]
    cases c.topLevelName? dialect source with
    | none => exact ih position
    | some name =>
      have hfunction : Merged (.function (Tree.qualify scopes name) c.span ::
          Tree.unitsFrom dialect source scopes c.span.stop cs) := by
        refine List.isChain_cons.mpr ⟨?_, ih c.span.stop⟩
        simp [UnitSpan.isOther]
      dsimp only
      split_ifs
      · exact .cons_cons (by simp [UnitSpan.isOther]) hfunction
      · exact hfunction

end FunctionPairs.Syntax

namespace FunctionPairs.LanguageModel

theorem unitOf_text (source : Bytes) (u : Syntax.UnitSpan) :
    (unitOf source u).text = Syntax.textAt source u.span := by
  cases u <;> rfl

theorem topLevelUnits_of_parsed (m : LanguageModel) (fs : FileSystem) {p : Path}
    {file : Syntax.ParsedFile} (h : (m.parseFile fs p).value = .ok file) :
    (m.topLevelUnits fs p).value = .ok (file.topLevelUnits.map (unitOf file.source)) := by
  rw [topLevelUnits, Logged.value_bind, h]
  rfl

end FunctionPairs.LanguageModel

namespace FunctionPairs.Syntax

/-- The pieces of a file tile it from its first byte to its last, with no two texts side by side;
the functions among them are the nodes below the root that define one, in order; and the texts of
the pieces, each decoded by itself, make up the text of the whole file, whatever its bytes are. -/
theorem topLevelUnits_tiles (file : ParsedFile)
    (h : Delivered file.source file.root.children) :
    Tiles 0 file.topLevelUnits file.source.length ∧
      Merged file.topLevelUnits ∧
      file.topLevelUnits.filterMap UnitSpan.function? =
        file.root.children.filterMap (·.topLevelFunction? file.dialect file.source
          (file.root.scopeName? file.dialect file.source).toList) ∧
      ∀ (m : LanguageModel) (fs : FileSystem) (p : Path), (m.parseFile fs p).value = .ok file →
        ∃ units, (m.topLevelUnits fs p).value = .ok units ∧
          units.map SourceUnit.text = file.topLevelUnits.map (fun u => file.text u.span) ∧
          String.join (units.map SourceUnit.text) = Utf8.decode file.source := by
  refine ⟨?_, unitsFrom_merged .., unitsFrom_functions .., ?_⟩
  · exact unitsFrom_tiles _ _ _ _ 0 h (fun _ _ => Nat.zero_le _) (Nat.zero_le _)
  · intro m fs p hparsed
    have htexts : (file.topLevelUnits.map (LanguageModel.unitOf file.source)).map SourceUnit.text =
        file.topLevelUnits.map fun u => file.text u.span := by
      rw [List.map_map]
      exact List.map_congr_left fun u _ => LanguageModel.unitOf_text file.source u
    refine ⟨_, m.topLevelUnits_of_parsed fs hparsed, htexts, ?_⟩
    rw [htexts]
    exact topLevelUnits_text file.dialect file.source file.root h.toPlaced

def ragged : ParsedFile where
  dialect := .c
  source := [0xE2, 0x82, 0x3B, 0x66, 0x28, 0x29, 0x7B, 0x7D, 0xFF]
  root := .node (.other "translation_unit") .plain ⟨0, 9⟩
    [.node .fault .plain ⟨0, 2⟩ [],
      .node .functionDefinition .plain ⟨3, 8⟩
        [.node .functionDeclarator .declarator ⟨3, 6⟩ [.node .identifier .declarator ⟨3, 4⟩ []],
          .node (.other "compound_statement") .plain ⟨6, 8⟩ []],
      .node .fault .plain ⟨8, 9⟩ []]
  sound := false

def raggedC : LanguageModel :=
  ⟨.c, ⟨[.c]⟩, fun _ _ => (ragged.root, false), ⟨[], 0⟩, 0, .standard⟩

def raggedFiles : FileSystem := ⟨[([Utf8.encode "f"], .file ragged.source false)], []⟩

theorem delivered_ragged : Delivered ragged.source ragged.root.children := by
  have hboundary : ∀ p ∈ [0, 2, 3, 8, 9], Utf8.Boundary ragged.source p := by
    intro p hp
    apply Utf8.boundary_of_not_continuation
    · exact (by decide : ∀ p ∈ [0, 2, 3, 8, 9], p ≤ ragged.source.length) p hp
    · intro b hb
      simp only [List.mem_cons, List.not_mem_nil, or_false] at hp
      rcases hp with rfl | rfl | rfl | rfl | rfl <;> cases hb <;> rfl
  have hspans : ∀ c ∈ ragged.root.children, c.span.start ∈ [0, 2, 3, 8, 9] ∧
      c.span.stop ∈ [0, 2, 3, 8, 9] ∧ c.span.start < c.span.stop := by
    simp [ragged, Tree.children, Tree.span]
  refine ⟨⟨?_, ?_, ?_, ?_⟩, fun c hc => (hspans c hc).2.2⟩
  · simp [ragged, Tree.children, Tree.span]
  · exact fun c hc => (hspans c hc).2.2.le
  · exact fun c hc => hboundary _ (hspans c hc).1
  · exact fun c hc => hboundary _ (hspans c hc).2.1

theorem topLevelUnits_tiles_ragged :
    Delivered ragged.source ragged.root.children ∧
      ragged.topLevelUnits = [.other ⟨0, 3⟩, .function "f" ⟨3, 8⟩, .other ⟨8, 9⟩] ∧
      Tiles 0 ragged.topLevelUnits 9 ∧ Merged ragged.topLevelUnits ∧
      (raggedC.parseFile raggedFiles (.ofString "f")).value = .ok ragged ∧
      ∃ units, (raggedC.topLevelUnits raggedFiles (.ofString "f")).value = .ok units ∧
        String.join (units.map SourceUnit.text) = "\uFFFD;f()\x7b\x7d\uFFFD" := by
  obtain ⟨htiles, hmerged, -, htext⟩ := topLevelUnits_tiles ragged delivered_ragged
  have hparsed : (raggedC.parseFile raggedFiles (.ofString "f")).value = .ok ragged := by cbv
  obtain ⟨units, hunits, -, hjoin⟩ := htext raggedC raggedFiles _ hparsed
  refine ⟨delivered_ragged, by cbv, htiles, hmerged, hparsed, units, hunits, ?_⟩
  rw [hjoin]
  cbv

end FunctionPairs.Syntax
