import FunctionPairs.Proofs.Syntax.Addresses
import FunctionPairs.Proofs.Syntax.Tiling
import Mathlib.Data.List.Forall2

/-!
The two ways of finding functions side by side. The search over the whole tree lists every function
once, in document order, each at the address of its definition. Those whose definition is a child of
the root, or the first one that a template below the root wraps, are in turn the functions that the
file is cut at, under the same names: a definition as it stands, a wrapped one with its template.
-/
namespace FunctionPairs.Syntax

def Definition.function? (source : Bytes) (d : Definition) : Option FunctionSpan :=
  if d.node.kind = .functionDefinition then
    (d.name? source).map fun name => ⟨name, d.node.span⟩
  else none

namespace Tree

open located (locatedIn)

def Nested (t : Tree) : Prop :=
  ∀ d ∈ t.children, t.span.start ≤ d.span.start ∧ d.span.stop ≤ t.span.stop

variable (dialect : Dialect) (source : Bytes)

def functionsAmong (nodes : List (List Nat × Definition)) : List (List Nat × FunctionSpan) :=
  nodes.filterMap fun e => (e.2.function? source).map fun f => (e.1, f)

def functionsAt (root : Tree) : List (List Nat × FunctionSpan) :=
  functionsAmong source (root.located dialect source [])

def wrapped? (t : Tree) : Option Nat :=
  if dialect = .cpp ∧ t.kind = .templateDeclaration then
    t.children.findIdx? fun d => d.kind == .functionDefinition
  else none

/-- Whether an address leads from a node to itself or to the definition that it wraps. -/
def opens (c : Tree) : List Nat → Bool
  | [] => true
  | [k] => c.wrapped? dialect == some k
  | _ => false

/-- Whether an address leads to a child of the root or to the definition that such a child wraps. -/
def isTopLevel (root : Tree) : List Nat → Bool
  | [] => false
  | n :: address => root.children[n]?.any fun c => c.opens dialect address

structure Presents (c : Tree) (piece : FunctionSpan) (e : List Nat × FunctionSpan) : Prop where
  name : piece.name = e.2.name
  span : piece.span = c.span
  same : e.1 = [] → e.2.span = piece.span
  within : piece.span.start ≤ e.2.span.start ∧ e.2.span.stop ≤ piece.span.stop

theorem functionsAmong_append (ds es : List (List Nat × Definition)) :
    functionsAmong source (ds ++ es) = functionsAmong source ds ++ functionsAmong source es :=
  List.filterMap_append

theorem functionsAmong_cons (n : Nat) (ds : List (List Nat × Definition)) :
    functionsAmong source (ds.map (Prod.map (n :: ·) id)) =
      (functionsAmong source ds).map (Prod.map (n :: ·) id) := by
  simp [functionsAmong, List.filterMap_map, List.map_filterMap, Function.comp_def]

theorem filter_functionsAmong (p : List Nat → Bool) (ds : List (List Nat × Definition)) :
    (functionsAmong source ds).filter (fun e => p e.1) =
      functionsAmong source (ds.filter fun e => p e.1) := by
  rw [functionsAmong, functionsAmong, List.filter_filterMap, List.filterMap_filter]
  apply List.filterMap_congr
  intro e _
  cases e.2.function? source <;> simp [Option.filter]

theorem functions_eq (root : Tree) : root.functions dialect source =
    (root.nodesWithin dialect source []).filterMap (Definition.function? source) := by
  rw [functions, definitions, List.filterMap_filter]
  apply List.filterMap_congr
  intro d _
  rw [Definition.function?, Definition.name?]
  cases d.node.at? .declarator <;> simp

/-- The definitions that are captured, in document order, have the functions of the file among
them: those whose name is found. -/
theorem functions_captured (root : Tree) :
    ((root.functions dialect source).map FunctionSpan.span).Sublist
      (((root.functionCaptures dialect source).filter (·.label = "fn")).map Capture.span) := by
  have hcaptured : ((root.functionCaptures dialect source).filter (·.label = "fn")).map
      Capture.span = (root.definitions dialect source).map fun d => d.node.span := by
    rw [functionCaptures, List.filter_flatMap, List.map_flatMap, List.map_eq_flatMap]
    refine List.flatMap_congr fun d hd => ?_
    rw [definitions, List.mem_filter, Bool.and_eq_true, Option.isSome_iff_exists] at hd
    obtain ⟨-, -, declarator, hdeclarator⟩ := hd
    simp [hdeclarator]
  have hnamed : (root.functions dialect source).map FunctionSpan.span =
      ((root.definitions dialect source).filter fun d => (d.name? source).isSome).map
        fun d => d.node.span := by
    rw [functions, List.map_filterMap, ← List.filterMap_eq_map, List.filterMap_filter]
    refine List.filterMap_congr fun d _ => ?_
    cases d.name? source <;> rfl
  rw [hcaptured, hnamed]
  exact List.filter_sublist.map _

theorem map_snd_functionsAt (root : Tree) :
    (root.functionsAt dialect source).map Prod.snd = root.functions dialect source := by
  rw [functions_eq, ← map_snd_located, functionsAt, functionsAmong, List.map_filterMap,
    List.filterMap_map]
  congr 1
  funext e
  simp [Function.comp_def]

theorem functionsAt_ascending (root : Tree) :
    (root.functionsAt dialect source).Pairwise fun d e => d.1 < e.1 := by
  apply List.pairwise_filterMap.mpr
  apply (located_ascending dialect source [] root).imp
  rintro d e hde _ hd _ he
  obtain ⟨f, -, rfl⟩ := Option.map_eq_some_iff.mp hd
  obtain ⟨g, -, rfl⟩ := Option.map_eq_some_iff.mp he
  exact hde

theorem definition_of_mem_functionsAt {root : Tree} {e : List Nat × FunctionSpan}
    (h : e ∈ root.functionsAt dialect source) :
    ∃ d, root.subtreeAt e.1 = some d ∧ d.kind = .functionDefinition ∧ d.span = e.2.span := by
  obtain ⟨d, hd, hentry⟩ := List.mem_filterMap.mp h
  obtain ⟨f, hf, rfl⟩ := Option.map_eq_some_iff.mp hentry
  rw [Definition.function?] at hf
  split_ifs at hf with hkind
  obtain ⟨name, -, rfl⟩ := Option.map_eq_some_iff.mp hf
  exact ⟨d.2.node, subtreeAt_of_mem_located dialect source hd, hkind, rfl⟩

theorem filter_opens (scopes : List String) (c : Tree) :
    (located dialect source scopes c).filter (fun e => c.opens dialect e.1) =
      ([], ⟨scopes, c⟩) :: ((c.wrapped? dialect).bind fun k => c.children[k]?.map fun d =>
        ([k], ⟨scopesInside dialect source scopes c, d⟩)).toList := by
  rw [located_eq, List.filter_cons_of_pos rfl]
  congr 1
  cases hwrapped : c.wrapped? dialect with
  | none =>
    apply filter_locatedIn_eq_nil dialect source (c.opens dialect)
    intro j address
    cases address <;> simp [opens, hwrapped]
  | some k =>
    have hsame : ∀ e ∈ locatedIn dialect source (scopesInside dialect source scopes c) 0 c.children,
        c.opens dialect e.1 = (e.1 == [0 + k]) := by
      intro e he
      obtain ⟨j, c', ⟨address, d⟩, -, -, rfl⟩ := (mem_locatedIn dialect source).mp he
      cases address <;> simp [opens, hwrapped, eq_comm]
    rw [List.filter_congr hsame, filter_locatedIn]
    simp [Option.toList_map]

theorem topLevelDefinition?_eq (c : Tree) :
    c.topLevelDefinition? dialect = if c.kind = .functionDefinition then some c
      else (c.wrapped? dialect).bind fun k => c.children[k]? := by
  unfold topLevelDefinition?
  split
  · rename_i hkind
    rw [if_pos hkind]
  · rename_i hkind
    simp [wrapped?, hkind, List.find?_eq_bind_findIdx?_getElem?]
  · rename_i hdefinition htemplate
    rw [if_neg hdefinition, wrapped?, if_neg fun h => htemplate h.2 h.1, Option.bind_none]

def declaredName? (d : Tree) : Option String :=
  (d.at? .declarator).bind fun declarator => declarator.declaratorName source

theorem function?_of_definition (scopes : List String) {d : Tree}
    (h : d.kind = .functionDefinition) : Definition.function? source ⟨scopes, d⟩ =
      (d.declaredName? source).map fun name => ⟨qualify scopes name, d.span⟩ := by
  rw [Definition.function?, if_pos h, Definition.name?, declaredName?]
  cases d.at? .declarator <;> simp [Option.map_map, Function.comp_def]

theorem functionsAmong_definition (scopes : List String) (address : List Nat) {d : Tree}
    (h : d.kind = .functionDefinition) :
    functionsAmong source [(address, ⟨scopes, d⟩)] = ((d.declaredName? source).map
      fun name => (address, ⟨qualify scopes name, d.span⟩)).toList := by
  rw [functionsAmong, List.filterMap_cons, function?_of_definition source scopes h]
  cases d.declaredName? source <;> rfl

theorem functionsAmong_cons_of_ne (scopes : List String) (address : List Nat) {d : Tree}
    (h : d.kind ≠ .functionDefinition) (ds : List (List Nat × Definition)) :
    functionsAmong source ((address, ⟨scopes, d⟩) :: ds) = functionsAmong source ds := by
  have hnone : Definition.function? source ⟨scopes, d⟩ = none := if_neg h
  exact List.filterMap_cons_none (by rw [hnone, Option.map_none])

theorem child_of_wrapped {c : Tree} {k : Nat} (h : c.wrapped? dialect = some k) :
    ∃ d, c.children[k]? = some d ∧ d.kind = .functionDefinition ∧
      c.kind = .templateDeclaration := by
  rw [wrapped?] at h
  split_ifs at h with hc
  obtain ⟨hlt, hkind, -⟩ := List.findIdx?_eq_some_iff_getElem.mp h
  exact ⟨c.children[k], List.getElem?_eq_getElem hlt, eq_of_beq hkind, hc.2⟩

theorem scopesInside_template (scopes : List String) {c : Tree}
    (h : c.kind = .templateDeclaration) : scopesInside dialect source scopes c = scopes := by
  cases dialect <;> simp [scopesInside, scopeName?, h, Kind.isScope]

theorem presents_located (scopes : List String) {c : Tree} (hc : c.Nested) :
    List.Forall₂ c.Presents (c.topLevelFunction? dialect source scopes).toList
      ((functionsAmong source (located dialect source scopes c)).filter
        fun e => c.opens dialect e.1) := by
  rw [filter_functionsAmong, filter_opens, topLevelFunction?, topLevelName?, topLevelDefinition?_eq]
  by_cases hkind : c.kind = .functionDefinition
  · have hwrapped : c.wrapped? dialect = none := by simp [wrapped?, hkind]
    rw [if_pos hkind, hwrapped, Option.bind_none, Option.toList_none,
      functionsAmong_definition source scopes [] hkind]
    change List.Forall₂ _ ((c.declaredName? source).map _).toList _
    cases c.declaredName? source with
    | none => exact .nil
    | some name => exact .cons ⟨rfl, rfl, fun _ => rfl, le_rfl, le_rfl⟩ .nil
  · rw [if_neg hkind, functionsAmong_cons_of_ne source scopes [] hkind]
    cases hwrapped : c.wrapped? dialect with
    | none => exact .nil
    | some k =>
      obtain ⟨d, hchild, hdefinition, htemplate⟩ := child_of_wrapped dialect hwrapped
      have hwithin := hc d (List.mem_of_getElem? hchild)
      rw [Option.bind_some, Option.bind_some, hchild, Option.map_some, Option.toList_some,
        scopesInside_template dialect source scopes htemplate,
        functionsAmong_definition source scopes [k] hdefinition]
      change List.Forall₂ _ ((d.declaredName? source).map _).toList _
      cases d.declaredName? source with
      | none => exact .nil
      | some name =>
        have hdeeper : [k] ≠ [] := List.cons_ne_nil k []
        exact .cons ⟨rfl, rfl, fun h => absurd h hdeeper, hwithin⟩ .nil

/-- A top-level piece against a function of the tree: the address leads below the child of the root
that the piece is. -/
def Corresponds (root : Tree) (piece : FunctionSpan) (e : List Nat × FunctionSpan) : Prop :=
  ∃ n address c, e.1 = n :: address ∧ root.children[n]? = some c ∧ c.Presents piece (address, e.2)

theorem corresponds_locatedIn (root : Tree) (scopes : List String) (cs : List Tree) (n : Nat)
    (hchildren : ∀ j, root.children[n + j]? = cs[j]?) (hnested : ∀ c ∈ cs, c.Nested) :
    List.Forall₂ root.Corresponds (cs.filterMap (·.topLevelFunction? dialect source scopes))
      ((functionsAmong source (locatedIn dialect source scopes n cs)).filter
        fun e => root.isTopLevel dialect e.1) := by
  induction cs generalizing n with
  | nil => exact .nil
  | cons c cs ih =>
    have hc : root.children[n]? = some c := hchildren 0
    have hfirst := presents_located dialect source scopes (hnested c List.mem_cons_self)
    have hrest : ∀ j, root.children[n + 1 + j]? = cs[j]? := by
      intro j
      rw [Nat.add_right_comm, Nat.add_assoc]
      exact hchildren (j + 1)
    have hothers := ih (n + 1) hrest fun d hd => hnested d (List.mem_cons_of_mem c hd)
    have hopens : ((fun e : List Nat × FunctionSpan => root.isTopLevel dialect e.1) ∘
        Prod.map (n :: ·) id) = fun e => c.opens dialect e.1 := by
      funext e
      simp [isTopLevel, hc]
    have hpieces : (c :: cs).filterMap (·.topLevelFunction? dialect source scopes) =
        (c.topLevelFunction? dialect source scopes).toList ++
          cs.filterMap (·.topLevelFunction? dialect source scopes) := by
      rw [List.filterMap_cons]
      cases c.topLevelFunction? dialect source scopes <;> rfl
    rw [locatedIn, functionsAmong_append, functionsAmong_cons, List.filter_append, List.filter_map,
      hopens, hpieces]
    refine List.rel_append (List.forall₂_map_right_iff.mpr (hfirst.imp ?_)) hothers
    intro piece e he
    exact ⟨n, e.1, c, rfl, hc, he⟩

theorem corresponds_functionsAt {root : Tree} (hnested : ∀ c ∈ root.children, c.Nested) :
    List.Forall₂ root.Corresponds
      ((root.topLevelUnits dialect source).filterMap UnitSpan.function?)
      ((root.functionsAt dialect source).filter fun e => root.isTopLevel dialect e.1) := by
  rw [functionsAt, filter_functionsAmong, located_eq, List.filter_cons_of_neg Bool.false_ne_true,
    ← filter_functionsAmong, topLevelUnits, unitsFrom_functions]
  exact corresponds_locatedIn dialect source root _ root.children 0
    (fun j => by rw [Nat.zero_add]) hnested

end Tree

/-- The functions of a file, with the addresses of their definitions: each definition stands where
its address leads, and they are listed in the order of the document, each once. The functions that
the file is cut at correspond, one to one and in order, to those whose definitions are children of
the root or, in C++, the first ones that templates among these wrap. -/
theorem topLevelUnits_agree (file : ParsedFile) (hnested : ∀ c ∈ file.root.children, c.Nested) :
    let listed := file.root.functionsAt file.dialect file.source
    (listed.map Prod.snd = file.functions ∧
      (listed.Pairwise fun d e => d.1 < e.1) ∧
      ∀ e ∈ listed, ∃ d, file.root.subtreeAt e.1 = some d ∧ d.kind = .functionDefinition ∧
        d.span = e.2.span) ∧
      List.Forall₂ file.root.Corresponds (file.topLevelUnits.filterMap UnitSpan.function?)
        (listed.filter fun e => file.root.isTopLevel file.dialect e.1) := by
  refine ⟨⟨?_, ?_, ?_⟩, ?_⟩
  · exact Tree.map_snd_functionsAt file.dialect file.source file.root
  · exact Tree.functionsAt_ascending file.dialect file.source file.root
  · exact fun e he => Tree.definition_of_mem_functionsAt file.dialect file.source he
  · exact Tree.corresponds_functionsAt file.dialect file.source hnested

def templated : ParsedFile where
  dialect := .cpp
  source := Utf8.encode
    "f()\x7b\x7dtemplate<class T>T g()\x7b\x7dnamespace n\x7bint h()\x7b\x7d\x7d"
  root := .node (.other "translation_unit") .plain ⟨0, 51⟩
    [definition ⟨0, 5⟩ 0, .node .templateDeclaration .plain ⟨5, 29⟩
        [.node (.other "template_parameter_list") .plain ⟨13, 22⟩ [], definition ⟨22, 29⟩ 24],
      .node .namespaceDefinition .plain ⟨29, 51⟩
        [.node (.other "namespace_identifier") .name ⟨39, 40⟩ [],
          .node (.other "declaration_list") .plain ⟨40, 51⟩ [definition ⟨41, 50⟩ 45]]]
  sound := true
where
  definition (s : Span) (p : Nat) : Tree :=
    .node .functionDefinition .plain s
      [.node .functionDeclarator .declarator ⟨p, p + 3⟩
        [.node .identifier .declarator ⟨p, p + 1⟩ []]]

theorem topLevelUnits_agree_templated :
    (∀ c ∈ templated.root.children, c.Nested) ∧
      templated.functions = [⟨"f", ⟨0, 5⟩⟩, ⟨"g", ⟨22, 29⟩⟩, ⟨"n::h", ⟨41, 50⟩⟩] ∧
      List.Forall₂ templated.root.Corresponds [⟨"f", ⟨0, 5⟩⟩, ⟨"g", ⟨5, 29⟩⟩]
        [([0], ⟨"f", ⟨0, 5⟩⟩), ([1, 1], ⟨"g", ⟨22, 29⟩⟩)] := by
  have hnested : ∀ c ∈ templated.root.children, c.Nested := by
    simp [templated, templated.definition, Tree.Nested, Tree.children, Tree.span]
  obtain ⟨⟨hfunctions, -, -⟩, hagree⟩ := topLevelUnits_agree templated hnested
  have hlisted : templated.root.functionsAt templated.dialect templated.source =
      [([0], ⟨"f", ⟨0, 5⟩⟩), ([1, 1], ⟨"g", ⟨22, 29⟩⟩), ([2, 1, 0], ⟨"n::h", ⟨41, 50⟩⟩)] := by cbv
  have hpieces : templated.topLevelUnits.filterMap UnitSpan.function? =
      [⟨"f", ⟨0, 5⟩⟩, ⟨"g", ⟨5, 29⟩⟩] := by cbv
  rw [hlisted] at hfunctions hagree
  rw [hpieces] at hagree
  exact ⟨hnested, hfunctions.symm, hagree⟩

end FunctionPairs.Syntax
