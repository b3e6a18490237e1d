import FunctionPairs.Proofs.Syntax.Agreement
import Mathlib.Logic.Relation

/-!
Names of functions. A definition is named by the scopes around it, outermost first, and then by its
declarator, and the scopes around a definition are those among the nodes on the way to its address.
So a node put around trees sets its name in front of the names of all functions in them if it is a
scope with a name, and changes nothing about them if it is not. Below a declarator the name is found
through any number of wrappers.
-/
namespace FunctionPairs.Syntax

theorem Tree.qualify_cons (scope : String) (scopes : List String) (name : String) :
    qualify (scope :: scopes) name = scope ++ "::" ++ qualify scopes name :=
  String.intercalate_cons_of_ne_nil (by simp)

theorem Tree.qualify_nil (name : String) : qualify [] name = name := String.intercalate_singleton

def FunctionSpan.within (scope : Option String) (f : FunctionSpan) : FunctionSpan :=
  match scope with
  | some n => { f with name := n ++ "::" ++ f.name }
  | none => f

namespace Tree

open located (locatedIn)

def enclosing (t : Tree) : List Nat → List Tree
  | [] => []
  | n :: address => t :: t.children[n]?.elim [] fun c => c.enclosing address

/-- The outer node is a declarator that goes on with the inner one: the one in declarator place, or
else the first child. -/
def Wraps (outer inner : Tree) : Prop :=
  outer.kind.isWrapper = true ∧
    (outer.at? .declarator = some inner ∨
      outer.at? .declarator = none ∧ outer.children.head? = some inner)

variable (dialect : Dialect) (source : Bytes)

def scopesAround (t : Tree) (address : List Nat) : List String :=
  (t.enclosing address).filterMap (scopeName? dialect source)

theorem scopesAround_cons {t c : Tree} {n : Nat} (h : t.children[n]? = some c)
    (address : List Nat) : t.scopesAround dialect source (n :: address) =
      (t.scopeName? dialect source).toList ++ c.scopesAround dialect source address := by
  rw [scopesAround, enclosing, h, List.filterMap_cons]
  cases t.scopeName? dialect source <;> rfl

theorem cons_mem_locatedIn {inner : List String} {cs : List Tree} {n : Nat} {address : List Nat}
    {d : Definition} : (n :: address, d) ∈ locatedIn dialect source inner 0 cs ↔
      ∃ c, cs[n]? = some c ∧ (address, d) ∈ located dialect source inner c := by
  rw [mem_locatedIn]
  constructor
  · rintro ⟨j, c, ⟨below, node⟩, hc, hd, he⟩
    cases he
    exact ⟨c, by rwa [Nat.zero_add], hd⟩
  · rintro ⟨c, hc, hd⟩
    exact ⟨n, c, (address, d), hc, hd, by rw [Nat.zero_add]⟩

theorem mem_located {scopes : List String} {t : Tree} {address : List Nat} {d : Definition} :
    (address, d) ∈ located dialect source scopes t ↔
      t.subtreeAt address = some d.node ∧
        d.scopes = scopes ++ t.scopesAround dialect source address := by
  induction t generalizing scopes address with
  | node k p s cs ih =>
    rw [located_eq, List.mem_cons]
    cases address with
    | nil =>
      have hbelow : ([], d) ∉ locatedIn dialect source
          (scopesInside dialect source scopes (node k p s cs)) 0 cs := by
        rw [mem_locatedIn]
        rintro ⟨j, c, e, -, -, he⟩
        cases he
      obtain ⟨around, node⟩ := d
      simp [subtreeAt, scopesAround, enclosing, children, hbelow, and_comm, eq_comm]
    | cons n address =>
      have hchild : ∀ c ∈ cs, (address, d) ∈
          located dialect source (scopesInside dialect source scopes (node k p s cs)) c ↔
            c.subtreeAt address = some d.node ∧
              d.scopes = scopesInside dialect source scopes (node k p s cs) ++
                c.scopesAround dialect source address := fun c hc => ih c hc
      rw [subtreeAt, or_iff_right (by simp), cons_mem_locatedIn]
      cases hc : (node k p s cs).children[n]? with
      | none => simp
      | some c =>
        rw [scopesAround_cons dialect source hc, ← List.append_assoc, ← scopesInside,
          Option.bind_some, ← hchild c (List.mem_of_getElem? hc)]
        simp

theorem function?_eq_some {d : Definition} {f : FunctionSpan} :
    d.function? source = some f ↔ d.node.kind = .functionDefinition ∧
      ∃ name, d.node.declaredName? source = some name ∧
        f = ⟨qualify d.scopes name, d.node.span⟩ := by
  obtain ⟨scopes, node⟩ := d
  by_cases h : node.kind = .functionDefinition
  · rw [function?_of_definition source scopes h, Option.map_eq_some_iff, and_iff_right h]
    exact exists_congr fun name => and_congr_right' eq_comm
  · simp [Definition.function?, h]

theorem mem_functionsAt {root : Tree} {address : List Nat} {f : FunctionSpan} :
    (address, f) ∈ root.functionsAt dialect source ↔ ∃ d name,
      root.subtreeAt address = some d ∧ d.kind = .functionDefinition ∧
        d.declaredName? source = some name ∧
          f = ⟨qualify (root.scopesAround dialect source address) name, d.span⟩ := by
  rw [functionsAt, functionsAmong, List.mem_filterMap]
  constructor
  · rintro ⟨⟨address', d⟩, hd, hf⟩
    obtain ⟨f', hf', he⟩ := Option.map_eq_some_iff.mp hf
    cases he
    obtain ⟨hnode, hscopes⟩ := (mem_located dialect source).mp hd
    obtain ⟨hkind, name, hname, rfl⟩ := (function?_eq_some source).mp hf'
    exact ⟨d.node, name, hnode, hkind, hname, by rw [hscopes, List.nil_append]⟩
  · rintro ⟨d, name, hnode, hkind, hname, rfl⟩
    have hlisted : (address, ⟨root.scopesAround dialect source address, d⟩) ∈
        located dialect source [] root := (mem_located dialect source).mpr ⟨hnode, rfl⟩
    have hfunction := (function?_eq_some source (d := ⟨root.scopesAround dialect source address, d⟩)).mpr
      ⟨hkind, name, hname, rfl⟩
    exact ⟨_, hlisted, by rw [hfunction]; rfl⟩

theorem nodesWithin_append (outer inner : List String) (t : Tree) :
    nodesWithin dialect source (outer ++ inner) t =
      (nodesWithin dialect source inner t).map fun d => ⟨outer ++ d.scopes, d.node⟩ := by
  induction t generalizing inner with
  | node k p s cs ih =>
    rw [nodesWithin_eq, nodesWithin_eq, List.map_cons, List.map_flatMap, scopesInside,
      List.append_assoc, ← scopesInside]
    congr 1
    exact List.flatMap_congr fun c hc => ih c hc _

theorem function?_within (scope : Option String) (d : Definition) :
    Definition.function? source ⟨scope.toList ++ d.scopes, d.node⟩ =
      (d.function? source).map (FunctionSpan.within scope) := by
  obtain ⟨scopes, node⟩ := d
  by_cases h : node.kind = .functionDefinition
  · rw [function?_of_definition source _ h, function?_of_definition source _ h, Option.map_map]
    congr 1
    funext name
    cases scope with
    | none => rfl
    | some n => rw [Option.toList_some, List.singleton_append, qualify_cons]; rfl
  · simp [Definition.function?, h]

theorem functions_node (t : Tree) :
    t.functions dialect source = (Definition.function? source ⟨[], t⟩).toList ++
      (t.children.flatMap (functions dialect source)).map
        (FunctionSpan.within (t.scopeName? dialect source)) := by
  have hchildren : ∀ c : Tree, (nodesWithin dialect source
      (t.scopeName? dialect source).toList c).filterMap (Definition.function? source) =
        (c.functions dialect source).map (FunctionSpan.within (t.scopeName? dialect source)) := by
    intro c
    have hc := nodesWithin_append dialect source (t.scopeName? dialect source).toList [] c
    rw [List.append_nil] at hc
    rw [hc, functions_eq, List.filterMap_map, List.map_filterMap]
    apply List.filterMap_congr
    intro d _
    exact function?_within source _ d
  rw [functions_eq, nodesWithin_eq, scopesInside, List.nil_append, List.filterMap_cons,
    List.filterMap_flatMap, List.map_flatMap]
  simp only [hchildren]
  cases Definition.function? source ⟨[], t⟩ <;> rfl

theorem inPlace_eq (cs : List Tree) (otherwise : Option String) :
    declaratorName.inPlace source cs otherwise =
      match cs.find? fun c => c.place == .declarator with
      | some c => c.declaratorName source
      | none => otherwise := by
  induction cs with
  | nil => rfl
  | cons c cs ih =>
    rw [declaratorName.inPlace, ih]
    by_cases h : c.place = .declarator
    · rw [if_pos h, List.find?_cons_of_pos (by simpa using h)]
    · rw [if_neg h, List.find?_cons_of_neg (by simpa using h)]

theorem Wraps.declaratorName {outer inner : Tree} (h : outer.Wraps inner) :
    outer.declaratorName source = inner.declaratorName source := by
  obtain ⟨k, p, s, cs⟩ := outer
  obtain ⟨hwrapper, hinner⟩ := h
  have hname : k.isName = false := by
    cases k <;> first | rfl | cases hwrapper
  have hwrapper' : k.isWrapper = true := hwrapper
  rw [Tree.declaratorName, hname, hwrapper', inPlace_eq]
  rcases hinner with hplace | ⟨hplace, hfirst⟩
  · rw [show cs.find? _ = _ from hplace]
    rfl
  · rw [show cs.find? _ = _ from hplace]
    obtain ⟨others, rfl⟩ : ∃ others, cs = inner :: others := List.head?_eq_some_iff.mp hfirst
    rfl

theorem declaratorName_wrapped {outer inner : Tree} (h : Relation.ReflTransGen Wraps outer inner) :
    outer.declaratorName source = inner.declaratorName source := by
  induction h with
  | refl => rfl
  | tail _ hwraps ih => rw [ih, hwraps.declaratorName]

def scopeKinds : List Kind := [.namespaceDefinition, .classSpecifier, .structSpecifier, .unionSpecifier]

theorem isScope_cpp (k : Kind) : k.isScope .cpp = true ↔ k ∈ scopeKinds := by
  cases k <;> simp [Kind.isScope, scopeKinds]

theorem scopeName?_cpp {t : Tree} {n : String} : t.scopeName? .cpp source = some n ↔
    t.kind ∈ scopeKinds ∧ ∃ c, t.at? .name = some c ∧ Text.trim (textAt source c.span) = n := by
  rw [scopeName?, ← isScope_cpp]
  split_ifs with h <;> simp [h, Option.map_eq_some_iff]

theorem scopeName?_c (t : Tree) : t.scopeName? .c source = none := if_neg Bool.false_ne_true

theorem scopesAround_c (t : Tree) (address : List Nat) : t.scopesAround .c source address = [] :=
  List.filterMap_eq_nil_iff.mpr fun c _ => scopeName?_c source c

end Tree

open FunctionPairs.Syntax.Tree

/-- How functions are named. In C++ the name of a definition is made up of the names of the named
namespaces, classes, structs and unions around it, outermost first, and of its declarator; in C it
is the name of the declarator alone. A scope with a name, put around trees, sets its name in front
of the names of all functions in them and changes nothing else; any other node adds at most itself.
And however many wrappers are put around a declarator, it has the name that it had. -/
theorem functions_qualified (source : Bytes) :
    (∀ root : Tree, (root.functionsAt .cpp source).map Prod.snd = root.functions .cpp source ∧
      ∀ address f, (address, f) ∈ root.functionsAt .cpp source ↔ ∃ d name,
        root.subtreeAt address = some d ∧ d.kind = .functionDefinition ∧
          d.declaredName? source = some name ∧
            f = ⟨"::".intercalate (root.scopesAround .cpp source address ++ [name]), d.span⟩) ∧
      (∀ (t : Tree) n, t.scopeName? .cpp source = some n ↔ t.kind ∈ scopeKinds ∧
        ∃ c, t.at? .name = some c ∧ Text.trim (textAt source c.span) = n) ∧
      (∀ (t : Tree) n, t.scopeName? .cpp source = some n →
        t.functions .cpp source = (t.children.flatMap (functions .cpp source)).map
          fun f => ⟨n ++ "::" ++ f.name, f.span⟩) ∧
      (∀ t : Tree, t.scopeName? .cpp source = none →
        t.functions .cpp source = (Definition.function? source ⟨[], t⟩).toList ++
          t.children.flatMap (functions .cpp source)) ∧
      (∀ root : Tree, (root.functionsAt .c source).map Prod.snd = root.functions .c source ∧
        ∀ address f, (address, f) ∈ root.functionsAt .c source ↔ ∃ d name,
          root.subtreeAt address = some d ∧ d.kind = .functionDefinition ∧
            d.declaredName? source = some name ∧ f = ⟨name, d.span⟩) ∧
      ∀ outer inner : Tree, Relation.ReflTransGen Wraps outer inner →
        outer.declaratorName source = inner.declaratorName source := by
  refine ⟨?_, ?_, ?_, ?_, ?_, ?_⟩
  · exact fun root => ⟨map_snd_functionsAt .cpp source root,
      fun address f => mem_functionsAt .cpp source⟩
  · exact fun t n => scopeName?_cpp source
  · intro t n hn
    have hkind : t.kind ≠ .functionDefinition := by
      rintro hkind
      have hscope := ((scopeName?_cpp source).mp hn).1
      rw [hkind] at hscope
      exact absurd hscope (by decide)
    have hown : Definition.function? source ⟨[], t⟩ = none := if_neg hkind
    rw [functions_node, hown, hn]
    rfl
  · intro t hnone
    rw [functions_node, hnone]
    exact congrArg _ (List.map_id _)
  · intro root
    refine ⟨map_snd_functionsAt .c source root, fun address f => ?_⟩
    rw [mem_functionsAt]
    simp only [scopesAround_c, qualify_nil]
  · exact fun outer inner => declaratorName_wrapped source

def deepSource : Bytes := Utf8.encode "namespace a\x7bnamespace\x7bclass B\x7bint*(f)()\x7b\x7d\x7d;\x7d\x7d"

def deepName : Tree := .node .identifier .plain ⟨35, 36⟩ []

def deepDeclarator : Tree :=
  .node .pointerDeclarator .declarator ⟨33, 39⟩
    [.node .functionDeclarator .declarator ⟨34, 39⟩
      [.node .parenthesizedDeclarator .declarator ⟨34, 37⟩ [deepName],
        .node (.other "parameter_list") .plain ⟨37, 39⟩ []]]

def namelessScope : Tree :=
  .node .namespaceDefinition .plain ⟨12, 44⟩
    [.node .classSpecifier .plain ⟨22, 42⟩
      [.node (.other "type_identifier") .name ⟨28, 29⟩ [],
        .node .functionDefinition .plain ⟨30, 41⟩ [deepDeclarator]]]

def namedScope : Tree :=
  .node .namespaceDefinition .plain ⟨0, 45⟩
    [.node (.other "namespace_identifier") .name ⟨10, 11⟩ [], namelessScope]

theorem functions_qualified_deep :
    Relation.ReflTransGen Wraps deepDeclarator deepName ∧
      deepDeclarator.declaratorName deepSource = deepName.declaratorName deepSource ∧
      namelessScope.scopeName? .cpp deepSource = none ∧
      namelessScope.functions .cpp deepSource = [⟨"B::f", ⟨30, 41⟩⟩] ∧
      namedScope.scopeName? .cpp deepSource = some "a" ∧
      namedScope.functions .cpp deepSource = [⟨"a::B::f", ⟨30, 41⟩⟩] := by
  obtain ⟨-, -, hscope, hother, -, hwrapped⟩ := functions_qualified deepSource
  have hwraps : Relation.ReflTransGen Wraps deepDeclarator deepName :=
    .head ⟨rfl, .inl rfl⟩ (.head ⟨rfl, .inl rfl⟩ (.head ⟨rfl, .inr ⟨rfl, rfl⟩⟩ .refl))
  have hnameless : namelessScope.scopeName? .cpp deepSource = none := rfl
  have hnamed : namedScope.scopeName? .cpp deepSource = some "a" := by cbv
  have hclass : namelessScope.children.flatMap (functions .cpp deepSource) =
      [⟨"B::f", ⟨30, 41⟩⟩] := by cbv
  have hinner : namedScope.children.flatMap (functions .cpp deepSource) =
      [⟨"B::f", ⟨30, 41⟩⟩] := by cbv
  refine ⟨hwraps, hwrapped _ _ hwraps, hnameless, ?_, hnamed, ?_⟩
  · rw [hother namelessScope hnameless, hclass]
    rfl
  · rw [hscope namedScope "a" hnamed, hinner]
    rfl

end FunctionPairs.Syntax
