import FunctionPairs.Syntax.Token
import FunctionPairs.Include
import FunctionPairs.Function

/-!
Syntax trees of C and C++ files, as far as functions, scopes and includes go, and what is read
off them. Functions are found in two ways: by collecting every definition in the tree, and by
walking over the children of the root, which cuts the file into top-level pieces.
-/
namespace FunctionPairs.Syntax

/-- The kinds of nodes that are told apart. `includeDirective` is what the grammars of C and C++ call
`preproc_include`, and `fault` what they call `ERROR`; the others keep their names. -/
inductive Kind
  | functionDefinition
  | templateDeclaration
  | namespaceDefinition
  | classSpecifier
  | structSpecifier
  | unionSpecifier
  | functionDeclarator
  | pointerDeclarator
  | referenceDeclarator
  | parenthesizedDeclarator
  | attributedDeclarator
  | identifier
  | fieldIdentifier
  | destructorName
  | operatorName
  | qualifiedIdentifier
  | templateFunction
  | operatorCast
  | includeDirective
  | stringLiteral
  | systemLibString
  | fault
  | other (name : String)
deriving Repr, DecidableEq

namespace Kind

def isScope (dialect : Dialect) (k : Kind) : Bool :=
  match dialect, k with
  | .c, _ => false
  | .cpp, namespaceDefinition => true
  | .cpp, classSpecifier => true
  | .cpp, structSpecifier => true
  | .cpp, unionSpecifier => true
  | .cpp, _ => false

def isName : Kind → Bool
  | identifier | fieldIdentifier | destructorName | operatorName | qualifiedIdentifier
  | templateFunction | operatorCast => true
  | _ => false

def isWrapper : Kind → Bool
  | functionDeclarator | pointerDeclarator | referenceDeclarator | parenthesizedDeclarator
  | attributedDeclarator => true
  | _ => false

end Kind

inductive Place
  | name
  | declarator
  | plain
deriving Repr, DecidableEq

/-- The named nodes of a syntax tree. Anonymous ones, such as brackets and keywords, are left out,
so the first child of a node is its first named child. -/
inductive Tree
  | node (kind : Kind) (place : Place) (span : Span) (children : List Tree)
deriving Repr

namespace Tree

def kind : Tree → Kind | node k _ _ _ => k
def place : Tree → Place | node _ p _ _ => p
def span : Tree → Span | node _ _ s _ => s
def children : Tree → List Tree | node _ _ _ cs => cs

def at? (t : Tree) (p : Place) : Option Tree := t.children.find? fun c => c.place == p

def withPlace (p : Place) : Tree → Tree | node k _ s cs => node k p s cs

end Tree

def textAt (source : Bytes) (s : Span) : String :=
  Utf8.decode ((source.drop s.start).take (s.stop - s.start))

namespace Tree

/-- Goes down through wrapping declarators to a name. A wrapper holds the next declarator in
its place for it, or else as its first child. -/
def declaratorName (source : Bytes) : Tree → Option String
  | node k _ s cs =>
    if k.isName then
      let name := Text.trim (textAt source s)
      if name.isEmpty then none else some name
    else if k.isWrapper then inPlace cs (first cs)
    else none
where
  inPlace : List Tree → Option String → Option String
    | [], otherwise => otherwise
    | c :: cs, otherwise =>
      if c.place = .declarator then declaratorName source c else inPlace cs otherwise
  first : List Tree → Option String
    | [] => none
    | c :: _ => declaratorName source c

def scopeName? (dialect : Dialect) (source : Bytes) (t : Tree) : Option String :=
  if t.kind.isScope dialect then (t.at? .name).map fun n => Text.trim (textAt source n.span)
  else none

def qualify (scopes : List String) (name : String) : String := "::".intercalate (scopes ++ [name])

end Tree

structure FunctionSpan where
  name : String
  span : Span
deriving Repr, DecidableEq

structure Definition where
  scopes : List String
  node : Tree

namespace Definition

def name? (source : Bytes) (d : Definition) : Option String :=
  (d.node.at? .declarator).bind fun declarator =>
    (declarator.declaratorName source).map (Tree.qualify d.scopes)

end Definition

inductive UnitSpan
  | function (name : String) (span : Span)
  | other (span : Span)
deriving Repr, DecidableEq

def UnitSpan.span : UnitSpan → Span
  | function _ s => s
  | other s => s

structure Capture where
  label : String
  span : Span
deriving Repr, DecidableEq

namespace Tree

def nodesWithin (dialect : Dialect) (source : Bytes) (scopes : List String) :
    Tree → List Definition
  | node k p s cs =>
    let inner :=
      match scopeName? dialect source (node k p s cs) with
      | some n => scopes ++ [n]
      | none => scopes
    ⟨scopes, node k p s cs⟩ :: nodesOf inner cs
where
  nodesOf (inner : List String) : List Tree → List Definition
    | [] => []
    | c :: cs => nodesWithin dialect source inner c ++ nodesOf inner cs

def hasFault (root : Tree) : Bool :=
  (root.nodesWithin .c [] []).any fun d => d.node.kind == .fault

def definitions (dialect : Dialect) (source : Bytes) (root : Tree) : List Definition :=
  (root.nodesWithin dialect source []).filter fun d =>
    d.node.kind == .functionDefinition && (d.node.at? .declarator).isSome

def functions (dialect : Dialect) (source : Bytes) (root : Tree) : List FunctionSpan :=
  (root.definitions dialect source).filterMap fun d =>
    (d.name? source).map fun name => ⟨name, d.node.span⟩

def functionCaptures (dialect : Dialect) (source : Bytes) (root : Tree) : List Capture :=
  (root.definitions dialect source).flatMap fun d =>
    match d.node.at? .declarator with
    | some declarator => [⟨"fn", d.node.span⟩, ⟨"fn.declarator", declarator.span⟩]
    | none => []

def includeCaptures (root : Tree) : List Capture :=
  (root.nodesWithin .c [] []).flatMap fun d =>
    if d.node.kind = .includeDirective then
      d.node.children.filterMap fun c =>
        match c.kind with
        | .stringLiteral => some ⟨"include", c.span⟩
        | .systemLibString => some ⟨"system_include", c.span⟩
        | _ => none
    else []

def isQuote (c : Char) : Bool := c = '"' || c = '<' || c = '>'

def includes (source : Bytes) (root : Tree) : List Include :=
  root.includeCaptures.filterMap fun c =>
    let target := Text.strip isQuote (Text.trim (textAt source c.span))
    if target.isEmpty then none else some ⟨target, c.label = "system_include"⟩

/-- The definition that a child of the root is, or, in C++, that a template wraps. -/
def topLevelDefinition? (dialect : Dialect) (t : Tree) : Option Tree :=
  match t.kind, dialect with
  | .functionDefinition, _ => some t
  | .templateDeclaration, .cpp => t.children.find? fun c => c.kind == .functionDefinition
  | _, _ => none

def topLevelName? (dialect : Dialect) (source : Bytes) (t : Tree) : Option String :=
  (t.topLevelDefinition? dialect).bind fun d =>
    (d.at? .declarator).bind fun declarator => declarator.declaratorName source

def unitsFrom (dialect : Dialect) (source : Bytes) (scopes : List String) (position : Nat) :
    List Tree → List UnitSpan
  | [] => if position < source.length then [.other ⟨position, source.length⟩] else []
  | c :: cs =>
    match c.topLevelName? dialect source with
    | none => unitsFrom dialect source scopes position cs
    | some name =>
      let rest := .function (qualify scopes name) c.span ::
        unitsFrom dialect source scopes c.span.stop cs
      if position < c.span.start then .other ⟨position, c.span.start⟩ :: rest else rest

def topLevelUnits (dialect : Dialect) (source : Bytes) (root : Tree) : List UnitSpan :=
  unitsFrom dialect source (scopeName? dialect source root).toList 0 root.children

end Tree
end FunctionPairs.Syntax
