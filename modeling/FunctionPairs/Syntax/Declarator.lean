import FunctionPairs.Syntax.Names

/-!
Declarators: a name inside stars, references, parentheses, attributes, parameter lists and
array bounds. A wrapping declarator holds the next one in its place for it, except that
references, parentheses and attributes hold it among their plain children; a comment in front
of it there comes first.
-/
namespace FunctionPairs.Syntax

open TokenTree

/-- A declarator and what is left behind it. `parameters` says whether it has any, even none
between parentheses. -/
structure DeclaratorRead where
  tree : Tree
  rest : Trees
  parameters : Bool

namespace DeclaratorRead

def stop (d : DeclaratorRead) : Nat := d.tree.span.stop

def within (d : DeclaratorRead) (kind : Kind) (start stop : Nat) (rest : Trees) :
    DeclaratorRead :=
  { d with tree := .node kind .plain ⟨start, stop⟩ [d.tree.withPlace .declarator], rest }

end DeclaratorRead

def leadingComment (ts : Trees) : List Tree :=
  match ts.head?.bind TokenTree.comment with
  | some s => [.node (.other "comment") .plain s []]
  | none => []

def skipStarQualifiers : Nat → Trees → Trees
  | 0, ts => ts
  | fuel + 1, ts =>
    match skipAttributes ts.length ts with
    | t :: rest =>
      if t.word?.any qualifierWords.contains then skipStarQualifiers fuel rest else t :: rest
    | [] => []

/-- Whether a parameter list holds names only, as in definitions that declare their
parameters behind it. -/
def isNameList (dialect : Dialect) (ts : Trees) : Bool :=
  !ts.isEmpty && ts.all fun t => (plainWord? dialect t).isSome || t.isSymbol ","

def behindDeclarations? (ts : Trees) : Option Trees :=
  let declared := ts.takeWhile fun t => !t.isBrace
  if (declared.getLast?.map (·.isSymbol ";")).getD false then some (ts.drop declared.length)
  else none

def isOldStyle (dialect : Dialect) (parameters rest : Trees) : Bool :=
  dialect = .c && isNameList dialect parameters && (behindDeclarations? rest).isSome

def declaratorSuffix (dialect : Dialect) : Nat → DeclaratorRead → DeclaratorRead
  | 0, d => d
  | fuel + 1, d =>
    match d.rest with
    | [] => d
    | t :: ts =>
      match t with
      | .group .paren s _ parameters =>
        let (stop, rest) :=
          if isOldStyle dialect parameters ts then (s.stop, ts)
          else skipSuffix dialect ts.length s.stop ts
        declaratorSuffix dialect fuel
          { d.within .functionDeclarator d.tree.span.start stop rest with parameters := true }
      | .group .square s _ _ =>
        if t.isAttribute then
          let wrapped := Tree.node .attributedDeclarator .plain ⟨d.tree.span.start, s.stop⟩
            [d.tree, .node (.other "attribute_declaration") .plain s []]
          declaratorSuffix dialect fuel { d with tree := wrapped, rest := ts }
        else
          declaratorSuffix dialect fuel
            (d.within (.other "array_declarator") d.tree.span.start s.stop ts)
      | _ => d

def memberStar? (dialect : Dialect) : Nat → Trees → Option Trees
  | 0, _ => none
  | fuel + 1, ts =>
    match dialect, ts with
    | .cpp, t :: rest =>
      if (plainWord? .cpp t).isSome then
        let rest := ((angles? .cpp rest).map Prod.snd).getD rest
        match rest with
        | u :: v :: more =>
          if u.isSymbol "::" then
            if v.isSymbol "*" then some more else memberStar? .cpp fuel (v :: more)
          else none
        | _ => none
      else none
    | _, _ => none

def declaratorFrom (dialect : Dialect) : Nat → Trees → Option DeclaratorRead
  | 0, _ => none
  | _, [] => none
  | fuel + 1, t :: ts =>
    let start := t.span.start
    if t.isSymbol "*" then
      (declaratorFrom dialect fuel (skipStarQualifiers ts.length ts)).map fun d =>
        d.within .pointerDeclarator start d.stop d.rest
    else if dialect = .cpp && (t.isSymbol "&" || t.isSymbol "&&") then
      (declaratorFrom dialect fuel ts).map fun d =>
        let wrapped := Tree.node .referenceDeclarator .plain ⟨start, d.stop⟩
          (leadingComment ts ++ [d.tree])
        { d with tree := wrapped }
    else match t.inside? .paren with
      | some inside =>
        match declaratorFrom dialect fuel inside with
        | some ⟨tree, [], parameters⟩ =>
          let wrapped := Tree.node .parenthesizedDeclarator .plain t.span
            (leadingComment inside ++ [tree])
          some (declaratorSuffix dialect ts.length ⟨wrapped, ts, parameters⟩)
        | _ => none
      | none =>
        match memberStar? dialect fuel (t :: ts) with
        | some rest =>
          (declaratorFrom dialect fuel (skipStarQualifiers rest.length rest)).map fun d =>
            let wrapped := Tree.node .qualifiedIdentifier .plain ⟨start, d.stop⟩ [d.tree]
            { d with tree := wrapped }
        | none =>
          (name? dialect (t :: ts)).map fun n =>
            let read : DeclaratorRead := ⟨.node n.kind .plain n.span [], n.rest, n.converts⟩
            if n.converts then read else declaratorSuffix dialect n.rest.length read

def declarator? (dialect : Dialect) (ts : Trees) : Option DeclaratorRead :=
  declaratorFrom dialect (weightOf ts + 1) ts

end FunctionPairs.Syntax
