import FunctionPairs.Syntax.Declarator

/-!
Declarations, statements and the function definitions among them. What is neither a definition
nor a block nor a scope is only searched for what it may hold: records with a body, lambdas,
blocks in parentheses and includes.
-/
namespace FunctionPairs.Syntax

open TokenTree

structure RecordHead where
  name : Option Span
  body : Option (Span × Trees)
  rest : Trees

def behindBases? : Trees → Option Trees
  | [] => none
  | t :: ts =>
    if t.isBrace then some (t :: ts) else if t.isSymbol ";" then none else behindBases? ts

def recordHead (dialect : Dialect) (ts : Trees) : RecordHead :=
  let ts := skipAttributes ts.length ts
  let (name, rest) :=
    match name? dialect ts with
    | some n => (some n.span, n.rest)
    | none => (none, ts)
  let behind := rest.dropWhile (isWord "final")
  let body? :=
    match behind with
    | t :: us => if t.isSymbol ":" then behindBases? us else some behind
    | [] => none
  match body? with
  | some (.group .brace s _ inside :: us) => ⟨name, some (s, inside), us⟩
  | _ => ⟨name, none, rest⟩

def behindEnum (ts : Trees) : Trees := ts.dropWhile fun t => t.isWord "class" || t.isWord "struct"

def recordKind : String → Kind
  | "class" => .classSpecifier
  | "union" => .unionSpecifier
  | _ => .structSpecifier

/-- Whether a name is a type rather than what is declared, by what stands behind it. Behind a
name with parentheses, C has the declared name in them and C++ the parameters. -/
def isTypeBefore (dialect : Dialect) : Trees → Bool
  | [] => false
  | t :: ts =>
    if t.word?.isSome then true
    else if t.isParen then
      match dialect with
      | .c => true
      | .cpp => (ts.head?.map fun u => u.isParen || (u.isSquare && !u.isAttribute)).getD false
    else ["*", "&", "&&"].any (t.isSymbol ·)

/-- Goes past the words and types in front of a declarator; says whether a type was among
them. -/
def specifiers (dialect : Dialect) : Nat → Bool → Trees → Bool × Trees
  | 0, typed, ts => (typed, ts)
  | _, typed, [] => (typed, [])
  | fuel + 1, typed, t :: ts =>
    let named := fun (_ : Unit) =>
      match typeName? dialect (t :: ts) with
      | some n =>
        if !typed && isTypeBefore dialect n.rest then specifiers dialect fuel true n.rest
        else (typed, t :: ts)
      | none => (typed, t :: ts)
    if t.isAttribute then specifiers dialect fuel typed ts
    else match t.word? with
      | none => named ()
      | some w =>
        let call := (ts.head?.map (·.isParen)).getD false
        if qualifierWords.contains w then specifiers dialect fuel typed ts
        else if attributeWords.contains w then
          specifiers dialect fuel typed (if call then ts.drop 1 else ts)
        else if typeWords.contains w then specifiers dialect fuel true ts
        else if typeCallWords.contains w then
          if call then specifiers dialect fuel true (ts.drop 1)
          else specifiers dialect fuel typed ts
        else if !typed && (recordWords dialect).contains w then
          specifiers dialect fuel true (recordHead dialect ts).rest
        else if !typed && w = "enum" then
          specifiers dialect fuel true (recordHead dialect (behindEnum ts)).rest
        else named ()

def behindInitializers? : Nat → Trees → Option Trees
  | 0, _ => none
  | fuel + 1, ts => do
    let n ← name? .cpp ts
    match n.rest with
    | t :: us =>
      if t.isParen || t.isBrace then
        match us.dropWhile (isSymbol "...") with
        | u :: more => if u.isSymbol "," then behindInitializers? fuel more else some (u :: more)
        | [] => none
      else none
    | [] => none

/-- Whether braces initialize a member, by what stands behind them. -/
def isInitializerBefore : Trees → Bool
  | t :: _ => t.isBrace || t.isSymbol "," || t.isSymbol "..."
  | [] => false

def behindHandlers (stop : Nat) : Trees → Nat × Trees
  | t :: u :: v :: ts =>
    if t.isWord "catch" && u.isParen && v.isBrace then behindHandlers v.span.stop ts
    else (stop, t :: u :: v :: ts)
  | ts => (stop, ts)

def holdsStatements (inside : Trees) : Bool :=
  inside.any (·.isSymbol ";") ||
    match inside.reverse with
    | t :: u :: _ => t.isBrace && u.isParen && !(inside.head?.any isSquare)
    | _ => false

structure Ending where
  stop : Nat
  rest : Trees

def block? : Trees → Option Ending
  | t :: ts => if t.isBrace then some ⟨t.span.stop, ts⟩ else none
  | [] => none

/-- The body of a definition in C, with parameters declared in front of it in the old style. -/
def endingC? (d : DeclaratorRead) : Option Ending :=
  match d.rest with
  | t :: _ =>
    if t.isBrace then block? d.rest
    else if d.parameters && t.word?.isSome then (behindDeclarations? d.rest).bind block?
    else none
  | [] => none

/-- A body in C++. Braces are an initial value if they are empty, or hold values, in front of
a semicolon. -/
def bodyCpp? (typed : Bool) (d : DeclaratorRead) (t : TokenTree) (inside ts : Trees) :
    Option Ending :=
  let more := (ts.head?.map fun u => u.isSymbol ";" || u.isSymbol ",").getD false
  let value := if d.parameters then typed && inside.isEmpty else !holdsStatements inside
  if more && value then none else some ⟨t.span.stop, ts⟩

def endingCpp? (typed : Bool) (d : DeclaratorRead) : Option Ending :=
  match d.rest with
  | [] => none
  | t :: ts =>
    match t.inside? .brace with
    | some inside => bodyCpp? typed d t inside ts
    | none =>
      if !d.parameters then none
      else if t.isSymbol ":" then (behindInitializers? ts.length ts).bind block?
      else if t.isWord "try" then do
        let body ←
          match ts with
          | u :: us => if u.isSymbol ":" then behindInitializers? us.length us else some ts
          | [] => none
        let e ← block? body
        let (stop, rest) := behindHandlers e.stop e.rest
        some ⟨stop, rest⟩
      else match ts with
        | u :: v :: rest =>
          if t.isSymbol "=" && (u.isWord "default" || u.isWord "delete") && v.isSymbol ";" then
            some ⟨v.span.stop, rest⟩
          else none
        | _ => none

def ending? (dialect : Dialect) (typed : Bool) (d : DeclaratorRead) : Option Ending :=
  match dialect with
  | .c => endingC? d
  | .cpp => endingCpp? typed d

structure Header where
  declarator : DeclaratorRead
  behindSpecifiers : Trees
  ending : Ending

def header? (dialect : Dialect) (ts : Trees) : Option Header :=
  let (typed, rest) := specifiers dialect ts.length false ts
  if !typed && dialect = .c then none
  else do
    let d ← declarator? dialect rest
    if !typed && !d.parameters then none
    else
      let e ← ending? dialect typed d
      some ⟨d, rest, e⟩

def statement : Trees → Trees × Trees
  | [] => ([], [])
  | t :: ts =>
    if t.isSymbol ";" then ([t], ts)
    else if t.isBranch then ([], t :: ts)
    else
      let (part, rest) := statement ts
      (t :: part, rest)

def openEnd (part : Trees) : List Tree :=
  match part.getLast? with
  | some t => if t.isSymbol ";" then [] else [.node .fault .plain t.span []]
  | none => []

def behindColon : Trees → Trees
  | [] => []
  | t :: ts =>
    if t.isSymbol ":" then ts else if t.isSymbol ";" || t.isBrace then t :: ts else behindColon ts

def skipRequirement : Nat → Trees → Trees
  | 0, ts => ts
  | _, [] => []
  | fuel + 1, t :: ts =>
    let rest :=
      if t.isParen then ts
      else if t.isWord "requires" then
        match ts with
        | u :: v :: us => if u.isParen && v.isBrace then us else if u.isBrace then v :: us else ts
        | us => us
      else ((name? .cpp (t :: ts)).map (·.rest)).getD ts
    match rest with
    | u :: us =>
      if u.isSymbol "&&" || u.isSymbol "||" then skipRequirement fuel us else u :: us
    | [] => []

def behindParameters? (ts : Trees) : Option Trees :=
  (angles? .cpp ts).map fun (_, rest) =>
    match rest with
    | t :: us => if t.isWord "requires" then skipRequirement us.length us else rest
    | [] => []

def lambdaBlock? (ts : Trees) : Option (Trees × Trees) :=
  let ts := ((angles? .cpp ts).map Prod.snd).getD ts
  let ts :=
    match ts with
    | t :: us => if t.isParen then (skipSuffix .cpp us.length t.span.stop us).2 else ts
    | [] => []
  match ts with
  | .group .brace _ _ inside :: rest => some (inside, rest)
  | _ => none

def nameNode (s : Span) : Tree := .node .identifier .name s []

def includeNode (s : Span) (system : Bool) (target : Option Span) : Tree :=
  let children :=
    match target with
    | some place =>
      [Tree.node (if system then .systemLibString else .stringLiteral) .plain place []]
    | none => []
  .node .includeDirective .plain s children

def startsStatement (dialect : Dialect) (ts : Trees) : Bool :=
  match ts with
  | t :: _ =>
    t.isSymbol ";" || t.isBrace ||
      t.word?.any fun w =>
        headerWords.contains w || leadWords.contains w || w = "case" || w = "default" ||
          (statementWords dialect).contains w
  | [] => true

def namespaceHead? (ts : Trees) : Option (Option Span × Span × Trees × Trees) :=
  let ts := skipAttributes ts.length ts
  let name := ts.takeWhile fun t => t.word?.isSome || t.isSymbol "::"
  match ts.drop name.length with
  | .group .brace s _ inside :: rest =>
    some (name.head?.map fun t => ⟨t.span.start, stopOf t.span.stop name⟩, s, inside, rest)
  | _ => none

mutual

def items (dialect : Dialect) : Nat → Trees → List Tree
  | 0, _ => []
  | _, [] => []
  | fuel + 1, t :: ts =>
    let (nodes, rest) := item dialect fuel t ts
    nodes ++ items dialect fuel rest

def item (dialect : Dialect) : Nat → TokenTree → Trees → List Tree × Trees
  | 0, _, ts => ([], ts)
  | fuel + 1, t, ts =>
    match t with
    | .conditional s inside =>
      ([.node (.other "preproc_if") .plain s (items dialect fuel inside)], ts)
    | .group .brace s _ inside =>
      ([.node (.other "compound_statement") .plain s (items dialect fuel inside)], ts)
    | .group _ _ _ _ =>
      if t.isAttribute && startsStatement dialect (skipAttributes ts.length ts) then ([], ts)
      else declaration dialect fuel t ts
    | .leaf token =>
      match token.lexeme with
      | .includeDirective system target => ([includeNode token.span system target], ts)
      | .otherBranch => ([], ts)
      | .symbol ";" => ([], ts)
      | .word w => wordItem dialect fuel w t ts
      | _ => declaration dialect fuel t ts

def wordItem (dialect : Dialect) : Nat → String → TokenTree → Trees → List Tree × Trees
  | 0, _, _, ts => ([], ts)
  | fuel + 1, w, t, ts =>
    let labelled := (ts.head?.map (·.isSymbol ":")).getD false
    if headerWords.contains w then
      match ts.dropWhile fun u => u.isWord "constexpr" || u.isWord "consteval" || u.isSymbol "!" with
      | .group .paren _ _ inside :: rest => (scan dialect fuel inside, rest)
      | rest => ([], rest)
    else if leadWords.contains w then ([], ts)
    else if w = "case" then ([], behindColon ts)
    else if labelled &&
        (w = "default" || (plainWord? dialect t).isSome ||
          (dialect = .cpp && accessWords.contains w)) then
      ([], ts.drop 1)
    else if w = "extern" && (ts.head?.map isText).getD false then
      match ts.drop 1 with
      | u :: us =>
        let (nodes, rest) := item dialect fuel u us
        ([.node (.other "linkage_specification") .plain ⟨t.span.start, u.span.stop⟩ nodes], rest)
      | [] => ([], [])
    else if (statementWords dialect).contains w then
      let (part, rest) := statement (t :: ts)
      (scan dialect fuel part ++ openEnd part, rest)
    else if dialect = .c then declaration dialect fuel t ts
    else match w with
      | "inline" =>
        match ts with
        | u :: us =>
          if u.isWord "namespace" then wordItem dialect fuel "namespace" u us
          else declaration dialect fuel t ts
        | [] => ([], [])
      | "namespace" =>
        match namespaceHead? ts with
        | some (name, s, inside, rest) =>
          ([.node .namespaceDefinition .plain ⟨t.span.start, s.stop⟩
            ((name.map nameNode).toList ++ items dialect fuel inside)], rest)
        | none => ([], (statement ts).2)
      | "template" =>
        match behindParameters? ts with
        | some (u :: us) =>
          let (nodes, rest) := item dialect fuel u us
          let stop := stopOf t.span.stop (used ts rest)
          ([.node .templateDeclaration .plain ⟨t.span.start, stop⟩ nodes], rest)
        | some [] => ([], [])
        | none => ([], (statement ts).2)
      | "friend" =>
        match ts with
        | u :: us =>
          let (nodes, rest) := item dialect fuel u us
          ([.node (.other "friend_declaration") .plain t.span nodes], rest)
        | [] => ([], [])
      | _ => declaration dialect fuel t ts

def declaration (dialect : Dialect) : Nat → TokenTree → Trees → List Tree × Trees
  | 0, _, ts => ([], ts)
  | fuel + 1, t, ts =>
    match header? dialect (t :: ts) with
    | some h =>
      let inner :=
        scan dialect fuel (used (t :: ts) h.behindSpecifiers) ++
          [h.declarator.tree.withPlace .declarator] ++
          scan dialect fuel (used h.behindSpecifiers h.declarator.rest) ++
          blocks dialect fuel (used h.declarator.rest h.ending.rest)
      ([.node .functionDefinition .plain ⟨t.span.start, h.ending.stop⟩ inner], h.ending.rest)
    | none =>
      let (part, rest) := statement (t :: ts)
      (scan dialect fuel part ++ openEnd part, rest)

def blocks (dialect : Dialect) : Nat → Trees → List Tree
  | 0, _ => []
  | _, [] => []
  | fuel + 1, t :: ts =>
    let front :=
      match t with
      | .group .brace s _ inside =>
        if isInitializerBefore ts then scan dialect fuel inside
        else [Tree.node (.other "compound_statement") .plain s (items dialect fuel inside)]
      | _ => scan dialect fuel [t]
    front ++ blocks dialect fuel ts

def scan (dialect : Dialect) : Nat → Trees → List Tree
  | 0, _ => []
  | _, [] => []
  | fuel + 1, t :: ts =>
    match t with
    | .conditional s inside =>
      .node (.other "preproc_if") .plain s (scan dialect fuel inside) :: scan dialect fuel ts
    | .group .paren _ _ (.group .brace _ _ inside :: more) =>
      let front :=
        if holdsStatements inside then items dialect fuel inside else scan dialect fuel inside
      front ++ scan dialect fuel more ++ scan dialect fuel ts
    | .group .square _ _ inside =>
      let front := scan dialect fuel inside
      match dialect, lambdaBlock? ts with
      | .cpp, some (block, rest) =>
        let within :=
          if holdsStatements block then items dialect fuel block else scan dialect fuel block
        front ++ scan dialect fuel (used ts rest).dropLast ++ within ++ scan dialect fuel rest
      | _, _ => front ++ scan dialect fuel ts
    | .group _ _ _ inside => scan dialect fuel inside ++ scan dialect fuel ts
    | .leaf token =>
      match token.lexeme with
      | .includeDirective system target =>
        includeNode token.span system target :: scan dialect fuel ts
      | .word w =>
        if (recordWords dialect).contains w then
          let head := recordHead dialect ts
          match head.body with
          | some (s, inside) =>
            .node (recordKind w) .plain ⟨token.span.start, s.stop⟩
              ((head.name.map nameNode).toList ++ items dialect fuel inside) ::
              scan dialect fuel head.rest
          | none => scan dialect fuel ts
        else if w = "enum" then scan dialect fuel (behindEnum ts)
        else scan dialect fuel ts
      | _ => scan dialect fuel ts

end

/-- The syntax tree of a text, and whether the text is free of malformed tokens, unmatched
brackets, unended directives and unended statements. -/
def parse (dialect : Dialect) (text : Bytes) : Tree × Bool :=
  let (ts, wellFormed) := tokens dialect text
  let (trees, matched) := forest ts
  let root := Tree.node (.other "translation_unit") .plain ⟨0, text.length⟩
    (items dialect (8 * weightOf trees + 16) trees)
  (root, wellFormed && matched && !root.hasFault)

end FunctionPairs.Syntax
