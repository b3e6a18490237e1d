import FunctionPairs.Syntax.Forest
import FunctionPairs.Syntax.Tree

/-!
Words of C and C++ by what they do at the start of a declaration or statement, and the names
that declare something: plain, qualified, with template arguments, of destructors, of operators
and of conversions.
-/
namespace FunctionPairs.Syntax

namespace TokenTree

def word? : TokenTree → Option String
  | leaf t =>
    match t.lexeme with
    | .word w => some w
    | _ => none
  | _ => none

def symbol? : TokenTree → Option String
  | leaf t =>
    match t.lexeme with
    | .symbol s => some s
    | _ => none
  | _ => none

def isWord (w : String) (t : TokenTree) : Bool := t.word? == some w

def isSymbol (s : String) (t : TokenTree) : Bool := t.symbol? == some s

def isText : TokenTree → Bool
  | leaf t => t.lexeme == .text
  | _ => false

def inside? (b : Bracket) : TokenTree → Option (List TokenTree)
  | group b' _ _ ts => if b = b' then some ts else none
  | _ => none

def isParen (t : TokenTree) : Bool := (t.inside? .paren).isSome
def isSquare (t : TokenTree) : Bool := (t.inside? .square).isSome
def isBrace (t : TokenTree) : Bool := (t.inside? .brace).isSome

def isAttribute (t : TokenTree) : Bool :=
  match t.inside? .square with
  | some (inner :: _) => inner.isSquare
  | _ => false

def isBranch : TokenTree → Bool
  | leaf t => t.lexeme == .otherBranch
  | _ => false

end TokenTree

open TokenTree

abbrev Trees := List TokenTree

def weightOf (ts : Trees) : Nat := ts.foldl (fun n t => n + t.weight) 0

def stopOf (start : Nat) (ts : Trees) : Nat :=
  match ts.getLast? with
  | some t => t.span.stop
  | none => start

def used (ts rest : Trees) : Trees := ts.take (ts.length - rest.length)

/-- Words that may stand before a declarator and are no types. -/
def qualifierWords : List String :=
  ["const", "volatile", "static", "extern", "inline", "register", "mutable", "virtual",
    "constexpr", "consteval", "constinit", "thread_local", "_Thread_local", "__thread",
    "restrict", "__restrict", "__restrict__", "_Noreturn", "noreturn", "__inline",
    "__inline__", "__forceinline", "__extension__", "typename", "_Nonnull", "__const",
    "__volatile__", "typedef", "__cdecl", "__stdcall", "__fastcall"]

/-- Words that may stand before a declarator with parentheses behind them. -/
def attributeWords : List String :=
  ["__attribute__", "__attribute", "__declspec", "alignas", "_Alignas", "explicit"]

def typeWords : List String :=
  ["void", "char", "short", "int", "long", "float", "double", "signed", "unsigned", "bool",
    "_Bool", "_Complex", "auto", "wchar_t", "char8_t", "char16_t", "char32_t", "char64_t",
    "size_t", "ssize_t", "ptrdiff_t", "intptr_t", "uintptr_t", "charptr_t", "nullptr_t",
    "max_align_t", "int8_t", "int16_t", "int32_t", "int64_t", "uint8_t", "uint16_t",
    "uint32_t", "uint64_t", "__int128"]

/-- Types with parentheses behind them. -/
def typeCallWords : List String :=
  ["decltype", "typeof", "__typeof__", "__typeof", "typeof_unqual", "_Atomic", "_BitInt"]

def recordWords : Dialect → List String
  | .c => ["struct", "union"]
  | .cpp => ["struct", "class", "union"]

def statementWords : Dialect → List String
  | .c => ["return", "goto", "break", "continue", "typedef", "_Static_assert", "static_assert"]
  | .cpp =>
    ["return", "goto", "break", "continue", "typedef", "_Static_assert", "static_assert",
      "throw", "using", "concept", "co_return", "co_yield", "co_await", "delete"]

def headerWords : List String := ["if", "for", "while", "switch", "catch"]

def leadWords : List String := ["else", "do", "try"]

def accessWords : List String := ["public", "private", "protected"]

def otherWords : Dialect → List String
  | .c => ["case", "default", "sizeof", "enum", "asm", "__asm__", "__asm"]
  | .cpp =>
    ["case", "default", "sizeof", "enum", "asm", "__asm__", "__asm", "operator", "new", "this",
      "true", "false", "nullptr", "namespace", "template", "noexcept", "requires", "friend",
      "alignof", "static_cast", "dynamic_cast", "const_cast", "reinterpret_cast", "typeid"]

def reserved (dialect : Dialect) (w : String) : Bool :=
  qualifierWords.contains w || attributeWords.contains w || typeWords.contains w ||
    typeCallWords.contains w || (recordWords dialect).contains w ||
    (statementWords dialect).contains w || headerWords.contains w || leadWords.contains w ||
    (dialect = .cpp && accessWords.contains w) || (otherWords dialect).contains w

def plainWord? (dialect : Dialect) (t : TokenTree) : Option String :=
  match t.word? with
  | some w => if reserved dialect w then none else some w
  | none => none

/-- Goes past the template arguments that are open at a depth; gives the place behind them. -/
def skipAngles : Nat → Nat → Trees → Option (Nat × Trees)
  | _, _, [] => none
  | depth, stop, t :: ts =>
    match t.symbol? with
    | some "<" => skipAngles (depth + 1) stop ts
    | some ">" => if depth ≤ 1 then some (t.span.stop, ts) else skipAngles (depth - 1) stop ts
    | some ";" => none
    | _ => if t.isBrace then none else skipAngles depth stop ts

def angles? (dialect : Dialect) : Trees → Option (Nat × Trees)
  | t :: ts => if dialect = .cpp && t.isSymbol "<" then skipAngles 1 t.span.stop ts else none
  | [] => none

def skipAttributes : Nat → Trees → Trees
  | 0, ts => ts
  | fuel + 1, t :: ts =>
    if t.isAttribute then skipAttributes fuel ts
    else match t.word?, ts with
      | some w, u :: us =>
        if attributeWords.contains w && u.isParen then skipAttributes fuel us else t :: ts
      | _, _ => t :: ts
  | _, [] => []

def skipReturnType : Nat → Nat → Trees → Nat × Trees
  | 0, stop, ts => (stop, ts)
  | _, stop, [] => (stop, [])
  | fuel + 1, stop, t :: ts =>
    let ends := t.isBrace || t.isBranch ||
      (match t.symbol? with
        | some s => [";", "=", ",", ":"].contains s
        | none => false) ||
      (match t.word? with
        | some w => ["override", "final", "requires", "try"].contains w
        | none => false)
    if ends then (stop, t :: ts)
    else match angles? .cpp (t :: ts) with
      | some (stop', rest) => skipReturnType fuel stop' rest
      | none => skipReturnType fuel t.span.stop ts

def skipConstraint : Nat → Nat → Trees → Nat × Trees
  | 0, stop, ts => (stop, ts)
  | _, stop, [] => (stop, [])
  | fuel + 1, stop, t :: ts =>
    let ends := t.isBrace || t.isBranch || t.isSymbol ";" || t.isSymbol "=" || t.isSymbol ":"
    if ends then (stop, t :: ts) else skipConstraint fuel t.span.stop ts

def suffixWords : List String := ["const", "volatile", "override", "final", "mutable", "restrict"]

def suffixCalls : List String :=
  ["noexcept", "throw", "__attribute__", "__attribute", "asm", "__asm__", "__asm"]

/-- What may follow the parameters of a function: qualifiers, exception specifications,
attributes and a trailing return type; in C also other words, with parentheses or without. -/
def skipSuffix (dialect : Dialect) : Nat → Nat → Trees → Nat × Trees
  | 0, stop, ts => (stop, ts)
  | _, stop, [] => (stop, [])
  | fuel + 1, stop, t :: ts =>
    let call := fun (_ : Unit) =>
      match ts with
      | u :: us =>
        if u.isParen then skipSuffix dialect fuel u.span.stop us
        else skipSuffix dialect fuel t.span.stop ts
      | [] => (t.span.stop, [])
    if t.isAttribute && dialect = .cpp then skipSuffix dialect fuel t.span.stop ts
    else match t.word?, t.symbol? with
      | some w, _ =>
        if suffixCalls.contains w then call ()
        else match dialect with
          | .cpp =>
            if suffixWords.contains w then skipSuffix dialect fuel t.span.stop ts
            else if w = "requires" then skipConstraint ts.length t.span.stop ts
            else (stop, t :: ts)
          | .c => if reserved .c w then (stop, t :: ts) else call ()
      | none, some s =>
        if dialect = .cpp && (s = "&" || s = "&&") then skipSuffix dialect fuel t.span.stop ts
        else if dialect = .cpp && s = "->" then
          let (stop', rest) := skipReturnType ts.length t.span.stop ts
          skipSuffix dialect fuel stop' rest
        else (stop, t :: ts)
      | _, _ => (stop, t :: ts)

/-- A name with its kind, its place and what is left behind it. The name of a conversion has
its parameters in it. -/
structure NameRead where
  kind : Kind
  span : Span
  rest : Trees
  converts : Bool := false

def skipTouching : Nat → Trees → Nat × Trees
  | stop, t :: ts =>
    if t.symbol?.isSome && t.span.start = stop && !t.isSymbol ";" then
      skipTouching t.span.stop ts
    else (stop, t :: ts)
  | stop, [] => (stop, [])

def skipConversion : Trees → Option (Nat × Trees)
  | [] => none
  | t :: ts =>
    if t.isParen then some (skipSuffix .cpp ts.length t.span.stop ts)
    else if t.isBrace || t.isSymbol ";" then none
    else skipConversion ts

def operatorName (start : Nat) (qualified : Bool) (ts : Trees) : Option NameRead :=
  let made := fun (stop : Nat) (rest : Trees) =>
    some ({ kind := if qualified then .qualifiedIdentifier else .operatorName,
             span := ⟨start, stop⟩, rest } : NameRead)
  let conversion := fun (_ : Unit) =>
    (skipConversion ts).map fun (stop, rest) =>
      ({ kind := if qualified then .qualifiedIdentifier else .operatorCast,
         span := ⟨start, stop⟩, rest, converts := true } : NameRead)
  match ts with
  | [] => none
  | t :: rest =>
    if t.isParen || t.isSquare then made t.span.stop rest
    else if t.isText then
      match rest with
      | u :: us => if u.word?.isSome then made u.span.stop us else made t.span.stop rest
      | [] => made t.span.stop []
    else match t.word?, t.symbol? with
      | some "new", _ | some "delete", _ =>
        match rest with
        | u :: us => if u.isSquare then made u.span.stop us else made t.span.stop rest
        | [] => made t.span.stop []
      | some "co_await", _ => made t.span.stop rest
      | _, some "::" => conversion ()
      | _, some _ =>
        let (stop, rest') := skipTouching t.span.stop rest
        made stop rest'
      | _, _ => conversion ()

/-- A name from its first part on; `qualified` says that parts before it have been read. -/
def nameFrom (dialect : Dialect) (start : Nat) : Nat → Bool → Trees → Option NameRead
  | 0, _, _ => none
  | _, _, [] => none
  | fuel + 1, qualified, t :: ts =>
    match plainWord? dialect t with
    | some _ =>
      let (templated, stop, rest) :=
        match angles? dialect ts with
        | some (stop, rest) => (true, stop, rest)
        | none => (false, t.span.stop, ts)
      match rest with
      | u :: us =>
        if dialect = .cpp && u.isSymbol "::" then nameFrom dialect start fuel true us
        else some { kind := kindOf qualified templated, span := ⟨start, stop⟩, rest }
      | [] => some { kind := kindOf qualified templated, span := ⟨start, stop⟩, rest := [] }
    | none =>
      if dialect = .c then none
      else if t.isSymbol "::" && !qualified then nameFrom dialect start fuel true ts
      else if t.isWord "template" && qualified then nameFrom dialect start fuel true ts
      else if t.isSymbol "~" then
        match ts with
        | u :: us =>
          if (plainWord? dialect u).isSome then
            let (stop, rest) := (angles? dialect us).getD (u.span.stop, us)
            some { kind := if qualified then .qualifiedIdentifier else .destructorName,
                   span := ⟨start, stop⟩, rest }
          else none
        | [] => none
      else if t.isWord "operator" then operatorName start qualified ts
      else none
where
  kindOf (qualified templated : Bool) : Kind :=
    if qualified then .qualifiedIdentifier
    else if templated then .templateFunction
    else .identifier

def name? (dialect : Dialect) (ts : Trees) : Option NameRead :=
  match ts with
  | t :: _ => nameFrom dialect t.span.start (ts.length + 1) false ts
  | [] => none

def typeName? (dialect : Dialect) (ts : Trees) : Option NameRead := do
  let n ← name? dialect ts
  let parts := used ts n.rest
  if parts.any (fun t => t.isWord "operator" || t.isSymbol "~") then none else some n

end FunctionPairs.Syntax
