import FunctionPairs.Syntax.Token

/-!
Tokens grouped by brackets and by conditional directives. Grouping never fails: a closing
bracket without its partner is dropped, and what is still open at the end, or when something
around it closes, ends there. Either makes the text unsound, as a missing `#endif` does.
-/
namespace FunctionPairs.Syntax

inductive Bracket
  | paren
  | square
  | brace
deriving Repr, DecidableEq

inductive TokenTree
  | leaf (token : Token)
  | group (bracket : Bracket) (span : Span) (comment : Option Span) (inside : List TokenTree)
  | conditional (span : Span) (inside : List TokenTree)
deriving Repr

namespace TokenTree

def span : TokenTree → Span
  | leaf t => t.span
  | group _ s _ _ => s
  | conditional s _ => s

def comment : TokenTree → Option Span
  | leaf t => t.comment
  | group _ _ c _ => c
  | conditional _ _ => none

def weight : TokenTree → Nat
  | leaf _ => 1
  | group _ _ _ ts => 1 + weightOf ts
  | conditional _ ts => 1 + weightOf ts
where
  weightOf : List TokenTree → Nat
    | [] => 0
    | t :: ts => weight t + weightOf ts

end TokenTree

/-- An open bracket, or an open conditional if there is no bracket. Its trees are in reverse. -/
structure Frame where
  bracket : Option Bracket
  start : Nat
  comment : Option Span
  inside : List TokenTree
deriving Repr

namespace Frame

def close (f : Frame) (stop : Nat) : TokenTree :=
  match f.bracket with
  | some b => .group b ⟨f.start, stop⟩ f.comment f.inside.reverse
  | none => .conditional ⟨f.start, stop⟩ f.inside.reverse

end Frame

/-- The trees built so far, in reverse, below the frames that are still open, innermost first. -/
structure Grouping where
  frames : List Frame
  done : List TokenTree
  stop : Nat
  sound : Bool
deriving Repr

namespace Grouping

def start : Grouping := ⟨[], [], 0, true⟩

def push (g : Grouping) (t : TokenTree) : Grouping :=
  match g.frames with
  | [] => { g with done := t :: g.done }
  | f :: fs => { g with frames := { f with inside := t :: f.inside } :: fs }

def openFrame (g : Grouping) (bracket : Option Bracket) (t : Token) : Grouping :=
  { g with frames := ⟨bracket, t.span.start, t.comment, []⟩ :: g.frames, stop := t.span.stop }

def closeTop (g : Grouping) (stop : Nat) : Grouping :=
  match g.frames with
  | [] => g
  | f :: fs => push { g with frames := fs } (f.close stop)

def partner? (bracket : Option Bracket) : List Frame → Option Nat
  | [] => none
  | f :: fs =>
    if f.bracket = bracket then some 0
    else if f.bracket.isNone then none
    else (partner? bracket fs).map (· + 1)

/-- Closes a number of frames where the last token ended; none of them was closed in time. -/
def abandon : Nat → Grouping → Grouping
  | 0, g => g
  | n + 1, g => abandon n { g.closeTop g.stop with sound := false }

def closeFrame (g : Grouping) (bracket : Option Bracket) (t : Token) : Grouping :=
  match partner? bracket g.frames with
  | none => { g with sound := false, stop := t.span.stop }
  | some n => { (abandon n g).closeTop t.span.stop with stop := t.span.stop }

def opening? : String → Option Bracket
  | "(" => some .paren
  | "[" => some .square
  | "\x7b" => some .brace
  | _ => none

def closing? : String → Option Bracket
  | ")" => some .paren
  | "]" => some .square
  | "\x7d" => some .brace
  | _ => none

def add (g : Grouping) (t : Token) : Grouping :=
  let plain := fun (_ : Unit) => { g.push (.leaf t) with stop := t.span.stop }
  match t.lexeme with
  | .symbol s =>
    match opening? s, closing? s with
    | some b, _ => g.openFrame (some b) t
    | _, some b => g.closeFrame (some b) t
    | _, _ => plain ()
  | .openConditional => g.openFrame none t
  | .closeConditional => g.closeFrame none t
  | .otherBranch =>
    if g.frames.any (·.bracket.isNone) then plain ()
    else { g with sound := false, stop := t.span.stop }
  | .directive => { g with stop := t.span.stop }
  | .stray => { g with stop := t.span.stop }
  | _ => plain ()

end Grouping

def forest (ts : List Token) : List TokenTree × Bool :=
  let g := ts.foldl Grouping.add .start
  let closed := Grouping.abandon g.frames.length g
  (closed.done.reverse, closed.sound)

end FunctionPairs.Syntax
