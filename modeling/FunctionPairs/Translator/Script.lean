import FunctionPairs.Translator.Filter

/-!
Scripts of filters: commands in pipes, one after the other, with quoting, the arguments of the
script, and output thrown away. What a command leaves unread is there for the next.
-/
namespace FunctionPairs.Script

inductive Token
  | word (text : String)
  | arguments
  | argument (n : Nat)
  | pipe
  | discard
  | stop
deriving Repr, DecidableEq

def flush (current : Option (List Char)) : List Token :=
  match current with
  | some cs => [.word (String.ofList cs.reverse)]
  | none => []

def parameter? : List Char → Option Token
  | ['$', '@'] => some .arguments
  | ['$', d] => if '1' ≤ d && d ≤ '9' then some (.argument (d.toNat - '0'.toNat)) else none
  | _ => none

def quoted (quote : Char) (cs : List Char) : List Char × List Char :=
  (cs.takeWhile (· ≠ quote), (cs.dropWhile (· ≠ quote)).drop 1)

def tokens : Nat → Option (List Char) → List Char → List Token
  | 0, current, _ => flush current
  | _, current, [] => flush current
  | fuel + 1, current, c :: cs =>
    let separated := fun (t : List Token) (rest : List Char) =>
      flush current ++ t ++ tokens fuel none rest
    if c = ' ' || c = '\t' then separated [] cs
    else if c = '\n' || c = ';' then separated [.stop] cs
    else if c = '|' then separated [.pipe] cs
    else if c = '>' then
      let target := (cs.dropWhile (· = ' ')).dropWhile fun d => d ≠ '\n' && d ≠ ';' && d ≠ ' '
      separated [.discard] target
    else if c = '#' && current.isNone then separated [] (cs.dropWhile (· ≠ '\n'))
    else if c = '\'' || c = '"' then
      let (text, rest) := quoted c cs
      match if c = '"' then parameter? text else none with
      | some t => separated [t] rest
      | none => tokens fuel (some (text.reverse ++ current.getD [])) rest
    else if let some t := parameter? (c :: cs.take 1) then separated [t] (cs.drop 1)
    else if c = '\\' then
      tokens fuel (some ((cs.take 1).reverse ++ current.getD [])) (cs.drop 1)
    else tokens fuel (some (c :: current.getD [])) cs

structure Command where
  words : List String
  discards : Bool

def Command.ofTokens (args : List String) (ts : List Token) : Command :=
  { words := ts.flatMap fun
      | .word w => [w]
      | .arguments => args
      | .argument n => [args.getD (n - 1) ""]
      | _ => []
    discards := ts.contains .discard }

def Command.run (c : Command) (input : Bytes) : Finished :=
  let done :=
    match c.words with
    | [] => ⟨0, [], input⟩
    | name :: args => (Filter.run? name args input).getD ⟨127, [], input⟩
  if c.discards then { done with output := [] } else done

/-- Each command reads what the one before it wrote; what is unread is left by the first. -/
def pipeline (input : Bytes) : List Command → Finished
  | [] => ⟨0, [], input⟩
  | [c] => c.run input
  | c :: cs =>
    let first := c.run input
    let last := pipeline first.output cs
    { last with unread := first.unread }

def splitAt (separator : Token) (ts : List Token) : List (List Token) :=
  ts.foldr
    (fun t parts =>
      match parts with
      | [] => [[t]]
      | p :: ps => if t = separator then [] :: p :: ps else (t :: p) :: ps)
    [[]]

def exitStatus? (ts : List Token) : Option Nat :=
  match ts with
  | [.word "exit"] => some 0
  | [.word "exit", .word n] => some (n.toNat?.getD 2)
  | _ => none

def runAll (args : List String) (status : Nat) (input : Bytes) : List (List Token) → Finished
  | [] => ⟨status, [], input⟩
  | ts :: rest =>
    match exitStatus? ts with
    | some n => ⟨n, [], input⟩
    | none =>
      if ts.isEmpty then runAll args status input rest
      else
        let done := pipeline input ((splitAt .pipe ts).map (Command.ofTokens args))
        let later := runAll args done.status done.unread rest
        { later with output := done.output ++ later.output }

def run (text : String) (args : List String) (input : Bytes) : Finished :=
  let ts := tokens (text.length + 1) none text.toList
  runAll args 0 input (splitAt .stop ts)

end FunctionPairs.Script
