/-!
Splitting arguments into options. An option has a long name and perhaps a letter; its value
stands behind it, behind an equals sign, or directly behind the letter. Letters without values
may be written together. A value of its own may not start with a hyphen, except a lone one;
only an option that takes all that follows takes anything.
-/
namespace FunctionPairs.CommandLine

inductive OptionKind
  | flag
  | value
  | rest
deriving Repr, DecidableEq

structure OptionSpec where
  name : String
  letter : Option Char
  kind : OptionKind
deriving Repr, DecidableEq

structure Given where
  name : String
  values : List String
deriving Repr, DecidableEq

inductive Stop
  | bad
  | help
deriving Repr, DecidableEq

def helpSpec : OptionSpec := ⟨"help", some 'h', .flag⟩

def isValue (s : String) : Bool := s = "-" || s.toList.head? ≠ some '-'

/-- The option that letters written together end in, what is attached to it, and the flags
before it; an option without a value of its own is left to take the next argument. -/
structure Letters where
  flags : List Given
  last : Option (OptionSpec × Option String)
deriving Repr

def readLetters (specs : List OptionSpec) : List Char → Except Stop Letters
  | [] => .ok ⟨[], none⟩
  | c :: cs =>
    match specs.find? (·.letter == some c) with
    | none => .error .bad
    | some spec =>
      if spec = helpSpec then .error .help
      else match spec.kind, cs with
        | .flag, '=' :: _ => .error .bad
        | .flag, _ => (readLetters specs cs).map fun l => ⟨⟨spec.name, []⟩ :: l.flags, l.last⟩
        | _, [] => .ok ⟨[], some (spec, none)⟩
        | _, '=' :: v => .ok ⟨[], some (spec, some (String.ofList v))⟩
        | _, v => .ok ⟨[], some (spec, some (String.ofList v))⟩

def takeValues (spec : OptionSpec) (attached : Option String) (args : List String) :
    Except Stop (List String × List String) :=
  match spec.kind, attached, args with
  | .flag, none, _ => .ok ([], args)
  | .flag, some _, _ => .error .bad
  | _, some v, _ => .ok ([v], args)
  | .value, none, v :: rest => if isValue v then .ok ([v], rest) else .error .bad
  | .rest, none, v :: rest => .ok (v :: rest, [])
  | _, none, [] => .error .bad

def cutLong (cs : List Char) : String × Option String :=
  let name := String.ofList (cs.takeWhile (· ≠ '='))
  match cs.dropWhile (· ≠ '=') with
  | [] => (name, none)
  | _ :: v => (name, some (String.ofList v))

def readOne (specs : List OptionSpec) (arg : String) (args : List String) :
    Except Stop (List Given × List String) :=
  match arg.toList with
  | ['-', '-'] => if args.isEmpty then .ok ([], []) else .error .bad
  | '-' :: '-' :: cs =>
    let (name, attached) := cutLong cs
    match specs.find? (·.name == name) with
    | none => .error .bad
    | some spec =>
      if spec = helpSpec && attached.isNone then .error .help
      else (takeValues spec attached args).map fun (vs, rest) => ([⟨spec.name, vs⟩], rest)
  | '-' :: c :: cs =>
    match readLetters specs (c :: cs) with
    | .error e => .error e
    | .ok ⟨flags, none⟩ => .ok (flags, args)
    | .ok ⟨flags, some (spec, attached)⟩ =>
      (takeValues spec attached args).map fun (vs, rest) => (flags ++ [⟨spec.name, vs⟩], rest)
  | _ => .error .bad

/-- All options given; `fuel` is a bound on the number of arguments. -/
def readOptions (specs : List OptionSpec) : Nat → List String → Except Stop (List Given)
  | _, [] => .ok []
  | 0, _ => .error .bad
  | fuel + 1, arg :: args =>
    match readOne (helpSpec :: specs) arg args with
    | .error e => .error e
    | .ok (given, rest) => (readOptions specs fuel rest).map (given ++ ·)

def options (specs : List OptionSpec) (args : List String) : Except Stop (List Given) :=
  match readOptions specs args.length args with
  | .error e => .error e
  | .ok given => if (given.map (·.name)).Nodup then .ok given else .error .bad

def valuesOf? (given : List Given) (name : String) : Option (List String) :=
  (given.find? (·.name == name)).map (·.values)

def valueOf? (given : List Given) (name : String) : Option String :=
  (valuesOf? given name).bind List.head?

def isGiven (given : List Given) (name : String) : Bool := (valuesOf? given name).isSome

end FunctionPairs.CommandLine
