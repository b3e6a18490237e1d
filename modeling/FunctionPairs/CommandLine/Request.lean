import FunctionPairs.CommandLine.Options
import FunctionPairs.Decimal
import FunctionPairs.Path

/-!
What the arguments ask for: one of four commands with its options, or the version.
-/
namespace FunctionPairs.CommandLine

structure ExtractOptions where
  input : Path
  output : Path
  types : String
  count : Nat
  force : Bool
  config : Option Path

structure InspectOptions where
  input : Path
  types : Option String
  count : Nat
  skip : Nat
  shuffle : Option Nat

structure SplitOptions where
  input : Path
  output : Path
  ratio : Float
  force : Bool

inductive Backend
  | program (name : String) (args : List String)
  | endpoint (address : String)
  | dryRun
deriving Repr, DecidableEq

structure TransformOptions where
  input : Path
  output : Path
  types : String
  count : Nat
  force : Bool
  backend : Backend
  config : Option Path

inductive Request
  | extract (o : ExtractOptions)
  | inspect (o : InspectOptions)
  | split (o : SplitOptions)
  | transform (o : TransformOptions)
  | version

def Request.paths : Request → List Path
  | extract o => [o.input, o.output] ++ o.config.toList
  | inspect o => [o.input]
  | split o => [o.input, o.output]
  | transform o => [o.input, o.output] ++ o.config.toList
  | version => []

def Request.config? : Request → Option Path
  | extract o => o.config
  | transform o => o.config
  | _ => none

def inputSpec : OptionSpec := ⟨"input", some 'i', .value⟩
def outputSpec : OptionSpec := ⟨"output", some 'o', .value⟩
def typesSpec : OptionSpec := ⟨"types", some 't', .value⟩
def countSpec : OptionSpec := ⟨"count", some 'n', .value⟩
def forceSpec : OptionSpec := ⟨"force", some 'f', .flag⟩
def configSpec : OptionSpec := ⟨"config", none, .value⟩

def readOr {α : Type} (given : List Given) (name : String) (read : String → Option α)
    (standard : Option α) : Option α :=
  match valueOf? given name with
  | none => standard
  | some v => read v

def readPath (s : String) : Option Path := if s.isEmpty then none else some (.ofString s)

def readCount (s : String) : Option Nat := (Decimal.readCount s).toOption

def optional {α : Type} (given : List Given) (name : String) (read : String → Option α) :
    Option (Option α) :=
  readOr given name (fun v => (read v).map some) (some none)

def extractRequest (given : List Given) : Option Request := do
  return .extract
    { input := ← readOr given "input" readPath none
      output := ← readOr given "output" readPath none
      types := (valueOf? given "types").getD "c"
      count := ← readOr given "count" readCount (some 0)
      force := isGiven given "force"
      config := ← optional given "config" readPath }

def inspectRequest (given : List Given) : Option Request := do
  return .inspect
    { input := ← readOr given "input" readPath none
      types := valueOf? given "types"
      count := ← readOr given "count" readCount (some 0)
      skip := ← readOr given "skip" readCount (some 0)
      shuffle := ← optional given "shuffle" readCount }

def splitRequest (given : List Given) : Option Request := do
  return .split
    { input := ← readOr given "input" readPath none
      output := ← readOr given "output" readPath none
      ratio := ← readOr given "ratio" Decimal.readFloat (some 0.1)
      force := isGiven given "force" }

def backend? (given : List Given) : Option Backend :=
  match valuesOf? given "command", valueOf? given "endpoint", isGiven given "dry-run" with
  | some (name :: args), none, false => some (.program name args)
  | none, some address, false => some (.endpoint address)
  | none, none, true => some .dryRun
  | _, _, _ => none

def transformRequest (given : List Given) : Option Request := do
  return .transform
    { input := ← readOr given "input" readPath none
      output := ← readOr given "output" readPath none
      types := (valueOf? given "types").getD "c"
      count := ← readOr given "count" readCount (some 0)
      force := isGiven given "force"
      backend := ← backend? given
      config := ← optional given "config" readPath }

def command? (name : String) : Option (List OptionSpec × (List Given → Option Request)) :=
  match name with
  | "extract" =>
    some ([inputSpec, outputSpec, typesSpec, countSpec, forceSpec, configSpec], extractRequest)
  | "inspect" =>
    some ([inputSpec, typesSpec, countSpec, ⟨"skip", none, .value⟩, ⟨"shuffle", none, .value⟩],
      inspectRequest)
  | "split" =>
    some ([inputSpec, outputSpec, ⟨"ratio", none, .value⟩, forceSpec], splitRequest)
  | "transform" =>
    some ([inputSpec, outputSpec, typesSpec, countSpec, forceSpec, configSpec,
      ⟨"command", none, .rest⟩, ⟨"endpoint", none, .value⟩, ⟨"dry-run", none, .flag⟩],
      transformRequest)
  | _ => none

def Request.ofArguments : List String → Except Stop Request
  | [] => .error .bad
  | first :: args =>
    if first = "--version" || first = "-V" then .ok .version
    else if first = "--help" || first = "-h" || first = "help" then .error .help
    else match command? first with
      | none => .error .bad
      | some (specs, request) =>
        match options specs args with
        | .error e => .error e
        | .ok given =>
          match request given with
          | some r => .ok r
          | none => .error .bad

end FunctionPairs.CommandLine
