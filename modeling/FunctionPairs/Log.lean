/-!
Log records, and values that come with the records written while they were computed.
-/
namespace FunctionPairs

inductive Level
  | error
  | warn
  | info
  | debug
  | trace
deriving Repr, DecidableEq

namespace Level

def label : Level → String
  | error => "ERROR"
  | warn => "WARN"
  | info => "INFO"
  | debug => "DEBUG"
  | trace => "TRACE"

def rank : Level → Nat
  | error => 1
  | warn => 2
  | info => 3
  | debug => 4
  | trace => 5

end Level

inductive Origin
  | failures
  | languageModel
  | decompiledFormat
  | exampleStore
  | extraction
  | transformation
  | extractCommand
deriving Repr, DecidableEq

def Origin.label : Origin → String
  | failures => "understandable::error"
  | languageModel => "understandable::code_type::c"
  | decompiledFormat => "understandable::scrape::decompiled"
  | exampleStore => "understandable::example_db"
  | extraction => "understandable::walk"
  | transformation => "understandable::transform"
  | extractCommand => "understandable::commands::extract"

structure Record where
  level : Level
  origin : Origin
  message : String
deriving Repr, DecidableEq

structure Logged (α : Type) where
  value : α
  records : List Record

namespace Logged

instance : Monad Logged where
  pure a := ⟨a, []⟩
  bind x f :=
    let y := f x.value
    ⟨y.value, x.records ++ y.records⟩

def say (level : Level) (origin : Origin) (message : String) : Logged Unit :=
  ⟨(), [⟨level, origin, message⟩]⟩

end Logged

inductive Verbosity
  | off
  | upTo (level : Level)
deriving Repr, DecidableEq

namespace Verbosity

def shows (v : Verbosity) (l : Level) : Bool :=
  match v with
  | off => false
  | upTo m => l.rank ≤ m.rank

def ofWord? (word : String) : Option Verbosity :=
  match word.toLower with
  | "off" => some .off
  | "error" => some (.upTo .error)
  | "warn" => some (.upTo .warn)
  | "info" => some (.upTo .info)
  | "debug" => some (.upTo .debug)
  | "trace" => some (.upTo .trace)
  | _ => none

end Verbosity

structure LogRule where
  origin : String
  verbosity : Verbosity
deriving Repr, DecidableEq

/-- Which records are shown: the rule with the longest matching origin decides, and without
one nothing is shown. -/
structure LogFilter where
  rules : List LogRule
deriving Repr, DecidableEq

namespace LogFilter

def ruleOf? (text : String) : Option LogRule :=
  match text.splitOn "=" with
  | [one] =>
    match Verbosity.ofWord? one with
    | some v => some ⟨"", v⟩
    | none => some ⟨one, .upTo .trace⟩
  | [origin, ""] => some ⟨origin, .upTo .trace⟩
  | [origin, word] => (Verbosity.ofWord? word.trimAscii.toString).map fun v => ⟨origin, v⟩
  | _ => none

def addRule (rules : List LogRule) (r : LogRule) : List LogRule :=
  rules.filter (·.origin ≠ r.origin) ++ [r]

def ofText (text : String) : LogFilter :=
  let parts := ((text.splitOn ",").map fun p => p.trimAscii.toString).filter (!·.isEmpty)
  match (parts.filterMap ruleOf?).foldl addRule [] with
  | [] => ⟨[⟨"", .upTo .error⟩]⟩
  | rules => ⟨rules⟩

def longer (best : Option LogRule) (r : LogRule) : Option LogRule :=
  match best with
  | none => some r
  | some b => if r.origin.length < b.origin.length then some b else some r

def verbosityFor (f : LogFilter) (origin : String) : Verbosity :=
  let matching := f.rules.filter fun r => r.origin.toList.isPrefixOf origin.toList
  ((matching.foldl longer none).map (·.verbosity)).getD .off

def shows (f : LogFilter) (r : Record) : Bool :=
  (f.verbosityFor r.origin.label).shows r.level

end LogFilter

def Record.line (r : Record) : String :=
  let level := r.level.label ++ "".pushn ' ' (5 - r.level.label.length)
  s!"[{level} {r.origin.label}] {r.message}"

end FunctionPairs
