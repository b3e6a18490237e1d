import FunctionPairs.Toml.Reader
import FunctionPairs.Config

/-!
Settings from a TOML file. Keys that are not settings are ignored; a setting of the wrong kind,
or a text that is not TOML, makes the whole file invalid.
-/
namespace FunctionPairs.Toml

def countOf : Value → Option Nat
  | .integer n => if 0 ≤ n then some n.toNat else none
  | _ => none

def flagOf : Value → Option Bool
  | .boolean b => some b
  | _ => none

def textOf : Value → Option String
  | .text s => some s
  | _ => none

def textsOf : Value → Option (List String)
  | .array items => items.mapM textOf
  | _ => none

def setting {α : Type} (kind : Value → Option α) (es : Entries) (key : String) (standard : α) :
    Option α :=
  match es.lookup key with
  | none => some standard
  | some v => kind v

def policyOfEntries (es : Entries) : Option IdentityPolicy := do
  let truncate ← setting flagOf es "truncate_generics" true
  let strip ← setting flagOf es "strip_all_extensions" true
  return ⟨truncate, strip⟩

def policyOf : Value → Option IdentityPolicy
  | .table _ es => policyOfEntries es
  | .array [] => some .standard
  | .array [a] => (flagOf a).map fun t => ⟨t, true⟩
  | .array (a :: b :: _) => do return ⟨← flagOf a, ← flagOf b⟩
  | _ => none

def configOf (es : Entries) : Option Config := do
  let bytes ← setting countOf es "max_source_bytes" Config.standard.maxSourceBytes
  let dirs ← setting textsOf es "library_dirs" []
  let depth ← setting countOf es "local_include_child_depth" 0
  let policy ← setting policyOf es "identity" .standard
  return ⟨bytes, dirs, depth, policy⟩

def readConfig (text : String) : Option Config := (read text).bind configOf

end FunctionPairs.Toml

namespace FunctionPairs.Config

def ofFile (fs : FileSystem) (p : Path) : Except Failure Config :=
  match fs.readText p with
  | .error e => .error (.ofSystem s!"Failed to read config {p.display}" e)
  | .ok text =>
    match Toml.readConfig text with
    | some c => .ok c
    | none => .error (.message s!"Invalid config {p.display}")

def load (fs : FileSystem) (path : Option Path) (vars : Variables) : Except Failure Config :=
  match path with
  | none => standard.override vars
  | some p =>
    match ofFile fs p with
    | .error e => .error e
    | .ok c => c.override vars

end FunctionPairs.Config
