import FunctionPairs.Failure
import FunctionPairs.Text.Blank

/-!
The languages that are paired, and what a file is to each of them by the suffix of its name.
-/
namespace FunctionPairs

inductive Dialect
  | c
  | cpp
deriving Repr, DecidableEq

def Dialect.label : Dialect → String
  | c => "C"
  | cpp => "Cpp"

inductive Lang
  | c
  | cpp
deriving Repr, DecidableEq

inductive FileRole
  | source
  | bytecode
  | decompiled
deriving Repr, DecidableEq

namespace Lang

def all : List Lang := [c, cpp]

def key : Lang → String
  | c => "c"
  | cpp => "c/c++"

def ofKey? (key : String) : Option Lang :=
  match Text.trim key with
  | "c" => some c
  | "c/c++" | "c++" | "cpp" => some cpp
  | _ => none

def dialect : Lang → Dialect
  | c => .c
  | cpp => .cpp

/-- The suffixes of a role. The first source suffix is the one that new source files get. -/
def extensions : Lang → FileRole → List String
  | c, .source => [".c", ".h"]
  | cpp, .source => [".cpp", ".cc", ".cxx", ".c++", ".hpp", ".c", ".h"]
  | _, .bytecode => [".o"]
  | c, .decompiled => [".o.c"]
  | cpp, .decompiled => [".o.cpp", ".o.cc", ".o.cxx", ".o.c++", ".o.c"]

def primaryExtension : Lang → String
  | c => ".c"
  | cpp => ".cpp"

end Lang

def hasExtension (name extension : String) : Bool :=
  extension.toList.isSuffixOf name.toList && extension.length < name.length

def longest : List String → Option String
  | [] => none
  | s :: rest =>
    match longest rest with
    | none => some s
    | some t => if t.length < s.length then some s else some t

namespace Lang

def matchingExtension (lang : Lang) (role : FileRole) (name : String) : Option String :=
  longest ((lang.extensions role).filter (hasExtension name))

/-- Decompiled suffixes are tried first, since they extend source suffixes. -/
def classify (lang : Lang) (name : String) : Option FileRole :=
  [FileRole.decompiled, .source, .bytecode].find? fun role =>
    (lang.matchingExtension role name).isSome

def dropExtension (name extension : String) : String :=
  String.ofList (name.toList.take (name.length - extension.length))

def collect (seen : List Lang) : List String → Except Failure (List Lang)
  | [] => .ok seen
  | key :: keys =>
    if Text.isAllBlank key then collect seen keys
    else match ofKey? key with
      | none =>
        let known := ", ".intercalate (all.map Lang.key)
        .error (.message s!"Unknown code type '{Text.trim key}' (known: {known})")
      | some lang => collect (if seen.contains lang then seen else seen ++ [lang]) keys

def parseList (keys : String) : Except Failure (List Lang) :=
  match collect [] (Text.split ',' keys) with
  | .ok [] => .error (.message "No code type given")
  | result => result

end Lang
end FunctionPairs
