import FunctionPairs.FileSystem.Operations
import FunctionPairs.Translator.Basic
import FunctionPairs.Translator.Script

/-!
A translator that runs a program for every body: the body goes to its input, and its output is
the answer if it ends well. Programs are filters by name, or executable scripts by path.
-/
namespace FunctionPairs

structure FoundProgram where
  path : Path
  run : List String → Bytes → Except SystemError Finished

namespace FoundProgram

def filterDirectory : String := "/usr/bin/"

/-- The path of a program from the root, unless it is already; dots in front are dropped. -/
def absolutePath (fs : FileSystem) (p : Path) : Path :=
  if p.isAbsolute then p
  else (p.components.map fun
    | .name n => n
    | .up => Name.up
    | _ => Name.here).foldl
      (fun q n => if n = Name.here then q else q.child n) fs.working.path

def interpreters : List String := ["#!/bin/sh", "#!/bin/bash", "#!/usr/bin/env sh"]

/-- Runs a file as a script if it names an interpreter for scripts in its first line. -/
def runScript (contents : Bytes) (args : List String) (input : Bytes) :
    Except SystemError Finished :=
  let text := Utf8.decode contents
  let first := String.ofList (Text.trimEndChars (text.toList.takeWhile (· ≠ '\n')))
  if interpreters.contains first then .ok (Script.run text args input)
  else .error .notExecutable

def shells : List String := ["sh", "bash", "dash"]

/-- A shell runs the script in its arguments, or else the one in its input. -/
def runShell (args : List String) (input : Bytes) : Finished :=
  match args with
  | "-c" :: text :: rest => Script.run text (rest.drop 1) input
  | _ => Script.run (Utf8.decode input) [] []

/-- Looks a program up: by path if its name has a slash, among shells and filters otherwise. -/
def find? (fs : FileSystem) (name : String) : Option FoundProgram :=
  let p := Path.ofString name
  if name.toList.contains '/' then
    let full := absolutePath fs p
    match fs.entry full with
    | .ok (.file contents true) => some ⟨full, runScript contents⟩
    | _ => none
  else if shells.contains name then
    some ⟨.ofString (filterDirectory ++ name), fun args input => .ok (runShell args input)⟩
  else if (Filter.run? name [] []).isSome then
    some ⟨.ofString (filterDirectory ++ name),
      fun args input => .ok ((Filter.run? name args input).getD ⟨127, [], input⟩)⟩
  else none

end FoundProgram

namespace Translator

def ofProgram {σ : Type} (p : FoundProgram) (args : List String) : Translator σ :=
  fun body state =>
    let answer :=
      match p.run args (Utf8.encode body) with
      | .error e => .error (.ofSystem s!"Failed to start {p.path.display}" e)
      | .ok done =>
        if done.status ≠ 0 then
          .error (.message s!"{p.path.display} exited with exit status: {done.status}")
        else match Utf8.decode? done.output with
          | some text => .ok text
          | none =>
            .error (.context s!"{p.path.display} wrote invalid UTF-8"
              (.message (Utf8.faultText done.output)))
    ⟨answer, state, false⟩

def ofCommand {σ : Type} (fs : FileSystem) (program : String) (args : List String) :
    Except Failure (Translator σ) :=
  match FoundProgram.find? fs program with
  | some p => .ok (ofProgram p args)
  | none =>
    .error (.context s!"Translator program '{program}' not found in PATH"
      (.message "cannot find binary path"))

end Translator
end FunctionPairs
