import FunctionPairs.FileSystem.Basic

/-!
Failures that stop a run, and the stop signal. A failure is a message or the mark of an
interruption, wrapped in any number of contexts; the mark is found through all of them.
-/
namespace FunctionPairs

inductive Failure
  | interrupted
  | message (text : String)
  | context (text : String) (cause : Failure)
deriving Repr, DecidableEq

namespace Failure

def text : Failure → String
  | interrupted => "interrupted"
  | message t => t
  | context t _ => t

def causes : Failure → List String
  | context _ cause => cause.text :: cause.causes
  | _ => []

def isInterrupted : Failure → Bool
  | interrupted => true
  | message _ => false
  | context _ cause => cause.isInterrupted

def chain (f : Failure) : String := ": ".intercalate (f.text :: f.causes)

def ofSystem (text : String) (e : SystemError) : Failure := .context text (.message e.message)

end Failure

def SystemError.because {α : Type} (text : String) :
    Except SystemError α → Except Failure α
  | .ok a => .ok a
  | .error e => .error (.ofSystem text e)

/-- The signal that asks a run to stop, seen through polls: `some n` is set once `n` more
polls have found it clear, and `none` is never set. -/
structure Interrupt where
  clearPolls : Option Nat
deriving Repr, DecidableEq

namespace Interrupt

def clear : Interrupt := ⟨none⟩

def trigger (_ : Interrupt) : Interrupt := ⟨some 0⟩

def isSet (i : Interrupt) : Bool := i.clearPolls == some 0

def poll (i : Interrupt) : Except Failure Interrupt :=
  match i.clearPolls with
  | none => .ok i
  | some 0 => .error .interrupted
  | some (n + 1) => .ok ⟨some n⟩

end Interrupt

end FunctionPairs
