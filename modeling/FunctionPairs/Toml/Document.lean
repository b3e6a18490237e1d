import FunctionPairs.Text.Blank

/-!
The tables of a TOML document and how headers, array headers and key lines build them up.
A table is defined once: a header may name a table that other headers have only implied, dotted
keys may add to tables that dotted keys have made, and nothing is given twice.
-/
namespace FunctionPairs.Toml

/-- How a table came to be: by its own header, implied by the header of a table below it, by
dotted keys, or between braces. -/
inductive Origin
  | header
  | implied
  | dotted
  | inlined
deriving Repr, DecidableEq

/-- A value; `tables` is the array that array headers make. -/
inductive Value
  | integer (n : Int)
  | float
  | boolean (b : Bool)
  | text (s : String)
  | moment
  | array (items : List Value)
  | table (origin : Origin) (entries : List (String × Value))
  | tables (items : List (List (String × Value)))
deriving Repr, Inhabited

abbrev Entries := List (String × Value)

def setEntry (es : Entries) (key : String) (item : Value) : Entries :=
  if es.any (·.1 = key) then es.map fun e => if e.1 = key then (key, item) else e
  else es ++ [(key, item)]

/-- Adds a key line to a table. All parts of the key but the last name tables made by dotted
keys; on the way to the last of them it may pass through implied ones. -/
def addValue (v : Value) : List String → Entries → Option Entries
  | [], _ => none
  | [key], es => if es.any (·.1 = key) then none else some (es ++ [(key, v)])
  | key :: next :: keys, es =>
    match es.lookup key with
    | none => do
      let inner ← addValue v (next :: keys) []
      return es ++ [(key, .table .dotted inner)]
    | some (.table origin inner) =>
      if origin = .header || origin = .inlined || (keys.isEmpty && origin ≠ .dotted) then none
      else do
        let inner' ← addValue v (next :: keys) inner
        return setEntry es key (.table origin inner')
    | some (.tables items) =>
      match items.getLast? with
      | none => none
      | some last =>
        if keys.isEmpty then none
        else do
          let last' ← addValue v (next :: keys) last
          return setEntry es key (.tables (items.dropLast ++ [last']))
    | some _ => none

def atPath (change : String → Entries → Option Entries) : List String → Entries → Option Entries
  | [], _ => none
  | [key], es => change key es
  | key :: next :: keys, es =>
    match es.lookup key with
    | none => do
      let inner ← atPath change (next :: keys) []
      return es ++ [(key, .table .implied inner)]
    | some (.table origin inner) =>
      if origin = .inlined then none
      else do
        let inner' ← atPath change (next :: keys) inner
        return setEntry es key (.table origin inner')
    | some (.tables items) =>
      match items.getLast? with
      | none => none
      | some last => do
        let last' ← atPath change (next :: keys) last
        return setEntry es key (.tables (items.dropLast ++ [last']))
    | some _ => none

def openTable (key : String) (es : Entries) : Option Entries :=
  match es.lookup key with
  | none => some (es ++ [(key, .table .header [])])
  | some (.table .implied inner) => some (setEntry es key (.table .header inner))
  | some _ => none

def openNext (key : String) (es : Entries) : Option Entries :=
  match es.lookup key with
  | none => some (es ++ [(key, .tables [[]])])
  | some (.tables items) => some (setEntry es key (.tables (items ++ [[]])))
  | some _ => none

def inOpened (change : Entries → Option Entries) (key : String) (es : Entries) : Option Entries :=
  match es.lookup key with
  | some (.table origin inner) => do
    let inner' ← change inner
    return setEntry es key (.table origin inner')
  | some (.tables items) =>
    match items.getLast? with
    | none => none
    | some last => do
      let last' ← change last
      return setEntry es key (.tables (items.dropLast ++ [last']))
  | _ => none

inductive Line
  | blank
  | header (keys : List String)
  | arrayHeader (keys : List String)
  | assignment (keys : List String) (v : Value)
deriving Repr

structure Document where
  root : Entries
  current : List String
deriving Repr

def Document.start : Document := ⟨[], []⟩

def Document.add (d : Document) : Line → Option Document
  | .blank => some d
  | .header keys => (atPath openTable keys d.root).map fun es => ⟨es, keys⟩
  | .arrayHeader keys => (atPath openNext keys d.root).map fun es => ⟨es, keys⟩
  | .assignment keys v =>
    let change := addValue v keys
    let root' := if d.current.isEmpty then change d.root else atPath (inOpened change) d.current d.root
    root'.map fun es => { d with root := es }

end FunctionPairs.Toml
