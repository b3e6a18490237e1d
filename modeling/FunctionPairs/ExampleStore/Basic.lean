import FunctionPairs.ExampleStore.Catalog
import FunctionPairs.LanguageModel

/-!
The functions of one artifact in one language, until its examples are built. Source functions
and decompiled functions are kept apart, each under its identity; the last one with an identity
wins. An example is a source body and a decompiled body with the same identity.
-/
namespace FunctionPairs

structure ExampleStore where
  model : LanguageModel
  root : Path
  sources : Catalog
  decompileds : Catalog
  matched : Nat

structure BuiltExamples where
  /-- Source body and decompiled body, in ascending order of identities. -/
  pairs : List (String × String)
  missingSources : List String
  missingDecompileds : List String
deriving Repr, DecidableEq

inductive Side
  | source
  | decompiled
deriving Repr, DecidableEq

namespace ExampleStore

def empty (model : LanguageModel) (root : Path) : ExampleStore := ⟨model, root, [], [], 0⟩

def side (s : ExampleStore) : Side → Catalog
  | .source => s.sources
  | .decompiled => s.decompileds

def other : Side → Side
  | .source => .decompiled
  | .decompiled => .source

def withSide (s : ExampleStore) (which : Side) (c : Catalog) : ExampleStore :=
  match which with
  | .source => { s with sources := c }
  | .decompiled => { s with decompileds := c }

def identityOf (s : ExampleStore) (path : Path) (f : Function) : String :=
  s.model.identity.identity s.root path f.name

def insertOne (s : ExampleStore) (which : Side) (path : Path) (f : Function) :
    Bool × ExampleStore :=
  let key := s.identityOf path f
  let next := s.withSide which ((s.side which).insert key (BodySplit.ofText f.text).bracedBody)
  if (s.side which).contains key then (false, next)
  else if (s.side (other which)).contains key then
    (true, { next with matched := next.matched + 1 })
  else (true, next)

def insert (s : ExampleStore) (which : Side) (path : Path) : List Function → Nat × ExampleStore
  | [] => (0, s)
  | f :: fs =>
    if f.hasBody then
      let (new, next) := s.insertOne which path f
      let (added, last) := next.insert which path fs
      ((if new then 1 else 0) + added, last)
    else s.insert which path fs

def scrape (s : ExampleStore) (fs : FileSystem) (which : Side) (path : Path) :
    Logged (Except ScrapeError (List Function)) :=
  match which with
  | .source => s.model.scrapeFunctions fs path
  | .decompiled => Decompiled.scrape fs path

/-- Adds the functions of a file; the number of new identities comes with the store. -/
def add (s : ExampleStore) (fs : FileSystem) (which : Side) (path : Path) :
    Logged (Except ScrapeError (Nat × ExampleStore)) := do
  match ← s.scrape fs which path with
  | .error e => pure (.error e)
  | .ok functions => pure (.ok (s.insert which path functions))

def pendingExamples (s : ExampleStore) : Nat := s.matched

def maxListed : Nat := 100

def say (level : Level) (message : String) : Logged Unit :=
  Logged.say level .exampleStore message

def listKeys : List String → Logged Unit
  | [] => pure ()
  | k :: ks => do
    say .debug s!"  {k}"
    listKeys ks

def reportOrphans (root : Path) (what : String) (keys : List String) : Logged Unit := do
  if !keys.isEmpty then
    say .info s!"{root.display}: {keys.length} {what}"
    listKeys (keys.take maxListed)
    if maxListed < keys.length then
      say .debug s!"  ... and {keys.length - maxListed} more"

def built (s : ExampleStore) : BuiltExamples :=
  { pairs := s.decompileds.filterMap fun (k, d) => (s.sources.get? k).map fun t => (t, d)
    missingSources := s.decompileds.keys.filter (!s.sources.contains ·)
    missingDecompileds := s.sources.keys.filter (!s.decompileds.contains ·) }

def buildExamples (s : ExampleStore) : Logged BuiltExamples := do
  reportOrphans s.root "decompiled functions without source" s.built.missingSources
  reportOrphans s.root "source functions without decompiled" s.built.missingDecompileds
  pure s.built

def processInterrupt (s : ExampleStore) : Logged Unit :=
  say .debug
    s!"Discarding {s.sources.length} source and {s.decompileds.length} decompiled functions of {s.root.display}"

end ExampleStore
end FunctionPairs
