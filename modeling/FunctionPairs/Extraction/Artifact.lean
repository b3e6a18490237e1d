import FunctionPairs.Dataset.Basic
import FunctionPairs.ExampleStore.Basic
import FunctionPairs.Extraction.Stats

/-!
Extracting one artifact directory. Its files go to the example store of every language that
claims them; when they are exhausted, or the stores hold enough examples, all stores are built
and their examples appended to the dataset. An interruption leaves the dataset as it was.
-/
namespace FunctionPairs.Extraction

def say (level : Level) (message : String) : Logged Unit :=
  Logged.say level .extraction message

structure Feed where
  stores : List ExampleStore
  stats : ExtractionStats

namespace Feed

def start (models : List LanguageModel) (artifact : Path) : Feed :=
  ⟨models.map fun m => .empty m artifact, .zero⟩

def pending (f : Feed) : Nat := f.stores.foldl (fun n s => n + s.pendingExamples) 0

end Feed

/-- What became of a file: the role that it has for the last language that claims it, and how
many languages failed to read it. -/
structure Routed where
  claimed : Option FileRole
  failures : Nat
deriving Repr, DecidableEq

def sideOf : Option FileRole → Option Side
  | some .source => some .source
  | some .decompiled => some .decompiled
  | _ => none

def offer (fs : FileSystem) (name : String) (path : Path) (store : ExampleStore) (r : Routed) :
    Logged (ExampleStore × Routed) := do
  let role := store.model.lang.classify name
  match sideOf role with
  | none => pure (store, r)
  | some side =>
    match ← store.add fs side path with
    | .ok (_, next) => pure (next, { r with claimed := role })
    | .error e =>
      e.log
      pure (store, ⟨role, r.failures + 1⟩)

def offerAll (fs : FileSystem) (name : String) (path : Path) (r : Routed) :
    List ExampleStore → Logged (List ExampleStore × Routed)
  | [] => pure ([], r)
  | store :: stores => do
    let (store, r) ← offer fs name path store r
    let (stores, r) ← offerAll fs name path r stores
    pure (store :: stores, r)

def count (path : Path) (r : Routed) (stats : ExtractionStats) : Logged ExtractionStats := do
  let stats := { stats with failedFiles := stats.failedFiles + r.failures }
  match r.claimed with
  | some .source => pure { stats with sourceFiles := stats.sourceFiles + 1 }
  | some .decompiled => pure { stats with decompiledFiles := stats.decompiledFiles + 1 }
  | _ =>
    say .debug s!"Ignoring {path.display}"
    pure { stats with ignoredFiles := stats.ignoredFiles + 1 }

def route (fs : FileSystem) (path : Path) (f : Feed) : Logged Feed := do
  let name := Utf8.decode (path.fileName.getD [])
  let (stores, routed) ← offerAll fs name path ⟨none, 0⟩ f.stores
  let stats ← count path routed f.stats
  pure ⟨stores, stats⟩

def isEnough (room : Option Nat) (f : Feed) : Bool :=
  match room with
  | none => false
  | some n => n ≤ f.pending

structure Fed where
  feed : Feed
  interrupt : Interrupt
  failure : Option Failure

/-- Routes the regular files among what a walk has met, until there is enough. -/
def feed (fs : FileSystem) (artifact : Path) (room : Option Nat) :
    List WalkItem → Interrupt → Feed → Logged Fed
  | [], i, f => pure ⟨f, i, none⟩
  | .failed path cause :: items, i, f => do
    let reason := WalkItem.failureText path cause
    say .warn s!"Skipping unreadable entry in {artifact.display}: {reason}"
    feed fs artifact room items i f
  | .found path (.file ..) :: items, i, f =>
    match i.poll with
    | .error e => pure ⟨f, i, some e⟩
    | .ok i =>
      if isEnough room f then do
        say .debug s!"Example cap reached, not reading further files of {artifact.display}"
        pure ⟨f, i, none⟩
      else do
        let f ← route fs path f
        feed fs artifact room items i f
  | .found _ _ :: items, i, f => feed fs artifact room items i f

def finish (data : Dataset) (stats : ExtractionStats) :
    List ExampleStore → Logged (Dataset × ExtractionStats)
  | [] => pure (data, stats)
  | store :: stores => do
    let built ← store.buildExamples
    let (added, data) := data.extend store.model.lang built.pairs
    finish data
      { stats with
        missingSources := stats.missingSources + built.missingSources.length
        missingDecompileds := stats.missingDecompileds + built.missingDecompileds.length
        examples := stats.examples + added }
      stores

def discardAll : List ExampleStore → Logged Unit
  | [] => pure ()
  | store :: stores => do
    store.processInterrupt
    discardAll stores

def abandon (artifact : Path) (f : Feed) (e : Failure) : Logged Failure := do
  discardAll f.stores
  if e.isInterrupted then say .info s!"Interrupted while extracting {artifact.display}"
  else say .error s!"Failed to extract {artifact.display}: {e.chain}"
  pure (.context s!"While extracting artifact {artifact.display}" e)

structure ArtifactRun where
  outcome : Except Failure Unit
  data : Dataset
  stats : ExtractionStats
  interrupt : Interrupt

def extractArtifact (models : List LanguageModel) (fs : FileSystem) (interrupt : Interrupt)
    (data : Dataset) (stats : ExtractionStats) (artifact : Path) : Logged ArtifactRun := do
  let start := Feed.start models artifact
  let fed ← feed fs artifact data.remaining (fs.walk artifact) interrupt start
  match fed.failure with
  | some e =>
    let failure ← abandon artifact fed.feed e
    pure ⟨.error failure, data, stats, fed.interrupt⟩
  | none =>
    let (data, own) ← finish data fed.feed.stats fed.feed.stores
    say .info s!"{artifact.display}: {own.examples} examples ({data.length} total)"
    pure ⟨.ok (), data, stats.add { own with artifacts := 1 }, fed.interrupt⟩

end FunctionPairs.Extraction
