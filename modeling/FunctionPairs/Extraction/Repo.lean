import FunctionPairs.Extraction.Artifact
import FunctionPairs.Places

/-!
Extracting all artifacts of a tree, in byte order of their names, until the dataset is full.
Whatever ends a run early, the dataset keeps the examples of the artifacts finished before.
-/
namespace FunctionPairs.Extraction

structure RepoRun where
  outcome : Except Failure ExtractionStats
  data : Dataset
  interrupt : Interrupt

def addEntries (models : List LanguageModel) (fs : FileSystem) (stats : ExtractionStats) :
    List Path → Interrupt → Dataset → Logged RepoRun
  | [], i, data => pure ⟨.ok stats, data, i⟩
  | entry :: entries, i, data =>
    if data.isFull then do
      say .info s!"Reached {data.length} examples, stopping"
      pure ⟨.ok stats, data, i⟩
    else if !fs.isDirectory entry then do
      say .debug s!"Skipping loose file {entry.display}"
      addEntries models fs stats entries i data
    else do
      let run ← extractArtifact models fs i data stats entry
      match run.outcome with
      | .error e => pure ⟨.error e, run.data, run.interrupt⟩
      | .ok () => addEntries models fs run.stats entries run.interrupt run.data

def addRepo (models : List LanguageModel) (fs : FileSystem) (interrupt : Interrupt)
    (data : Dataset) (repo : Path) : Logged RepoRun :=
  match Places.requireDirectory fs repo with
  | .error e => pure ⟨.error e, data, interrupt⟩
  | .ok () =>
    match SystemError.because s!"Failed to list {repo.display}" (fs.list repo) with
    | .error e => pure ⟨.error e, data, interrupt⟩
    | .ok entries => addEntries models fs .zero entries interrupt data

def modelsOf (grammar : Syntax.Grammar) (langs : List Lang) (c : Config) (fs : FileSystem)
    (home : Path) : List LanguageModel :=
  langs.map fun l => .ofConfig grammar l c fs home

end FunctionPairs.Extraction
