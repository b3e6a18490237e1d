import FunctionPairs.CommandLine.Request
import FunctionPairs.CommandLine.Session
import FunctionPairs.Dataset.Shuffle
import FunctionPairs.Dataset.Storage
import FunctionPairs.Extraction.Repo
import FunctionPairs.Toml.Settings
import FunctionPairs.Transformation.Directory
import FunctionPairs.Translator.Command
import FunctionPairs.Translator.Endpoint

/-!
The four commands.
-/
namespace FunctionPairs.CommandLine

open SessionStep

def loadConfig (env : Environment) (p : Option Path) : SessionStep Config := do
  let fs ← files
  Action.ofExcept (Config.load fs p env.lookup)

def saveDataset (d : Dataset) (p : Path) : SessionStep Dataset :=
  changeWith fun fs => d.save fs p

def loadDataset (p : Path) : SessionStep Dataset := do
  let fs ← files
  Action.ofExcept (Dataset.load fs p)

/-- Extracts examples and saves them. After an interruption those of the finished artifacts are
saved, and the run fails all the same. -/
def extract (env : Environment) (o : ExtractOptions) : SessionStep Unit := do
  let langs ← Action.ofExcept (Lang.parseList o.types)
  let config ← loadConfig env o.config
  let fs ← files
  Action.ofExcept (Places.requireDirectory fs o.input)
  changeInPart fun fs => Places.prepareOutput fs o.output o.force
  print s!"🔄 Extracting examples from {o.input.display}..."
  let fs ← files
  let models := Extraction.modelsOf env.grammar langs config fs env.home
  let run ← Action.ofLogged (Extraction.addRepo models fs env.interrupt (.empty o.count) o.input)
  match run.outcome with
  | .ok stats =>
    let data ← saveDataset run.data o.output
    print s!"✅ Saved {data.length} examples to {o.output.display}"
    print s!"   Artifacts:        {stats.artifacts}"
    print s!"   Source files:     {stats.sourceFiles}"
    print s!"   Decompiled files: {stats.decompiledFiles}"
    print s!"   Ignored files:    {stats.ignoredFiles}"
    print s!"   Failed files:     {stats.failedFiles}"
    print s!"   Unmatched:        {stats.missingSources} without source, {stats.missingDecompileds} without decompiled"
    printLines [.elapsed "   Time:             "]
  | .error e =>
    if e.isInterrupted then
      say .warn "Interrupted, saving examples from completed artifacts"
      let data ← saveDataset run.data o.output
      print s!"⚠️  Interrupted: saved {data.length} examples to {o.output.display}"
    Action.fail e

/-- Colours are used where they are forced; the output is taken not to be a terminal. -/
def usesColour (env : Environment) : Bool :=
  match env.lookup "CLICOLOR_FORCE" with
  | none => false
  | some v => v ≠ "0"

def coloured (colour : Bool) (code text : String) : String :=
  if colour then "\x1b[1;" ++ code ++ "m" ++ text ++ "\x1b[0m" else text

def rowLines (colour : Bool) (index : Nat) (r : Row) : List Line :=
  [.text (coloured colour "34" s!"━━━ #{index} [{r.lang.key}]"),
    .text (coloured colour "32" "source:"), .text r.source,
    .text (coloured colour "33" "decompiled:"), .text r.decompiled]

def countLines (counts : List (Lang × Nat)) : List Line :=
  counts.map fun (l, n) => .text s!"   {l.key}: {n}"

/-- The rows that are left of a dataset: those of some languages, shuffled, one page of them. -/
def selectRows (d : Dataset) (langs : Option (List Lang)) (seed : Option Nat)
    (count skip : Nat) : Dataset :=
  let d := (langs.map d.limitLangs).getD d
  let d := (seed.map fun s => d.shuffle (UInt64.ofNat s)).getD d
  d.limitCount count skip

def inspect (env : Environment) (o : InspectOptions) : SessionStep Unit := do
  let all ← loadDataset o.input
  let langs ←
    match o.types with
    | none => pure none
    | some types => some <$> Action.ofExcept (Lang.parseList types)
  let shown := selectRows all langs o.shuffle o.count o.skip
  printLines (shown.rows.zipIdx.flatMap fun (r, i) => rowLines (usesColour env) i r)
  print s!"📊 {shown.length} of {all.length} examples shown"
  printLines (countLines shown.langCounts)

def split (o : SplitOptions) : SessionStep Unit := do
  if o.input.same o.output then
    Action.fail (.message "Held-out file must differ from the input")
  let all ← loadDataset o.input
  changeInPart fun fs => Places.prepareOutput fs o.output o.force
  let (left, heldOut) ← Action.ofExcept (all.splitOffEnd o.ratio)
  let heldOut ← saveDataset heldOut o.output
  let left ← saveDataset left o.input
  print s!"✂️  Split {left.length + heldOut.length} examples"
  print s!"   Kept:     {left.length} in {o.input.display}"
  print s!"   Held out: {heldOut.length} in {o.output.display}"

/-- No server is within reach: any body that is sent there fails. -/
def unreachable (address : String) : Translator Unit := fun _ state =>
  ⟨.error (.message s!"Failed to reach translator at {Endpoint.ofAddress address}"), state, false⟩

def translatorOf (fs : FileSystem) : Backend → Except Failure (Translator Unit)
  | .program name args => Translator.ofCommand fs name args
  | .endpoint address => .ok (unreachable address)
  | .dryRun => .ok Translator.passthrough

def runTransformer (env : Environment) (t : Transformer Unit) (o : TransformOptions) :
    SessionStep TransformStats :=
  fun s =>
    let start := ⟨s.files, .zero, (), env.interrupt⟩
    let run := t.transformDirectory o.input o.output o.force start
    ⟨(run.value.1, { s with files := run.value.2.files }), run.records⟩

def transform (env : Environment) (o : TransformOptions) : SessionStep Unit := do
  let langs ← Action.ofExcept (Lang.parseList o.types)
  let config ← loadConfig env o.config
  print s!"🔄 Transforming {o.input.display} into {o.output.display}..."
  let fs ← files
  let translator ← Action.ofExcept (translatorOf fs o.backend)
  let models := Extraction.modelsOf env.grammar langs config fs env.home
  let stats ← runTransformer env ⟨models, translator, o.count⟩ o
  print "✅ Transform complete"
  print s!"   Files transformed: {stats.filesTransformed}"
  print s!"   Functions:         {stats.functionsTransformed}"
  print s!"   Files copied:      {stats.filesCopied}"
  print s!"   Directories:       {stats.directories}"
  printLines [.elapsed "   Time:              "]

def perform (env : Environment) : Request → SessionStep Unit
  | .extract o => extract env o
  | .inspect o => inspect env o
  | .split o => split o
  | .transform o => transform env o
  | .version => print "understandable-binary 0.1.0"

end FunctionPairs.CommandLine
