import FunctionPairs.Config
import FunctionPairs.Decompiled
import FunctionPairs.Syntax.Analyzer

/-!
Reading source files of one language. The functions of a file are its own and those of all
files that it includes, directly or through others; each file is entered once, by its
canonical path, depth first and in the order of the includes.
-/
namespace FunctionPairs

structure LanguageModel where
  lang : Lang
  analyzer : Syntax.Analyzer
  grammar : Syntax.Grammar
  resolver : IncludeResolver
  /-- Larger files are refused; 0 lifts the limit. -/
  maxSourceBytes : Nat
  identity : IdentityPolicy

structure ScrapedFile where
  functions : List Function
  included : List Path

namespace LanguageModel

def ofConfig (grammar : Syntax.Grammar) (lang : Lang) (c : Config) (fs : FileSystem)
    (home : Path) : LanguageModel :=
  { lang, analyzer := ⟨[lang.dialect]⟩, grammar,
    resolver := ⟨c.includeDirs fs home, c.localIncludeDepth⟩,
    maxSourceBytes := c.maxSourceBytes, identity := c.identity }

def readSource (m : LanguageModel) (fs : FileSystem) (p : Path) : Except ScrapeError Bytes :=
  match fs.size p with
  | .error e => .error (.unreadable p e.message)
  | .ok size =>
    if 0 < m.maxSourceBytes && m.maxSourceBytes < size then
      .error (.oversized p size m.maxSourceBytes)
    else match fs.read p with
      | .error e => .error (.unreadable p e.message)
      | .ok bytes => .ok bytes

def parseFile (m : LanguageModel) (fs : FileSystem) (p : Path) :
    Logged (Except ScrapeError Syntax.ParsedFile) := do
  match m.readSource fs p with
  | .error e => pure (.error e)
  | .ok bytes =>
    match m.analyzer.parseWith m.grammar m.lang.dialect bytes with
    | .error f => pure (.error (.unparsable p f.text))
    | .ok file =>
      if !file.sound then
        Logged.say .debug .languageModel s!"Recovered from syntax errors in {p.display}"
      pure (.ok file)

def resolveIncludes (m : LanguageModel) (fs : FileSystem) (p : Path) :
    List Include → Logged (List Path)
  | [] => pure []
  | i :: is =>
    match m.resolver.resolve fs p i with
    | some found => do
      let rest ← m.resolveIncludes fs p is
      pure (found :: rest)
    | none => do
      Logged.say .debug .languageModel s!"Unresolved include {i.target} in {p.display}"
      m.resolveIncludes fs p is

def scrapeFile (m : LanguageModel) (fs : FileSystem) (p : Path) :
    Logged (Except ScrapeError ScrapedFile) := do
  match ← m.parseFile fs p with
  | .error e => pure (.error e)
  | .ok file =>
    let included ← m.resolveIncludes fs p file.includes
    pure (.ok ⟨file.functions.map fun f => ⟨f.name, file.text f.span⟩, included⟩)

/-- Files are told apart by their canonical paths. -/
def keyOf (fs : FileSystem) (p : Path) : List Component :=
  match fs.canonical p with
  | .ok q => q.components
  | .error _ => p.components

/-- The functions of the pending files, those that they include going before the ones behind
them. `fuel` is a bound on how many files can still be entered. -/
def follow (m : LanguageModel) (fs : FileSystem) (fuel : Nat)
    (visited : List (List Component)) (pending : List Path) : Logged (List Function) :=
  match pending with
  | [] => pure []
  | p :: rest =>
    if visited.contains (keyOf fs p) then m.follow fs fuel visited rest
    else match fuel with
      | 0 => pure []
      | n + 1 => do
        match ← m.scrapeFile fs p with
        | .error e =>
          e.log
          m.follow fs n (keyOf fs p :: visited) rest
        | .ok file =>
          let more ← m.follow fs n (keyOf fs p :: visited) (file.included ++ rest)
          pure (file.functions ++ more)
termination_by (fuel, pending.length)

/-- The functions of a file and of all that it includes. Only the file itself can make this
fail; included files that cannot be read are logged and skipped. -/
def scrapeFunctions (m : LanguageModel) (fs : FileSystem) (p : Path) :
    Logged (Except ScrapeError (List Function)) := do
  match ← m.scrapeFile fs p with
  | .error e => pure (.error e)
  | .ok file =>
    let more ← m.follow fs fs.entries.length [keyOf fs p] file.included
    pure (.ok (file.functions ++ more))

def topLevelUnits (m : LanguageModel) (fs : FileSystem) (p : Path) :
    Logged (Except ScrapeError (List SourceUnit)) := do
  match ← m.parseFile fs p with
  | .error e => pure (.error e)
  | .ok file =>
    pure (.ok (file.topLevelUnits.map fun
      | .function name span => .function ⟨name, file.text span⟩
      | .other span => .other (file.text span)))

end LanguageModel
end FunctionPairs
