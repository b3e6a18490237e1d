import FunctionPairs.CommandLine.Run
import FunctionPairs.Syntax.Items

/-!
The program itself: it reads the files that a run may look at, carries the run out on them, and
writes back what has changed. The working directory is read with all below it, and so are the
paths that the arguments name and the include directories, those of the machine only for a run
that follows includes.
-/
namespace FunctionPairs.Main

def spelled (l : Location) : String := l.path.display

def located (p : String) : Location := (Path.ofString p).steps

def scriptMark : Bytes := Utf8.encode "#!"

def readFile (l : Location) : IO Entry := do
  let contents := (← IO.FS.readBinFile (spelled l)).toList
  return .file contents (scriptMark.isPrefixOf contents)

def readLink (l : Location) : IO Entry := do
  return .link (.ofString (← IO.FS.realPath (spelled l)).toString)

/-- Adds what lies at a location and, down to a number of levels, below it. What cannot be read
is left out. -/
def readTree : Nat → FileSystem → Location → IO FileSystem
  | 0, fs, _ => return fs
  | depth + 1, fs, l => do
    let path := System.mkFilePath [spelled l]
    let .ok found ← path.symlinkMetadata.toBaseIO | return fs
    match found.type with
    | .dir =>
      let .ok names ← path.readDir.toBaseIO | return fs
      names.foldlM (fun fs e => readTree depth fs (l ++ [Utf8.encode e.fileName]))
        (fs.put l .directory)
    | .symlink =>
      let .ok link ← (readLink l).toBaseIO | return fs
      return fs.put l link
    | _ =>
      let .ok file ← (readFile l).toBaseIO | return fs
      return fs.put l file

def wayTo (l : Location) : List Location := (List.range (l.length + 1)).map l.take

def putWay (fs : FileSystem) (l : Location) : FileSystem :=
  ((wayTo l).drop 1).foldl (fun fs d => fs.put d .directory) fs

def readPlace (fs : FileSystem) (l : Location) : IO FileSystem := do
  let path := System.mkFilePath [spelled l]
  let .ok found ← path.symlinkMetadata.toBaseIO | return fs
  let .ok real ← (IO.FS.realPath path).toBaseIO | return fs
  let real := located real.toString
  let fs := if ← path.isDir then putWay fs real else putWay fs real.dropLast
  match found.type with
  | .symlink => return fs.put l (.link real.path)
  | _ => return fs

def readPath (depth : Nat) (fs : FileSystem) (p : Path) : IO FileSystem := do
  let .ok whole := fs.absolute p | return fs
  let l := located whole.display
  let fs ← (wayTo l).foldlM readPlace fs
  let .ok real ← (IO.FS.realPath (spelled l)).toBaseIO | return fs
  readTree depth fs (located real.toString)

def readPaths : FileSystem → List Path → IO FileSystem :=
  List.foldlM (readPath FileSystem.maxPathLength)

/-- Of a compiler's directory only the versions are read, not what else they hold. -/
def readDefaultIncludeDirs (fs : FileSystem) : IO FileSystem := do
  let fs ← Places.compilerDirs.foldlM (readPath 2) fs
  let versioned := Places.compilerDirs.flatMap (Places.versionedIncludeDirs fs)
  readPaths fs (Places.usualIncludeDirs ++ versioned)

def removeEntry (l : Location) : Entry → IO Unit
  | .directory => IO.FS.removeDir (spelled l)
  | _ => IO.FS.removeFile (spelled l)

def writeEntry (l : Location) : Entry → IO Unit
  | .directory => IO.FS.createDirAll (spelled l)
  | .file contents _ => IO.FS.writeBinFile (spelled l) ⟨contents.toArray⟩
  | .link _ => return ()

def sameKind (a b : Entry) : Bool :=
  a.isDirectory == b.isDirectory && a.isFile == b.isFile

def shorter (a b : Location × Entry) : Bool := a.1.length ≤ b.1.length

/-- Carries a change of files over: what is gone is removed from the leaves up, and what is new
is written from the root down. -/
def writeBack (before after : FileSystem) : IO Unit := do
  let gone := before.entries.filter fun (l, e) => !(after.entryAt l).any (sameKind e)
  let new := after.entries.filter fun (l, e) => before.entryAt l ≠ some e
  (gone.mergeSort fun a b => shorter b a).forM fun (l, e) => removeEntry l e
  (new.mergeSort shorter).forM fun (l, e) => writeEntry l e

def variableNames : List String :=
  ["LIBRARY_DIRS", "LOCAL_INCLUDE_CHILD_DEPTH", "MAX_SOURCE_BYTES", "LOG_LEVEL", "CLICOLOR_FORCE"]

def readEnvironment : IO CommandLine.Environment := do
  let values ← variableNames.mapM fun name => return (name, ← IO.getEnv name)
  let home := (← IO.getEnv "HOME").getD "/"
  return ⟨Syntax.parse, .ofString home, fun name => (values.lookup name).join, .clear⟩

def readFiles (env : CommandLine.Environment) (args : List String) : IO FileSystem := do
  let here := located (← IO.FS.realPath (← IO.currentDir)).toString
  let fs := putWay ⟨[], here⟩ here
  let .ok request := CommandLine.Request.ofArguments args | return fs
  let fs ← readTree FileSystem.maxPathLength fs here
  let fs ← readPaths fs request.paths
  let .ok config := Config.load fs request.config? env.lookup | return fs
  let fs ← readPaths fs (config.libraryDirs.map (Config.expandTilde env.home))
  match request with
  | .extract _ => readDefaultIncludeDirs fs
  | _ => return fs

def seconds (ms : Nat) : String :=
  let tenths := (ms + 50) / 100
  s!"{tenths / 10}.{tenths % 10}s"

def lineText (started now : Nat) : CommandLine.Line → String
  | .text line => line
  | .elapsed label => label ++ seconds (now - started)

end FunctionPairs.Main

open FunctionPairs FunctionPairs.Main in
def main (args : List String) : IO UInt32 := do
  let started ← IO.monoMsNow
  let env ← readEnvironment
  let fs ← readFiles env args
  let finish := CommandLine.run env fs args
  writeBack fs finish.files
  let now ← IO.monoMsNow
  finish.output.forM fun line => IO.println (lineText started now line)
  finish.errors.forM IO.eprintln
  if finish.code = 2 then IO.eprintln "usage: understandable extract|inspect|split|transform OPTION ..."
  return finish.code.toUInt32
