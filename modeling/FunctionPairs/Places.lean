import FunctionPairs.Failure
import FunctionPairs.FileSystem.Operations

/-!
Where the headers of the system are looked up, and what has to hold of input and output places
before any work starts: an input is a directory, an output is made empty or is free to be
written, and an output does not lie inside an input.
-/
namespace FunctionPairs.Places

def usualIncludeDirs : List Path :=
  ["/usr/include", "/usr/local/include", "/opt/local/include", "/opt/homebrew/include",
    "/mingw64/include", "/mingw32/include",
    "/Library/Developer/CommandLineTools/SDKs/MacOSX.sdk/usr/include",
    "/Library/Developer/CommandLineTools/SDKs/MacOSX.sdk/usr/include/c++/v1"].map Path.ofString

def compilerDirs : List Path :=
  ["/usr/lib/clang", "/usr/lib/gcc/x86_64-linux-gnu"].map Path.ofString

/-- What the pattern with `*` in the place of the version stands for, in byte order of the
versions. Names that are not text match no pattern. -/
def versionedIncludeDirs (fs : FileSystem) (compiler : Path) : List Path :=
  match fs.list compiler with
  | .error _ => []
  | .ok versions =>
    (versions.filter fun v => (v.fileName.bind Utf8.decode?).isSome).map fun v =>
      v.join (.ofString "include")

def defaultIncludeDirs (fs : FileSystem) : List Path :=
  (usualIncludeDirs ++ compilerDirs.flatMap (versionedIncludeDirs fs)).filter fs.isDirectory

def alreadyExists (p : Path) : Failure :=
  .message s!"Path {p.display} already exists (use --force to overwrite)"

def requireDirectory (fs : FileSystem) (p : Path) : Except Failure Unit :=
  if !fs.contains p then .error (.message s!"Path {p.display} does not exist")
  else if !fs.isDirectory p then .error (.message s!"Path {p.display} is not a directory")
  else .ok ()

def clear (fs : FileSystem) (p : Path) : Except SystemError Unit × FileSystem :=
  if fs.isDirectory p then fs.removeTree p
  else match fs.removeFile p with
    | .ok fs' => (.ok (), fs')
    | .error e => (.error e, fs)

def create (fs : FileSystem) (p : Path) : Except Failure Unit × FileSystem :=
  let (result, fs') := fs.createDirectories p
  (SystemError.because s!"Failed to create {p.display}" result, fs')

def makeEmptyDirectory (fs : FileSystem) (p : Path) (force : Bool) :
    Except Failure Unit × FileSystem :=
  if !fs.contains p then create fs p
  else if !force then (.error (alreadyExists p), fs)
  else match clear fs p with
    | (.error e, fs') => (.error (.ofSystem s!"Failed to remove {p.display}" e), fs')
    | (.ok (), fs') => create fs' p

/-- The canonical form of the nearest ancestor that exists, with the missing names put back
behind it; `full` if that search ends at a component that is not a name. -/
def resolveFrom (fs : FileSystem) (full : Path) : Nat → Path → List Name → Path
  | 0, _, _ => full
  | fuel + 1, current, missing =>
    match fs.canonical current with
    | .ok existing => missing.foldl Path.child existing
    | .error _ =>
      match current.parent, current.fileName with
      | some above, some name => resolveFrom fs full fuel above (name :: missing)
      | _, _ => full

def resolve (fs : FileSystem) (p : Path) : Except Failure Path :=
  match fs.absolute p with
  | .error e => .error (.ofSystem s!"Failed to resolve {p.display}" e)
  | .ok full => .ok (resolveFrom fs full (full.components.length + 1) full [])

def requireOutside (fs : FileSystem) (inner outer : Path) : Except Failure Unit :=
  match resolve fs inner, resolve fs outer with
  | .error e, _ => .error e
  | _, .error e => .error e
  | .ok i, .ok o =>
    if i.startsWith o then
      .error (.message s!"Output {i.display} is inside input {o.display}")
    else .ok ()

def prepareOutput (fs : FileSystem) (p : Path) (force : Bool) :
    Except Failure Unit × FileSystem :=
  if fs.isDirectory p then (.error (.message s!"Path {p.display} is a directory"), fs)
  else if fs.contains p && !force then (.error (alreadyExists p), fs)
  else match p.parent with
    | none => (.ok (), fs)
    | some above => if above.isEmpty then (.ok (), fs) else create fs above

end FunctionPairs.Places
