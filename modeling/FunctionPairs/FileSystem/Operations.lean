import FunctionPairs.FileSystem.Basic

/-!
Reading and changing a file system. An operation that fails leaves the file system as it was,
except for `removeTree` and `createDirectories`, which work step by step and return what they
have reached.
-/
namespace FunctionPairs.FileSystem

def read (fs : FileSystem) (p : Path) : Except SystemError Bytes :=
  match fs.entry p with
  | .error e => .error e
  | .ok (.file contents _) => .ok contents
  | .ok _ => .error .isDirectory

/-- Directories count as one block. -/
def size (fs : FileSystem) (p : Path) : Except SystemError Nat :=
  match fs.entry p with
  | .error e => .error e
  | .ok (.file contents _) => .ok contents.length
  | .ok _ => .ok 4096

def readText (fs : FileSystem) (p : Path) : Except SystemError String :=
  match fs.read p with
  | .error e => .error e
  | .ok bytes =>
    match Utf8.decode? bytes with
    | some s => .ok s
    | none => .error .notText

def list (fs : FileSystem) (p : Path) : Except SystemError (List Path) :=
  match fs.find true p with
  | .error e => .error e
  | .ok (l, .directory) => .ok ((fs.namesIn l).map p.child)
  | .ok _ => .error .notDirectory

/-- Where a file opened for writing is, or will be: links are followed to a missing target. -/
def writable (fs : FileSystem) (p : Path) : Except SystemError Location :=
  match fs.resolve true (if p.endsInSlash then ⟨p.bytes.dropLast⟩ else p) with
  | .error e => .error e
  | .ok l =>
    if p.endsInSlash then .error .isDirectory
    else match fs.entryAt l with
      | some .directory => .error .isDirectory
      | _ => .ok l

def executableAt (fs : FileSystem) (l : Location) : Bool :=
  match fs.entryAt l with
  | some (.file _ x) => x
  | _ => false

def write (fs : FileSystem) (p : Path) (contents : Bytes) : Except SystemError FileSystem :=
  (fs.writable p).map fun l => fs.put l (.file contents (fs.executableAt l))

def copy (fs : FileSystem) (source dest : Path) : Except SystemError FileSystem :=
  match fs.entry source with
  | .error e => .error e
  | .ok (.file contents x) => (fs.writable dest).map fun l => fs.put l (.file contents x)
  | .ok _ => .error .notRegular

def withoutFinalSlashes (p : Path) : Path :=
  ⟨(p.bytes.reverse.dropWhile (· = Path.slash)).reverse⟩

def createDirectory (fs : FileSystem) (p : Path) : Except SystemError FileSystem :=
  if p.isEmpty then .error .notFound
  else
    let bare := withoutFinalSlashes p
    if bare.isEmpty then .error .alreadyExists
    else match fs.resolve false bare with
      | .error e => .error e
      | .ok l =>
        match fs.entryAt l with
        | some _ => .error .alreadyExists
        | none => .ok (fs.put l .directory)

/-- Creates the first path of the list, and before it, if its parent is missing, the others. -/
def createChain (fs : FileSystem) : List Path → Except SystemError Unit × FileSystem
  | [] => (.ok (), fs)
  | p :: above =>
    if p.isEmpty || fs.isDirectory p then (.ok (), fs)
    else match fs.createDirectory p with
      | .ok fs' => (.ok (), fs')
      | .error .notFound =>
        match createChain fs above with
        | (.error e, fs') => (.error e, fs')
        | (.ok (), fs') =>
          match fs'.createDirectory p with
          | .ok fs'' => (.ok (), fs'')
          | .error e => if fs'.isDirectory p then (.ok (), fs') else (.error e, fs')
      | .error e => (.error e, fs)

def createDirectories (fs : FileSystem) (p : Path) : Except SystemError Unit × FileSystem :=
  fs.createChain (p :: p.ancestors)

def removeFile (fs : FileSystem) (p : Path) : Except SystemError FileSystem :=
  match fs.find false p with
  | .error e => .error e
  | .ok (_, .directory) => .error .isDirectory
  | .ok (l, _) => .ok (fs.dropTree l)

/-- Removes an emptied directory. What has gone already counts as removed; a directory named by
`.` or `..` cannot be removed, nor one that is reached through a link. -/
def removeEmptied (fs : FileSystem) (p : Path) : Except SystemError FileSystem :=
  match fs.find false p with
  | .error .notFound => .ok fs
  | .error e => .error e
  | .ok (l, .directory) =>
    match (Path.pieces p.bytes).getLast? with
    | some last =>
      if last = Name.here then .error .invalidArgument
      else if last = Name.up then .error .notEmpty
      else .ok (fs.dropTree l)
    | none => .error .invalidArgument
  | .ok _ => .error .notDirectory

/-- Removes a directory with all it holds, the contents first, or just the link if the path
names one. -/
def removeTree (fs : FileSystem) (p : Path) : Except SystemError Unit × FileSystem :=
  match fs.find false p with
  | .error e => (.error e, fs)
  | .ok (_, .file ..) => (.error .notDirectory, fs)
  | .ok (l, .link _) => (.ok (), fs.dropTree l)
  | .ok (l, .directory) =>
    let emptied := fs.dropBelow l
    match emptied.removeEmptied (withoutFinalSlashes p) with
    | .ok left => (.ok (), left)
    | .error e => (.error e, emptied)

def absolute (fs : FileSystem) (p : Path) : Except SystemError Path :=
  if p.isEmpty then .error .emptyPath
  else
    let names := p.components.filterMap fun c =>
      match c with
      | .name n => some n
      | .up => some Name.up
      | _ => none
    let start := if p.isAbsolute then Location.path [] else fs.working.path
    let all := names.foldl Path.child start
    .ok (if p.endsInSlash then all.join .empty else all)

end FunctionPairs.FileSystem
