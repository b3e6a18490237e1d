import FunctionPairs.Path

/-!
A file system as a finite map from locations to directories, files and links, and the lookup
of a path in it. A location is the list of names from the root, free of links and dots; the
root itself is always a directory.
-/
namespace FunctionPairs

inductive SystemError
  | notFound
  | alreadyExists
  | notDirectory
  | isDirectory
  | invalidArgument
  | nameTooLong
  | notEmpty
  | tooManyLinks
  | emptyPath
  | notRegular
  | notText
  | notExecutable
deriving Repr, DecidableEq

def SystemError.message : SystemError → String
  | notFound => "No such file or directory (os error 2)"
  | alreadyExists => "File exists (os error 17)"
  | notDirectory => "Not a directory (os error 20)"
  | isDirectory => "Is a directory (os error 21)"
  | invalidArgument => "Invalid argument (os error 22)"
  | nameTooLong => "File name too long (os error 36)"
  | notEmpty => "Directory not empty (os error 39)"
  | tooManyLinks => "Too many levels of symbolic links (os error 40)"
  | emptyPath => "cannot make an empty path absolute"
  | notRegular => "the source path is neither a regular file nor a symlink to a regular file"
  | notText => "stream did not contain valid UTF-8"
  | notExecutable => "Exec format error (os error 8)"

abbrev Location := List Name

namespace Location

def path : Location → Path
  | [] => ⟨[Path.slash]⟩
  | names => ⟨names.flatMap (Path.slash :: ·)⟩

end Location

inductive Entry
  | directory
  | file (contents : Bytes) (executable : Bool)
  | link (target : Path)
deriving Repr, DecidableEq

namespace Entry

def isDirectory : Entry → Bool
  | directory => true
  | _ => false

def isFile : Entry → Bool
  | file .. => true
  | _ => false

end Entry

/-- Of a file there is its contents and whether it may be run. Other permissions, devices and
hard links are left out, so whatever is found can be read. -/
structure FileSystem where
  entries : List (Location × Entry)
  working : Location
deriving Repr

namespace FileSystem

def entryAt (fs : FileSystem) : Location → Option Entry
  | [] => some .directory
  | l => fs.entries.lookup l

def put (fs : FileSystem) (l : Location) (e : Entry) : FileSystem :=
  { fs with entries := fs.entries.filter (·.1 ≠ l) ++ [(l, e)] }

def dropTree (fs : FileSystem) (l : Location) : FileSystem :=
  { fs with entries := fs.entries.filter fun e => !l.isPrefixOf e.1 }

/-- Takes away all below a location, but not the location itself. -/
def dropBelow (fs : FileSystem) (l : Location) : FileSystem :=
  { fs with entries := fs.entries.filter fun e => e.1 = l || !l.isPrefixOf e.1 }

def namesIn (fs : FileSystem) (l : Location) : List Name :=
  let names := fs.entries.filterMap fun e =>
    match e.1.getLast? with
    | some n => if e.1.dropLast = l then some n else none
    | none => none
  names.mergeSort Name.le

def maxLinks : Nat := 40

def maxNameLength : Nat := 255

def maxPathLength : Nat := 4095

/-- Goes through the steps of a path. The last step may name what does not exist yet; a link
there is followed only if `follow` is set. -/
def resolveSteps (fs : FileSystem) (follow : Bool) (links : Nat) (here : Location) :
    List Name → Except SystemError Location
  | [] => .ok here
  | s :: rest =>
    if s = Name.here then resolveSteps fs follow links here rest
    else if s = Name.up then resolveSteps fs follow links here.dropLast rest
    else if maxNameLength < s.length then .error .nameTooLong
    else
      let there := here ++ [s]
      match fs.entryAt there with
      | none => if rest.isEmpty then .ok there else .error .notFound
      | some .directory => resolveSteps fs follow links there rest
      | some (.file ..) => if rest.isEmpty then .ok there else .error .notDirectory
      | some (.link target) =>
        if rest.isEmpty && !follow then .ok there
        else match links with
          | 0 => .error .tooManyLinks
          | n + 1 =>
            resolveSteps fs follow n (if target.isAbsolute then [] else here)
              (target.steps ++ rest)
termination_by steps => (links, steps.length)

/-- The location that a path leads to, which may be missing if all above it exists. -/
def resolve (fs : FileSystem) (follow : Bool) (p : Path) : Except SystemError Location :=
  if p.isEmpty then .error .notFound
  else if maxPathLength < p.bytes.length then .error .nameTooLong
  else fs.resolveSteps follow maxLinks (if p.isAbsolute then [] else fs.working) p.steps

def find (fs : FileSystem) (follow : Bool) (p : Path) : Except SystemError (Location × Entry) :=
  match fs.resolve follow p with
  | .error e => .error e
  | .ok l =>
    match fs.entryAt l with
    | none => .error .notFound
    | some e => .ok (l, e)

def entry (fs : FileSystem) (p : Path) : Except SystemError Entry :=
  (fs.find true p).map (·.2)

def linkEntry (fs : FileSystem) (p : Path) : Except SystemError Entry :=
  (fs.find false p).map (·.2)

def contains (fs : FileSystem) (p : Path) : Bool := (fs.entry p).isOk

def isDirectory (fs : FileSystem) (p : Path) : Bool :=
  match fs.entry p with
  | .ok e => e.isDirectory
  | .error _ => false

def isFile (fs : FileSystem) (p : Path) : Bool :=
  match fs.entry p with
  | .ok e => e.isFile
  | .error _ => false

def canonical (fs : FileSystem) (p : Path) : Except SystemError Path :=
  (fs.find true p).map (·.1.path)

end FileSystem
end FunctionPairs
