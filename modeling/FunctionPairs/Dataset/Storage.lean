import FunctionPairs.Dataset.Json
import FunctionPairs.FileSystem.Operations

/-!
Datasets in files. Rows are sorted by the length of their sources before they are written.
-/
namespace FunctionPairs.Dataset

/-- Writes a dataset; the rows are sorted even where that fails. -/
def save (d : Dataset) (fs : FileSystem) (p : Path) : Dataset × Except Failure FileSystem :=
  let sorted := d.sortBySourceLength
  (sorted,
    SystemError.because s!"Failed to create {p.display}"
      (fs.write p (Utf8.encode sorted.toJson)))

def load (fs : FileSystem) (p : Path) : Except Failure Dataset :=
  match fs.entry p with
  | .error e => .error (.ofSystem s!"Failed to open dataset {p.display}" e)
  | .ok (.file contents _) =>
    match ofJson contents with
    | none => .error (.message s!"Invalid dataset {p.display}")
    | some d =>
      if d.Aligned then .ok d
      else
        let lengths := s!"{d.sources.length} sources, {d.decompileds.length} decompileds"
        .error (.message
          s!"Dataset {p.display} has misaligned columns: {lengths}, {d.langs.length} code types")
  | .ok _ => .error (.message s!"Invalid dataset {p.display}")

end FunctionPairs.Dataset
