import FunctionPairs.FileSystem.Basic
import FunctionPairs.Log

/-!
Failures that concern a single file. They are logged and the file is skipped; a file that is
merely too large is reported quietly.
-/
namespace FunctionPairs

inductive ScrapeError
  | oversized (path : Path) (size limit : Nat)
  | unreadable (path : Path) (reason : String)
  | unparsable (path : Path) (reason : String)
  | badFormat (path : Path) (segments : Nat)
deriving Repr, DecidableEq

namespace ScrapeError

def message : ScrapeError → String
  | oversized p size limit => s!"{p.display} is {size} bytes, over the {limit} byte limit"
  | unreadable p reason => s!"failed to read {p.display}: {reason}"
  | unparsable p reason => s!"failed to parse {p.display}: {reason}"
  | badFormat p segments =>
    s!"bad decompiled format in {p.display}: {segments} segments after splitting on function sentinels"

def level : ScrapeError → Level
  | oversized .. => .debug
  | _ => .warn

def log (e : ScrapeError) : Logged Unit :=
  Logged.say e.level .failures s!"Skipping file: {e.message}"

end ScrapeError
end FunctionPairs
