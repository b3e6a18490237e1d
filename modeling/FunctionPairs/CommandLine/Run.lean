import FunctionPairs.CommandLine.Commands

/-!
A run of the program: its exit code, what it prints, and the files it leaves. Log records and
the failure go to the error output, a line each; the causes of the failure follow, numbered if
there are several.
-/
namespace FunctionPairs.CommandLine

structure Finish where
  code : Nat
  output : List Line
  errors : List String
  files : FileSystem

def causeLines (causes : List String) : List String :=
  match causes with
  | [] => []
  | [one] => ["", "Caused by:", s!"    {one}"]
  | many => "" :: "Caused by:" :: many.zipIdx.map fun (c, i) => s!"    {i}: {c}"

def failureLines (e : Failure) : List String := s!"Error: {e.text}" :: causeLines e.causes

def logFilter (env : Environment) : LogFilter :=
  .ofText ((env.lookup "LOG_LEVEL").getD "info")

def run (env : Environment) (fs : FileSystem) (args : List String) : Finish :=
  match Request.ofArguments args with
  | .error .bad => ⟨2, [], [], fs⟩
  | .error .help => ⟨0, [], [], fs⟩
  | .ok request =>
    let result := perform env request ⟨fs, []⟩
    let (outcome, session) := result.value
    let logged := (result.records.filter (logFilter env).shows).map Record.line
    match outcome with
    | .ok () => ⟨0, session.lines, logged, session.files⟩
    | .error e => ⟨1, session.lines, logged ++ failureLines e, session.files⟩

end FunctionPairs.CommandLine
