import FunctionPairs.Proofs.Extraction.Finishing
import FunctionPairs.Proofs.Store.Braces

/-!
The form of extracted rows. Whatever the files are, and however the runs end, the rows that
artifacts and trees bring to a dataset hold bodies in braces on both sides, on which the cut at the
braces has nothing left to do. It holds of the texts in each store, so of what is built from the stores, and so
of everything that is appended, artifact after artifact and run after run.
-/
namespace FunctionPairs.Extraction

open BodySplit (Braced)

def BracedGrowth (before after : Dataset) : Prop :=
  ∃ added, after = before.append added ∧ ∀ r ∈ added, Braced r.source ∧ Braced r.decompiled

theorem BracedGrowth.refl (data : Dataset) : BracedGrowth data data :=
  ⟨[], (Dataset.append_nil data).symm, by simp⟩

theorem BracedGrowth.trans {before middle after : Dataset} (first : BracedGrowth before middle)
    (second : BracedGrowth middle after) : BracedGrowth before after := by
  obtain ⟨rs, rfl, hrs⟩ := first
  obtain ⟨ts, rfl, hts⟩ := second
  refine ⟨rs ++ ts, Dataset.append_append .., ?_⟩
  intro r hr
  exact (List.mem_append.mp hr).elim (hrs r) (hts r)

theorem braced_of_mem_rows {f : Feed} (h : ∀ s ∈ f.stores, s.Braced) {r : Row} (hr : r ∈ f.rows) :
    Braced r.source ∧ Braced r.decompiled := by
  obtain ⟨s, hs, hr⟩ := List.mem_flatMap.mp hr
  obtain ⟨p, hp, rfl⟩ := List.mem_map.mp hr
  exact (h s hs).pairs hp

variable (models : List LanguageModel) (fs : FileSystem) (i : Interrupt) (data : Dataset)

theorem braced_start (artifact : Path) : ∀ s ∈ (Feed.start models artifact).stores, s.Braced := by
  intro s hs
  obtain ⟨m, -, rfl⟩ := List.mem_map.mp hs
  exact ExampleStore.braced_empty m artifact

theorem extractArtifact_braced (stats : ExtractionStats) (artifact : Path) :
    BracedGrowth data (extractArtifact models fs i data stats artifact).value.data := by
  rcases extractArtifact_interrupt models fs artifact data stats i with h | h
  · rw [h.2.1]
    exact .refl data
  · rw [h.2.1, extractArtifact_clear]
    refine ⟨_, rfl, ?_⟩
    intro r hr
    have hstores := forall_feed fs artifact data.remaining (fun _ c hs => hs.step c)
      (fs.walk artifact) .clear (braced_start models artifact)
    exact braced_of_mem_rows hstores (Dataset.mem_of_mem_fitting hr)

variable {models fs data} in
theorem Added.braced {finished : List (Path × List Row)} (h : Added models fs data finished) :
    BracedGrowth data (data.append (finished.flatMap Prod.snd)) := by
  induction h with
  | nil data =>
    rw [List.flatMap_nil, Dataset.append_nil]
    exact .refl data
  | @cons data artifact rs rest own first others ih =>
    have hfirst := extractArtifact_braced models fs .clear data .zero artifact
    rw [first] at hfirst
    rw [List.flatMap_cons, ← Dataset.append_append]
    exact hfirst.trans ih

theorem addRepo_braced (repo : Path) :
    BracedGrowth data (addRepo models fs i data repo).value.data := by
  obtain ⟨finished, rest, hadded, -, hdata, -⟩ := addRepo_added models fs repo i data
  rw [hdata]
  exact hadded.braced

/-- What is extracted into a dataset: all artifacts of a tree, or one artifact that counts towards a
run. Each is read from the files as they are at its time, and may be stopped. -/
inductive Intake
  | tree (files : FileSystem) (interrupt : Interrupt) (repo : Path)
  | artifact (files : FileSystem) (interrupt : Interrupt) (stats : ExtractionStats)
      (directory : Path)

def Intake.into (data : Dataset) : Intake → Dataset
  | .tree files i repo => (addRepo models files i data repo).value.data
  | .artifact files i stats directory =>
    (extractArtifact models files i data stats directory).value.data

def takeAll (intakes : List Intake) : Dataset := intakes.foldl (Intake.into models) data

theorem Intake.into_braced (intake : Intake) : BracedGrowth data (intake.into models data) := by
  cases intake with
  | tree files i repo => exact addRepo_braced models files i data repo
  | artifact files i stats directory =>
    exact extractArtifact_braced models files i data stats directory

/-- After any sequence of intakes, whatever the files hold and whichever of them have failed, a
dataset has its old rows and behind them new ones, whose texts are bodies in braces that the cut at
the braces finds again. -/
theorem takeAll_braced (intakes : List Intake) :
    ∃ added, takeAll models data intakes = data.append added ∧
      ∀ r ∈ added, Braced r.source ∧ Braced r.decompiled := by
  have hall : ∀ data, BracedGrowth data (takeAll models data intakes) := by
    induction intakes with
    | nil => exact .refl
    | cons intake intakes ih =>
      intro data
      exact (intake.into_braced models data).trans (ih (intake.into models data))
  exact hall data

end FunctionPairs.Extraction
