import FunctionPairs.Proofs.Extraction.Feeding
import FunctionPairs.Proofs.Store.Pending

/-!
The store of one language when some files of an artifact have been offered to it. It has got the
files that the language claims by their names, each as one call, so what it holds is fixed by the
list of files; and as many examples can be built as there are identities on both sides.
-/
namespace FunctionPairs.Extraction

open ExampleStore (Call delivered)

variable (models : List LanguageModel) (fs : FileSystem) (m : LanguageModel) (artifact : Path)

def regularFiles : List Path := (fs.walk artifact).filterMap fileOf

def sideFor (p : Path) : Option Side :=
  sideOf (m.lang.classify (Utf8.decode (p.fileName.getD [])))

def callFor (p : Path) : Option Call := (sideFor m p).map fun side => ⟨fs, side, p⟩

/-- The identities under which files bring functions with bodies to a side. -/
def found (which : Side) (files : List Path) : Finset String :=
  (((delivered m which (files.filterMap (callFor fs m))).filter fun d => d.2.hasBody).map
    fun d => m.identity.identity artifact d.1 d.2.name).toFinset

/-- How many examples files make: one for each identity on both sides, in every language. -/
def examplesIn (files : List Path) : Nat :=
  (models.map fun m =>
    (found fs m artifact .source files ∩ found fs m artifact .decompiled files).card).sum

def storeAfter (files : List Path) : ExampleStore :=
  (ExampleStore.empty m artifact).run (files.filterMap (callFor fs m))

def rowsAfter (files : List Path) : List Row :=
  models.flatMap fun m => storeRows (storeAfter fs m artifact files)

variable {m} in
theorem callFor_of_side {p : Path} {side : Side} (h : sideFor m p = some side) :
    callFor fs m p = some ⟨fs, side, p⟩ := by rw [callFor, h, Option.map_some]

theorem storeAfter_concat (files : List Path) (p : Path) :
    storeAfter fs m artifact (files ++ [p]) =
      match callFor fs m p with
      | none => storeAfter fs m artifact files
      | some c => (storeAfter fs m artifact files).step c := by
  rw [storeAfter, List.filterMap_append, ExampleStore.run, List.foldl_append]
  cases hcall : callFor fs m p with
  | none => simp [hcall, storeAfter, ExampleStore.run]
  | some c => simp [hcall, storeAfter, ExampleStore.run]

theorem storeAfter_model (files : List Path) : (storeAfter fs m artifact files).model = m := by
  induction files using List.reverseRecOn with
  | nil => rfl
  | append_singleton files p ih =>
    rw [storeAfter_concat]
    cases callFor fs m p with
    | none => exact ih
    | some c => exact (ExampleStore.step_model _ c).trans ih

theorem offered_storeAfter (files : List Path) (p : Path) :
    offered fs p (Utf8.decode (p.fileName.getD [])) (storeAfter fs m artifact files) =
      storeAfter fs m artifact (files ++ [p]) := by
  rw [storeAfter_concat, offered, storeAfter_model, callFor, sideFor]
  cases sideOf (m.lang.classify (Utf8.decode (p.fileName.getD []))) <;> rfl

variable {models fs artifact} in
theorem route_storesAfter {files : List Path} {f : Feed}
    (h : f.stores = models.map fun m => storeAfter fs m artifact files) (p : Path) :
    (route fs p f).value.stores = models.map fun m => storeAfter fs m artifact (files ++ [p]) := by
  rw [route_stores, h, List.map_map]
  exact List.map_congr_left fun m _ => offered_storeAfter fs m artifact files p

variable {models fs artifact} in
theorem feed_storesAfter {files : List Path} {items : List WalkItem} {f : Feed}
    (h : f.stores = models.map fun m => storeAfter fs m artifact files) :
    (feed fs artifact none items .clear f).value.feed.stores =
      models.map fun m => storeAfter fs m artifact (files ++ items.filterMap fileOf) := by
  induction items generalizing files f with
  | nil =>
    rw [List.filterMap_nil, List.append_nil]
    exact h
  | cons item items ih =>
    rw [feed_cons]
    cases hitem : fileOf item with
    | none =>
      rw [List.filterMap_cons_none hitem]
      exact ih h
    | some p =>
      rw [List.filterMap_cons_some hitem, List.append_cons]
      exact ih (route_storesAfter h p)

theorem tallied_storeAfter (files : List Path) : (storeAfter fs m artifact files).Tallied :=
  (ExampleStore.tallied_empty m artifact).run _

theorem identities_storeAfter (which : Side) (files : List Path) :
    (storeAfter fs m artifact files).identities which = found fs m artifact which files := by
  ext key
  rw [storeAfter, ExampleStore.mem_identities_run, found]
  simp only [List.mem_toFinset, List.mem_map, List.mem_filter, and_assoc]

theorem pendingExamples_storeAfter (files : List Path) :
    (storeAfter fs m artifact files).pendingExamples =
      (found fs m artifact .source files ∩ found fs m artifact .decompiled files).card := by
  rw [← identities_storeAfter, ← identities_storeAfter]
  exact (tallied_storeAfter fs m artifact files).card_identities.symm

theorem built_storeAfter (files : List Path) :
    (storeAfter fs m artifact files).built.pairs.length =
        (found fs m artifact .source files ∩ found fs m artifact .decompiled files).card ∧
      (storeAfter fs m artifact files).built.missingSources.length =
        (found fs m artifact .decompiled files \ found fs m artifact .source files).card ∧
      (storeAfter fs m artifact files).built.missingDecompileds.length =
        (found fs m artifact .source files \ found fs m artifact .decompiled files).card := by
  have htallied := tallied_storeAfter fs m artifact files
  refine ⟨?_, ?_, ?_⟩
  · rw [htallied.length_pairs, pendingExamples_storeAfter]
  · rw [← identities_storeAfter, ← identities_storeAfter]
    exact htallied.length_orphans .decompiled
  · rw [← identities_storeAfter, ← identities_storeAfter]
    exact htallied.length_orphans .source

theorem length_rowsAfter (files : List Path) :
    (rowsAfter models fs artifact files).length = examplesIn models fs artifact files := by
  rw [rowsAfter, List.length_flatMap, examplesIn]
  congr 1
  refine List.map_congr_left fun m _ => ?_
  rw [storeRows, Dataset.rowsOf, List.length_map, (built_storeAfter fs m artifact files).1]

variable {models fs m artifact}

theorem found_mono {which : Side} {fewer files : List Path} (h : fewer <+: files) :
    found fs m artifact which fewer ⊆ found fs m artifact which files := by
  obtain ⟨rest, rfl⟩ := h
  intro key
  simp only [found, List.filterMap_append, delivered, List.flatMap_append, List.filter_append,
    List.map_append, List.toFinset_append]
  exact Finset.mem_union_left _

theorem examplesIn_mono {fewer files : List Path} (h : fewer <+: files) :
    examplesIn models fs artifact fewer ≤ examplesIn models fs artifact files :=
  List.sum_le_sum fun _ _ =>
    Finset.card_le_card (Finset.inter_subset_inter (found_mono h) (found_mono h))

end FunctionPairs.Extraction
