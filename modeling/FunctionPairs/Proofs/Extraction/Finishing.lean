import FunctionPairs.Proofs.Extraction.Interruption

/-!
What a run over a tree has brought, however it ends: the rows of the artifacts that it has finished,
never more than there is room for.
-/
namespace FunctionPairs.Extraction

variable {models : List LanguageModel} {fs : FileSystem} {data : Dataset}
  {finished : List (Path × List Row)} {n : Nat}

theorem Added.length_le (h : Added models fs data finished) (hn : data.remaining = some n) :
    (finished.flatMap Prod.snd).length ≤ n := by
  induction h generalizing n with
  | nil data => exact Nat.zero_le n
  | @cons data artifact rs rest own first others ih =>
    obtain ⟨ts, _, hrun, hlength⟩ := extractArtifact_length models fs artifact data .zero
    have hsame : rs.length = ts.length := by
      have hdata := congrArg (fun run => run.data.length) (first.symm.trans hrun)
      simpa using hdata
    have hfirst : rs.length ≤ n := by
      rw [hsame, hlength, hn]
      exact List.length_take_le _ _
    have hothers := ih (n := n - rs.length) (by rw [Dataset.remaining_append, hn]; rfl)
    rw [List.flatMap_cons, List.length_append]
    dsimp only
    omega

/-- The rows that a run leaves are those of the artifacts that it has finished, which are the first
ones of the tree, and all of them if it succeeds without filling the dataset. -/
theorem addRepo_added (models : List LanguageModel) (fs : FileSystem) (repo : Path) (i : Interrupt)
    (data : Dataset) :
    let run := (addRepo models fs i data repo).value
    ∃ finished rest, Added models fs data finished ∧
      artifacts fs repo = finished.map Prod.fst ++ rest ∧
      run.data = data.append (finished.flatMap Prod.snd) ∧
      ∀ stats, run.outcome = .ok stats → rest = [] ∨ run.data.isFull = true := by
  unfold artifacts
  cases hlist : fs.list repo with
  | error cause =>
    obtain ⟨f, -, hrun⟩ := addRepo_of_not_list models fs hlist
    rw [hrun]
    exact ⟨[], [], .nil data, rfl, (Dataset.append_nil data).symm, nofun⟩
  | ok entries =>
    rw [addRepo_of_list _ _ _ _ hlist]
    obtain ⟨finished, rest, hadded, hsplit, hdata, hends, -⟩ :=
      addEntries_added models fs entries i data .zero
    exact ⟨finished, rest, hadded, hsplit, hdata, hends⟩

end FunctionPairs.Extraction
