import FunctionPairs.Proofs.Extraction.Sequence

/-!
Runs that end early. An artifact that is stopped leaves dataset and counters as they were, so a
run over a tree that fails has brought the complete examples of its first artifacts and nothing
else. Only the stop signal makes it fail once it has begun, and the failure tells.
-/
namespace FunctionPairs.Extraction

variable (models : List LanguageModel) (fs : FileSystem) (repo : Path)

def artifacts : List Path :=
  match fs.list repo with
  | .ok entries => entries.filter fs.isDirectory
  | .error _ => []

/-- Artifacts that are added to a dataset in turn, each with the rows that it then appends. -/
inductive Added : Dataset → List (Path × List Row) → Prop
  | nil (data : Dataset) : Added data []
  | cons {data : Dataset} {artifact : Path} {rs : List Row} {rest : List (Path × List Row)}
      {own : ExtractionStats}
      (first : (extractArtifact models fs .clear data .zero artifact).value =
        ⟨.ok (), data.append rs, own, .clear⟩)
      (others : Added (data.append rs) rest) : Added data ((artifact, rs) :: rest)

theorem isInterrupted_interruption (artifact : Path) :
    (interruption artifact).isInterrupted = true := rfl

theorem artifacts_ascending :
    ∃ names : List Name, names.Pairwise (· ≤ ·) ∧ artifacts fs repo = names.map repo.child := by
  unfold artifacts
  cases hlist : fs.list repo with
  | error e => exact ⟨[], List.Pairwise.nil, rfl⟩
  | ok entries =>
    obtain ⟨l, -, rfl⟩ := fs.names_of_list hlist
    refine ⟨(fs.namesIn l).filter (fs.isDirectory ∘ repo.child), ?_, ?_⟩
    · exact (fs.namesIn_ascending l).filter _
    · exact List.filter_map

theorem extractArtifact_ok (i : Interrupt) (data : Dataset) (stats : ExtractionStats)
    (artifact : Path) (h : (extractArtifact models fs i data stats artifact).value.outcome = .ok ()) :
    ∃ rs own, (extractArtifact models fs i data stats artifact).value.data = data.append rs ∧
      (extractArtifact models fs .clear data .zero artifact).value =
        ⟨.ok (), data.append rs, own, .clear⟩ := by
  rcases extractArtifact_interrupt models fs artifact data stats i with hi | hi
  · rw [hi.1] at h
    cases h
  · refine ⟨_, _, ?_, extractArtifact_clear models fs artifact data .zero⟩
    rw [hi.2.1, extractArtifact_clear]

theorem addEntries_added (entries : List Path) (i : Interrupt) (data : Dataset)
    (stats : ExtractionStats) :
    let run := (addEntries models fs stats entries i data).value
    ∃ finished rest, Added models fs data finished ∧
      entries.filter fs.isDirectory = finished.map Prod.fst ++ rest ∧
      run.data = data.append (finished.flatMap Prod.snd) ∧
      (∀ reached, run.outcome = .ok reached → rest = [] ∨ run.data.isFull = true) ∧
      ∀ e, run.outcome = .error e → ∃ artifact, rest.head? = some artifact ∧
        e = interruption artifact := by
  induction entries generalizing stats i data with
  | nil => exact ⟨[], [], .nil data, rfl, (Dataset.append_nil data).symm, fun _ _ => .inl rfl, nofun⟩
  | cons entry entries ih =>
    by_cases hfull : data.isFull = true
    · rw [addEntries_of_full hfull]
      exact ⟨[], _, .nil data, rfl, (Dataset.append_nil data).symm, fun _ _ => .inr hfull, nofun⟩
    cases hd : fs.isDirectory entry with
    | false =>
      rw [addEntries_of_file hfull hd, List.filter_cons_of_neg (by simp [hd])]
      exact ih i data stats
    | true =>
      rw [addEntries_of_artifact hfull hd, List.filter_cons_of_pos hd]
      have hstop := extractArtifact_interrupt models fs entry data stats i
      have hok := extractArtifact_ok models fs i data stats entry
      cases hrun : (extractArtifact models fs i data stats entry).value with
      | mk outcome data' stats' i' =>
        rw [hrun] at hstop hok
        cases outcome with
        | error f =>
          -- the artifact in progress: nothing has been added before it
          obtain ⟨hout, hdata, -⟩ | ⟨hout, -⟩ := hstop
          · cases hout
            refine ⟨[], _, .nil data, rfl, hdata.trans (Dataset.append_nil data).symm, nofun,
              fun e he => ?_⟩
            cases he
            exact ⟨entry, rfl, rfl⟩
          · cases hout
        | ok u =>
          obtain ⟨rs, own, hdata, hclear⟩ := hok rfl
          cases hdata
          obtain ⟨finished, rest, hadded, hsplit, hleft, hends⟩ := ih i' (data.append rs) stats'
          refine ⟨(entry, rs) :: finished, rest, .cons hclear hadded, ?_, ?_, hends⟩
          · rw [hsplit]
            rfl
          · rw [List.flatMap_cons, ← Dataset.append_append]
            exact hleft

theorem addEntries_error {e : Failure} (entries : List Path) (i : Interrupt) (data : Dataset)
    (stats : ExtractionStats)
    (h : (addEntries models fs stats entries i data).value.outcome = .error e) :
    ∃ finished artifact rest, Added models fs data finished ∧
      entries.filter fs.isDirectory = finished.map Prod.fst ++ artifact :: rest ∧
      (addEntries models fs stats entries i data).value.data =
        data.append (finished.flatMap Prod.snd) ∧
      e = interruption artifact := by
  obtain ⟨finished, rest, hadded, hsplit, hdata, -, hstopped⟩ :=
    addEntries_added models fs entries i data stats
  obtain ⟨artifact, hhead, he⟩ := hstopped e h
  obtain ⟨others, rfl⟩ := List.head?_eq_some_iff.mp hhead
  exact ⟨finished, artifact, others, hadded, hsplit, hdata, he⟩

/-- Whenever the stop signal comes, an artifact that it ends leaves dataset and counters as they
were. A run over a tree that fails leaves what was there before it, followed by all the rows of
its first artifacts, each as it is added on its own at that moment, and by nothing of the artifact
in progress. The failure bears the mark of an interruption exactly if the run would not have
failed without the signal. -/
theorem addRepo_interrupted (i : Interrupt) (data : Dataset) :
    (∀ (stats : ExtractionStats) (artifact : Path) (e : Failure),
      let run := (extractArtifact models fs i data stats artifact).value
      run.outcome = .error e → run.data = data ∧ run.stats = stats ∧ e.isInterrupted = true) ∧
    (∀ e : Failure,
      let run := (addRepo models fs i data repo).value
      run.outcome = .error e →
        ∃ finished : List (Path × List Row),
          Added models fs data finished ∧
          finished.map Prod.fst <+: artifacts fs repo ∧
          run.data = data.append (finished.flatMap Prod.snd) ∧
          (e.isInterrupted = true ↔
            ∃ stats, (addRepo models fs .clear data repo).value.outcome = .ok stats) ∧
          (e.isInterrupted = true → ∃ artifact rest,
            artifacts fs repo = finished.map Prod.fst ++ artifact :: rest ∧
            e = interruption artifact)) ∧
    ∃ names : List Name, names.Pairwise (· ≤ ·) ∧ artifacts fs repo = names.map repo.child := by
  refine ⟨?_, ?_, artifacts_ascending fs repo⟩
  · intro stats artifact e run he
    rcases extractArtifact_interrupt models fs artifact data stats i with h | h
    · have hfail : e = interruption artifact := by
        have := he.symm.trans h.1
        exact Except.error.inj this
      rw [hfail]
      exact ⟨h.2.1, h.2.2, isInterrupted_interruption artifact⟩
    · have := he.symm.trans h.1
      cases this
  · intro e run he
    cases hlist : fs.list repo with
    | error cause =>
      -- nothing has begun: the signal plays no part in this failure
      obtain ⟨f, hf, hrun⟩ := addRepo_of_not_list models fs hlist
      have hvalue : run = ⟨.error f, data, i⟩ := hrun i data
      rw [hvalue] at he ⊢
      cases he
      refine ⟨[], .nil data, List.nil_prefix, (Dataset.append_nil data).symm, ?_, ?_⟩
      · rw [hf, hrun]
        exact ⟨fun h => (nomatch h), fun ⟨_, h⟩ => (nomatch h)⟩
      · rw [hf]
        exact fun h => (nomatch h)
    | ok entries =>
      have hvalue : run = (addEntries models fs .zero entries i data).value :=
        addRepo_of_list _ _ _ _ hlist
      rw [hvalue] at he ⊢
      obtain ⟨finished, artifact, rest, hadded, hsplit, hdata, hfail⟩ :=
        addEntries_error models fs entries i data .zero he
      have hartifacts : artifacts fs repo = finished.map Prod.fst ++ artifact :: rest := by
        unfold artifacts
        rw [hlist]
        exact hsplit
      refine ⟨finished, hadded, hartifacts ▸ List.prefix_append _ _, hdata, ?_, ?_⟩
      · rw [hfail, isInterrupted_interruption, addRepo_of_list _ _ _ _ hlist]
        obtain ⟨rs, reached, hclear, -⟩ := addEntries_length models fs .zero entries data
        rw [hclear]
        exact ⟨fun _ => ⟨reached, rfl⟩, fun _ => rfl⟩
      · intro _
        exact ⟨artifact, rest, hartifacts, hfail⟩

/-- The signal comes when one file of the second artifact has been read. -/
theorem addRepo_interrupted_twoArtifacts :
    let run := (addRepo [plainC] twoArtifacts ⟨some 4⟩ (.empty 0) (.ofString "r")).value
    let stopped :=
      (extractArtifact [plainC] twoArtifacts ⟨some 1⟩ run.data .zero (.ofString "r/b")).value
    run.outcome = .error (interruption (.ofString "r/b")) ∧ run.data.rows.length = 1 ∧
      (∃ finished, Added [plainC] twoArtifacts (.empty 0) finished ∧
        finished.map Prod.fst <+: artifacts twoArtifacts (.ofString "r") ∧
        run.data = (Dataset.empty 0).append (finished.flatMap Prod.snd)) ∧
      stopped.outcome = .error (interruption (.ofString "r/b")) ∧ stopped.data = run.data ∧
      stopped.stats = .zero := by
  intro run stopped
  have ha : twoArtifacts.isDirectory (.ofString "r/a") = true := by cbv
  have hb : twoArtifacts.isDirectory (.ofString "r/b") = true := by cbv
  -- three files of the first artifact have been found unstopped, and one of the second
  have hrun : run = ⟨.error (interruption (.ofString "r/b")),
      (Dataset.empty 0).append (contribution [plainC] twoArtifacts (.ofString "r/a")),
      ⟨some 0⟩⟩ := by
    refine (addRepo_of_list _ _ _ _ list_twoArtifacts).trans ?_
    rw [addEntries_of_artifact (by decide) ha, extractArtifact_polls _ _ _ _ _ _ rfl,
      regularFiles_a]
    dsimp only [List.length_cons, List.length_nil]
    rw [if_neg (by decide)]
    dsimp only
    rw [addEntries_of_artifact (by simp [Dataset.isFull, Dataset.empty]) hb,
      extractArtifact_polls _ _ _ _ _ _ rfl, regularFiles_b]
    rfl
  have houtcome : run.outcome = .error (interruption (.ofString "r/b")) := by rw [hrun]
  have hstopped : stopped.outcome = .error (interruption (.ofString "r/b")) := by
    have huncapped : run.data.remaining = none := by
      rw [hrun]
      rfl
    rw [show stopped = _ from extractArtifact_polls _ _ _ _ _ _ huncapped, regularFiles_b]
    rfl
  obtain ⟨finished, hadded, hfirst, hdata, -⟩ :=
    (addRepo_interrupted [plainC] twoArtifacts (.ofString "r") ⟨some 4⟩ (.empty 0)).2.1 _ houtcome
  obtain ⟨hsame, hcounters, -⟩ :=
    (addRepo_interrupted [plainC] twoArtifacts (.ofString "r") ⟨some 1⟩ run.data).1 .zero
      (.ofString "r/b") _ hstopped
  refine ⟨houtcome, ?_, ⟨finished, hadded, hfirst, hdata⟩, hstopped, hsame, hcounters⟩
  rw [hrun, Dataset.rows_append _ (Dataset.aligned_empty 0), Dataset.rows_empty, List.nil_append,
    length_contribution, examplesIn_a]

end FunctionPairs.Extraction
