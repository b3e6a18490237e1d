import FunctionPairs.Proofs.Extraction.Cap
import FunctionPairs.Proofs.Extraction.Interruption

/-!
Languages side by side. In a run without a cap every language reads the files into a store of its
own, which never sees what the others do, so the rows of a language are those of a run with that
language alone, in the same order.
-/
namespace FunctionPairs.Extraction

def tagged (lang : Lang) (rows : List Row) : List Row := rows.filter (·.lang = lang)

def Undisturbed (run : RepoRun) : Prop := ∀ e, run.outcome = .error e → e.isInterrupted = false

variable (models : List LanguageModel) (m : LanguageModel) (fs : FileSystem)
  (artifact repo : Path)

theorem contribution_eq_flatMap :
    contribution models fs artifact = models.flatMap fun m => contribution [m] fs artifact := by
  simp [contribution_eq_rowsAfter, rowsAfter]

theorem lang_of_mem_contribution {r : Row} (h : r ∈ contribution [m] fs artifact) :
    r.lang = m.lang := by
  rw [contribution_eq_rowsAfter, rowsAfter, List.flatMap_singleton, storeRows, Dataset.rowsOf,
    storeAfter_model, List.mem_map] at h
  obtain ⟨pair, -, rfl⟩ := h
  rfl

theorem tagged_of_lang {lang : Lang} {rs : List Row} (h : ∀ r ∈ rs, r.lang = lang) :
    tagged lang rs = rs := by
  simpa [tagged, List.filter_eq_self] using h

theorem tagged_of_other {lang : Lang} {rs : List Row} (h : ∀ r ∈ rs, r.lang ≠ lang) :
    tagged lang rs = [] := by
  simpa [tagged, List.filter_eq_nil_iff] using h

variable {models m} in
theorem tagged_contribution (hmodels : (models.map (·.lang)).Nodup) (hm : m ∈ models) :
    tagged m.lang (contribution models fs artifact) = contribution [m] fs artifact := by
  have hown : tagged m.lang (contribution [m] fs artifact) = contribution [m] fs artifact :=
    tagged_of_lang fun r hr => lang_of_mem_contribution m fs artifact hr
  have hothers : ∀ others : List LanguageModel, m.lang ∉ others.map (·.lang) →
      tagged m.lang (contribution others fs artifact) = [] := by
    intro others hnot
    apply tagged_of_other
    intro r hr heq
    rw [contribution_eq_flatMap, List.mem_flatMap] at hr
    obtain ⟨n, hn, hr⟩ := hr
    rw [lang_of_mem_contribution n fs artifact hr] at heq
    exact hnot (heq ▸ List.mem_map_of_mem hn)
  obtain ⟨before, behind, rfl⟩ := List.append_of_mem hm
  rw [List.map_append, List.map_cons, List.nodup_append] at hmodels
  obtain ⟨-, hright, hapart⟩ := hmodels
  have hbefore := hothers before fun h => hapart _ h _ List.mem_cons_self rfl
  have hbehind := hothers behind (List.nodup_cons.mp hright).1
  have hsplit : contribution (before ++ m :: behind) fs artifact =
      contribution before fs artifact ++
        (contribution [m] fs artifact ++ contribution behind fs artifact) := by
    rw [contribution_eq_flatMap, List.flatMap_append, List.flatMap_cons,
      ← contribution_eq_flatMap before, ← contribution_eq_flatMap behind]
  rw [tagged] at hown hbefore hbehind ⊢
  rw [hsplit, List.filter_append, List.filter_append, hown, hbefore, hbehind, List.nil_append,
    List.append_nil]

variable {models m} in
theorem tagged_entryRows (hmodels : (models.map (·.lang)).Nodup) (hm : m ∈ models)
    (entries : List Path) :
    tagged m.lang (entryRows models fs entries) = entryRows [m] fs entries := by
  rw [entryRows, entryRows]
  induction entries.filter fs.isDirectory with
  | nil => rfl
  | cons entry rest ih =>
    have hfirst := tagged_contribution fs entry hmodels hm
    rw [tagged] at ih hfirst ⊢
    rw [List.flatMap_cons, List.filter_append, hfirst, ih, List.flatMap_cons]

theorem addRepo_uncapped_rows :
    (addRepo models fs .clear (.empty 0) repo).value.data.rows =
      match fs.list repo with
      | .ok entries => entryRows models fs entries
      | .error _ => [] := by
  cases hlist : fs.list repo with
  | error e =>
    obtain ⟨f, -, hrun⟩ := addRepo_of_not_list models fs hlist
    rw [hrun, Dataset.rows_empty]
  | ok entries => rw [addRepo_of_list _ _ _ _ hlist, addEntries_uncapped, rows_append_empty]

theorem undisturbed_clear (data : Dataset) :
    Undisturbed (addRepo models fs .clear data repo).value := by
  intro e he
  cases hlist : fs.list repo with
  | error cause =>
    obtain ⟨f, hf, hrun⟩ := addRepo_of_not_list models fs hlist
    rw [hrun] at he
    cases he
    exact hf
  | ok entries =>
    obtain ⟨rs, reached, hrun, -⟩ := addEntries_length models fs .zero entries data
    rw [addRepo_of_list _ _ _ _ hlist, hrun] at he
    cases he

theorem addEntries_undisturbed {i : Interrupt} {stats reached : ExtractionStats} {data : Dataset}
    (entries : List Path)
    (h : (addEntries models fs stats entries i data).value.outcome = .ok reached) :
    (addEntries models fs stats entries i data).value.data =
      (addEntries models fs stats entries .clear data).value.data := by
  induction entries generalizing stats i data with
  | nil => rfl
  | cons entry entries ih =>
    by_cases hfull : data.isFull = true
    · rw [addEntries_of_full hfull, addEntries_of_full hfull]
    cases hd : fs.isDirectory entry with
    | false =>
      rw [addEntries_of_file hfull hd] at h ⊢
      rw [addEntries_of_file hfull hd]
      exact ih h
    | true =>
      rw [addEntries_of_artifact hfull hd] at h ⊢
      rw [addEntries_of_artifact hfull hd, extractArtifact_clear]
      have hsame := extractArtifact_interrupt models fs entry data stats i
      rw [extractArtifact_clear] at hsame
      cases hrun : (extractArtifact models fs i data stats entry).value with
      | mk outcome data' stats' i' =>
        rw [hrun] at h hsame
        cases outcome with
        | error e => cases h
        | ok u =>
          obtain ⟨hout, -⟩ | ⟨-, hdata, hstats⟩ := hsame
          · cases hout
          · cases hdata
            cases hstats
            exact ih h

theorem addRepo_undisturbed {i : Interrupt} {data : Dataset}
    (h : Undisturbed (addRepo models fs i data repo).value) :
    (addRepo models fs i data repo).value.data =
      (addRepo models fs .clear data repo).value.data := by
  cases hlist : fs.list repo with
  | error e =>
    obtain ⟨f, -, hrun⟩ := addRepo_of_not_list models fs hlist
    rw [hrun, hrun]
  | ok entries =>
    rw [addRepo_of_list _ _ _ _ hlist] at h ⊢
    rw [addRepo_of_list _ _ _ _ hlist]
    cases hout : (addEntries models fs .zero entries i data).value.outcome with
    | ok reached => exact addEntries_undisturbed models fs entries hout
    | error e =>
      obtain ⟨-, artifact, -, -, -, -, rfl⟩ := addEntries_error models fs entries i data .zero hout
      exact absurd (h _ hout) (by simp [isInterrupted_interruption])

theorem langs_modelsOf (grammar : Syntax.Grammar) (langs : List Lang) (c : Config) (home : Path) :
    (modelsOf grammar langs c fs home).map (·.lang) = langs := by
  rw [modelsOf, List.map_map]
  exact List.map_id langs

variable {models m fs repo} in
theorem tagged_rows (hmodels : (models.map (·.lang)).Nodup) (hm : m ∈ models) {i j : Interrupt}
    (hi : Undisturbed (addRepo models fs i (.empty 0) repo).value)
    (hj : Undisturbed (addRepo [m] fs j (.empty 0) repo).value) :
    tagged m.lang (addRepo models fs i (.empty 0) repo).value.data.rows =
      (addRepo [m] fs j (.empty 0) repo).value.data.rows := by
  rw [addRepo_undisturbed _ fs repo hi, addRepo_undisturbed _ fs repo hj, addRepo_uncapped_rows,
    addRepo_uncapped_rows]
  cases fs.list repo with
  | error e => rfl
  | ok entries => exact tagged_entryRows fs hmodels hm entries

variable {models m} in
/-- The rows of a language in a run without a cap are the rows of the run with that language
alone, so they are the same whatever other languages go with it and in whatever order. -/
theorem addRepo_tagged (hmodels : (models.map (·.lang)).Nodup) (hm : m ∈ models) {i j : Interrupt}
    (hi : Undisturbed (addRepo models fs i (.empty 0) repo).value)
    (hj : Undisturbed (addRepo [m] fs j (.empty 0) repo).value) :
    tagged m.lang (addRepo models fs i (.empty 0) repo).value.data.rows =
        (addRepo [m] fs j (.empty 0) repo).value.data.rows ∧
      ∀ others : List LanguageModel, (others.map (·.lang)).Nodup → m ∈ others → ∀ k : Interrupt,
        Undisturbed (addRepo others fs k (.empty 0) repo).value →
          tagged m.lang (addRepo others fs k (.empty 0) repo).value.data.rows =
            tagged m.lang (addRepo models fs i (.empty 0) repo).value.data.rows := by
  refine ⟨tagged_rows hmodels hm hi hj, fun others hothers hmem k hk => ?_⟩
  rw [tagged_rows hothers hmem hk hj, tagged_rows hmodels hm hi hj]

/-- The models of a configuration have the languages that it is asked for, each once. -/
theorem addRepo_tagged_twoArtifacts :
    let run := fun models => (addRepo models twoArtifacts .clear (.empty 0) (.ofString "r")).value
    ((standardModels twoArtifacts).map (·.lang)).Nodup ∧ plainC ∈ standardModels twoArtifacts ∧
      Undisturbed (run (standardModels twoArtifacts)) ∧ Undisturbed (run [plainC]) ∧
      tagged .c (run (standardModels twoArtifacts)).data.rows = (run [plainC]).data.rows ∧
      (run [plainC]).data.rows.length = 3 := by
  intro run
  have hdistinct : ((standardModels twoArtifacts).map (·.lang)).Nodup := by
    rw [standardModels, langs_modelsOf]
    decide
  have hmem : plainC ∈ standardModels twoArtifacts := by
    rw [← ofConfig_twoArtifacts]
    exact List.mem_map_of_mem List.mem_cons_self
  have hboth :=
    undisturbed_clear (standardModels twoArtifacts) twoArtifacts (.ofString "r") (.empty 0)
  have halone := undisturbed_clear [plainC] twoArtifacts (.ofString "r") (.empty 0)
  have hrows : (run [plainC]).data.rows.length = 3 := by
    rw [addRepo_uncapped_rows, list_twoArtifacts]
    exact length_entryRows_twoArtifacts.2
  exact ⟨hdistinct, hmem, hboth, halone,
    (addRepo_tagged twoArtifacts (.ofString "r") hdistinct hmem hboth halone).1, hrows⟩

end FunctionPairs.Extraction
