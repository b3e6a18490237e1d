import FunctionPairs.Proofs.Extraction.Sequence

/-!
A run into a dataset with a cap against the run without one. The cap cuts the rows off at exactly
its number; up to the artifact in which that happens both runs bring the same rows in the same
places; and a cap that is not reached makes no difference at all.
-/
namespace FunctionPairs.Extraction

open Dataset (fitting)

variable (models : List LanguageModel) (fs : FileSystem) (repo : Path)

theorem rows_append_empty (n : Nat) (rs : List Row) : ((Dataset.empty n).append rs).rows = rs := by
  rw [Dataset.rows_append _ (Dataset.aligned_empty n), Dataset.rows_empty, List.nil_append]

theorem remaining_empty {n : Nat} (hn : 0 < n) : (Dataset.empty n).remaining = some n := by
  show (if n = 0 then none else some (n - 0)) = some n
  rw [if_neg (Nat.pos_iff_ne_zero.mp hn), Nat.sub_zero]

theorem addEntries_uncapped (stats : ExtractionStats) (entries : List Path) :
    (addEntries models fs stats entries .clear (.empty 0)).value =
      ⟨.ok (entryStats models fs stats entries),
        (Dataset.empty 0).append (entryRows models fs entries), .clear⟩ :=
  addEntries_fits models fs stats entries (.empty 0) fun _ hn => nomatch hn

theorem addEntries_within_cap {n : Nat} (hn : 0 < n) (stats : ExtractionStats)
    (entries : List Path) (h : (entryRows models fs entries).length < n) :
    (addEntries models fs stats entries .clear (.empty n)).value =
      ⟨.ok (entryStats models fs stats entries),
        (Dataset.empty n).append (entryRows models fs entries), .clear⟩ := by
  apply addEntries_fits
  intro k hk
  rw [remaining_empty hn, Option.some.injEq] at hk
  exact hk ▸ h

theorem addEntries_below_cap {n : Nat} (hn : 0 < n) (stats : ExtractionStats)
    (entries : List Path)
    (h : (addEntries models fs stats entries .clear (.empty n)).value.data.isFull = false) :
    (entryRows models fs entries).length < n := by
  obtain ⟨rs, reached, hrun, hlen⟩ := addEntries_length models fs stats entries (.empty n)
  rw [hrun] at h
  rw [remaining_empty hn, fitting, List.length_take] at hlen
  have hroom : ¬ ((Dataset.empty n).append rs).remaining = some 0 := by
    rw [← Dataset.isFull_iff]
    simp only [h]
    exact Bool.false_ne_true
  rw [Dataset.remaining_append, remaining_empty hn, Option.map_some, Option.some.injEq] at hroom
  omega

theorem addEntries_data_initial (stats : ExtractionStats) (entries rest : List Path) (n : Nat) :
    (addEntries models fs stats entries .clear (.empty n)).value.data.rows <+:
      (addEntries models fs stats (entries ++ rest) .clear (.empty n)).value.data.rows := by
  obtain ⟨rs, reached, hrun, -⟩ := addEntries_length models fs stats entries (.empty n)
  obtain ⟨ts, hts⟩ := addEntries_appends models fs reached rest .clear ((Dataset.empty n).append rs)
  have hok : (addEntries models fs stats entries .clear (.empty n)).value.outcome = .ok reached := by
    rw [hrun]
  rw [addEntries_append rest hok, hrun, hts,
    Dataset.rows_append _ ((Dataset.aligned_empty n).append rs)]
  exact List.prefix_append _ _

/-- With a cap of `n` a run leaves the smaller of `n` and the number of rows that the run without
a cap leaves. After any first entries that do not fill the dataset it has the same rows as the
other run, and both end with these rows in front. If the other run leaves fewer than `n` rows,
rows and counters of the two are the same. -/
theorem addRepo_capped {n : Nat} (hn : 0 < n) :
    (addRepo models fs .clear (.empty n) repo).value.data.rows.length =
        min n (addRepo models fs .clear (.empty 0) repo).value.data.rows.length ∧
      (∀ finished rest : List Path, fs.list repo = .ok (finished ++ rest) →
        (addEntries models fs .zero finished .clear (.empty n)).value.data.isFull = false →
          (addEntries models fs .zero finished .clear (.empty n)).value.data.rows =
              (addEntries models fs .zero finished .clear (.empty 0)).value.data.rows ∧
            (addEntries models fs .zero finished .clear (.empty n)).value.data.rows <+:
              (addRepo models fs .clear (.empty n) repo).value.data.rows ∧
            (addEntries models fs .zero finished .clear (.empty n)).value.data.rows <+:
              (addRepo models fs .clear (.empty 0) repo).value.data.rows) ∧
      ((addRepo models fs .clear (.empty 0) repo).value.data.rows.length < n →
        (addRepo models fs .clear (.empty n) repo).value.data.rows =
            (addRepo models fs .clear (.empty 0) repo).value.data.rows ∧
          (addRepo models fs .clear (.empty n) repo).value.outcome =
            (addRepo models fs .clear (.empty 0) repo).value.outcome) := by
  cases hlist : fs.list repo with
  | error e =>
    obtain ⟨f, -, hrun⟩ := addRepo_of_not_list models fs hlist
    rw [hrun, hrun]
    refine ⟨?_, fun _ _ h => (nomatch h), fun _ => ⟨rfl, rfl⟩⟩
    exact (Nat.min_zero n).symm
  | ok entries =>
    rw [addRepo_of_list _ _ _ _ hlist, addRepo_of_list _ _ _ _ hlist]
    refine ⟨?_, ?_, ?_⟩
    · obtain ⟨rs, reached, hrun, hlen⟩ := addEntries_length models fs .zero entries (.empty n)
      rw [hrun, addEntries_uncapped, rows_append_empty, rows_append_empty, hlen,
        remaining_empty hn]
      exact List.length_take
    · intro finished rest hsplit hbelow
      rw [Except.ok.injEq] at hsplit
      subst hsplit
      have hlt := addEntries_below_cap models fs hn .zero finished hbelow
      have hsame : (addEntries models fs .zero finished .clear (.empty n)).value.data.rows =
          (addEntries models fs .zero finished .clear (.empty 0)).value.data.rows := by
        rw [addEntries_within_cap models fs hn .zero finished hlt, addEntries_uncapped,
          rows_append_empty, rows_append_empty]
      refine ⟨hsame, addEntries_data_initial models fs .zero finished rest n, ?_⟩
      rw [hsame]
      exact addEntries_data_initial models fs .zero finished rest 0
    · intro hlt
      rw [addEntries_uncapped, rows_append_empty] at hlt
      rw [addEntries_within_cap models fs hn .zero entries hlt, addEntries_uncapped,
        rows_append_empty, rows_append_empty]
      exact ⟨rfl, rfl⟩

/-- A cap of two cuts the second artifact, and one of four is not reached. -/
theorem addRepo_capped_twoArtifacts :
    let run := fun n => (addRepo [plainC] twoArtifacts .clear (.empty n) (.ofString "r")).value.data
    let first := fun n =>
      (addEntries [plainC] twoArtifacts .zero [.ofString "r/a"] .clear (.empty n)).value.data
    0 < 2 ∧ (run 0).rows.length = 3 ∧ (run 2).rows.length = 2 ∧ (first 2).isFull = false ∧
      (first 2).rows.length = 1 ∧ (first 2).rows = (first 0).rows ∧
      (first 2).rows <+: (run 2).rows ∧ (first 2).rows <+: (run 0).rows ∧
      (run 4).rows = (run 0).rows := by
  intro run first
  obtain ⟨hone, hthree⟩ := length_entryRows_twoArtifacts
  have hrun : run 0 = (Dataset.empty 0).append (entryRows [plainC] twoArtifacts
      [.ofString "r/a", .ofString "r/b", .ofString "r/loose.c"]) := by
    refine (congrArg RepoRun.data (addRepo_of_list _ _ _ _ list_twoArtifacts)).trans ?_
    rw [addEntries_uncapped]
  have hall : (run 0).rows.length = 3 := by rw [hrun, rows_append_empty, hthree]
  have hfirst : first 2 =
      (Dataset.empty 2).append (entryRows [plainC] twoArtifacts [.ofString "r/a"]) :=
    congrArg RepoRun.data (addEntries_within_cap _ _ (by decide) .zero _ (by rw [hone]; decide))
  have hbelow : (first 2).isFull = false := by
    rw [hfirst, Dataset.isFull, Dataset.length_append, hone]
    rfl
  obtain ⟨hlength, hplaces, -⟩ :=
    addRepo_capped [plainC] twoArtifacts (.ofString "r") (n := 2) (by decide)
  obtain ⟨hsame, hcapped, hwhole⟩ := hplaces [.ofString "r/a"] _ list_twoArtifacts hbelow
  obtain ⟨-, -, hunreached⟩ :=
    addRepo_capped [plainC] twoArtifacts (.ofString "r") (n := 4) (by decide)
  refine ⟨by decide, hall, ?_, hbelow, ?_, hsame, hcapped, hwhole, (hunreached ?_).1⟩
  · exact hlength.trans (congrArg (min 2) hall)
  · rw [hfirst, rows_append_empty, hone]
  · exact hall.trans_lt (by decide)

end FunctionPairs.Extraction
