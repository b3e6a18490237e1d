import FunctionPairs.Proofs.Extraction.Counters

/-!
What the counter of failures counts. A file that several languages claim is read once by each, and
each failure is counted. The files of decompiled form are read alike in all languages, so one that
cannot be read fails in all that claim it. The count is the number of failing files exactly if none
of them fails in more than one language; then, as with one language, there are no more failures than
claimed files.
-/
namespace FunctionPairs.Extraction

variable (models : List LanguageModel) (fs : FileSystem)

def failing (p : Path) : Bool := models.any (fails fs · p)

theorem failing_iff (p : Path) :
    failing models fs p = true ↔ 0 < models.countP (fails fs · p) := by
  rw [failing, List.any_eq_true, List.countP_pos_iff]

theorem fails_decompiled {m : LanguageModel} {p : Path} (h : sideFor m p = some .decompiled) :
    fails fs m p = !(Decompiled.scrape fs p).value.isOk := by
  rw [fails, callFor, h]
  rfl

theorem sideFor_of_fails {m : LanguageModel} {p : Path} (h : fails fs m p = true) :
    (sideFor m p).isSome = true := by
  cases hside : sideFor m p with
  | none => simp [fails, callFor, hside] at h
  | some side => rfl

theorem claimed_of_failing {p : Path} (h : failing models fs p = true) :
    claimed models p = true := by
  obtain ⟨m, hm, hfails⟩ := List.any_eq_true.mp h
  exact List.any_eq_true.mpr ⟨m, hm, sideFor_of_fails fs hfails⟩

theorem countP_failing_le (files : List Path) :
    files.countP (failing models fs) ≤ files.countP (claimed models) :=
  List.countP_mono_left fun _ _ h => claimed_of_failing models fs h

theorem failures_bounds (files : List Path) :
    files.countP (failing models fs) ≤ (files.map fun p => models.countP (fails fs · p)).sum ∧
      (files.map fun p => models.countP (fails fs · p)).sum ≤
        models.length * files.countP (failing models fs) := by
  -- a file adds its failures to the sum, and one to the count exactly if it has any
  induction files with
  | nil => simp
  | cons p files ih =>
    rw [List.countP_cons, List.map_cons, List.sum_cons, Nat.mul_add]
    by_cases hfails : failing models fs p = true
    · have hpos := (failing_iff models fs p).mp hfails
      have hle : models.countP (fails fs · p) ≤ models.length := List.countP_le_length
      rw [if_pos hfails]
      omega
    · have hzero := mt (failing_iff models fs p).mpr hfails
      rw [if_neg hfails]
      omega

theorem failures_eq_iff (files : List Path) :
    (files.map fun p => models.countP (fails fs · p)).sum = files.countP (failing models fs) ↔
      ∀ p ∈ files, models.countP (fails fs · p) ≤ 1 := by
  induction files with
  | nil => simp
  | cons p files ih =>
    have hrest := (failures_bounds models fs files).1
    rw [List.forall_mem_cons, ← ih, List.countP_cons, List.map_cons, List.sum_cons]
    by_cases hfails : failing models fs p = true
    · have hpos := (failing_iff models fs p).mp hfails
      rw [if_pos hfails]
      omega
    · have hzero := mt (failing_iff models fs p).mpr hfails
      rw [if_neg hfails]
      omega

/-- The failures of a successful run, against the files that it has read: one failure for each
language that claims a file and cannot read it. There is at least one for each failing file and at
most one per language, and the failing files are among the claimed ones. So the counter counts files,
and stays within the claimed ones, if none fails in two languages, and only then does it count files. -/
theorem addRepo_failures (repo : Path) (i : Interrupt) (data : Dataset) {stats : ExtractionStats}
    (h : (addRepo models fs i data repo).value.outcome = .ok stats) :
    let last := (addRepo models fs i data repo).value.data
    ∃ processed rest, Processed models fs data processed last ∧
      artifacts fs repo = processed.map Prod.fst ++ rest ∧ (rest = [] ∨ last.isFull = true) ∧
      let files := processed.flatMap Prod.snd
      stats.sourceFiles + stats.decompiledFiles = files.countP (claimed models) ∧
      stats.failedFiles = (files.map fun p => models.countP (fails fs · p)).sum ∧
      files.countP (failing models fs) ≤ stats.failedFiles ∧
      stats.failedFiles ≤ models.length * files.countP (failing models fs) ∧
      files.countP (failing models fs) ≤ stats.sourceFiles + stats.decompiledFiles ∧
      (stats.failedFiles = files.countP (failing models fs) ↔
        ∀ p ∈ files, models.countP (fails fs · p) ≤ 1) ∧
      ((∀ p ∈ files, models.countP (fails fs · p) ≤ 1) →
        stats.failedFiles ≤ stats.sourceFiles + stats.decompiledFiles) := by
  obtain ⟨processed, rest, hprocessed, hsplit, hends, haccounted, -⟩ :=
    addRepo_accounted models fs repo i data h
  obtain ⟨hleast, hmost⟩ := failures_bounds models fs (processed.flatMap Prod.snd)
  have hexact := failures_eq_iff models fs (processed.flatMap Prod.snd)
  have hclaimed := countP_failing_le models fs (processed.flatMap Prod.snd)
  rw [← haccounted.counted.failed] at hleast hmost hexact
  rw [← haccounted.counted.taken] at hclaimed
  refine ⟨processed, rest, hprocessed, hsplit, hends, haccounted.counted.taken,
    haccounted.counted.failed, hleast, hmost, hclaimed, hexact, ?_⟩
  intro honce
  exact (hexact.mpr honce).trans_le hclaimed

def misformatted : FileSystem where
  entries :=
    let r := Utf8.encode "r"
    let a := Utf8.encode "a"
    [([r], .directory), ([r, a], .directory),
      ([r, a, Utf8.encode "f.o.c"], .file (Utf8.encode "// FUNCTION\n") false)]
  working := []

theorem list_misformatted : misformatted.list (.ofString "r") = .ok [.ofString "r/a"] := by cbv

theorem artifacts_misformatted : artifacts misformatted (.ofString "r") = [.ofString "r/a"] := by cbv

theorem regularFiles_misformatted :
    regularFiles misformatted (.ofString "r/a") = [.ofString "r/a/f.o.c"] := by cbv

theorem addRepo_misformatted : ∃ stats,
    (addRepo models misformatted .clear (.empty 0) (.ofString "r")).value.outcome = .ok stats := by
  obtain ⟨rs, stats, hrun, -⟩ :=
    addEntries_length models misformatted .zero [.ofString "r/a"] (.empty 0)
  exact ⟨stats, by rw [addRepo_of_list models misformatted .clear (.empty 0) list_misformatted, hrun]⟩

variable {models} in
theorem files_misformatted {last : Dataset} {processed : List (Path × List Path)} {rest : List Path}
    (h : Processed models misformatted (.empty 0) processed last)
    (hsplit : artifacts misformatted (.ofString "r") = processed.map Prod.fst ++ rest)
    (hends : rest = [] ∨ last.isFull = true) :
    processed.flatMap Prod.snd = [.ofString "r/a/f.o.c"] := by
  rw [h.eq_artifacts rfl hsplit hends, artifacts_misformatted, List.map_singleton,
    regularFiles_misformatted]
  rfl

theorem sideFor_misformatted {m : LanguageModel} (h : m.lang = .c ∨ m.lang = .cpp) :
    sideFor m (.ofString "r/a/f.o.c") = some .decompiled := by
  rw [sideFor]
  rcases h with h | h
  · rw [h]
    cbv
  · rw [h]
    cbv

theorem fails_misformatted {m : LanguageModel} (h : m.lang = .c ∨ m.lang = .cpp) :
    fails misformatted m (.ofString "r/a/f.o.c") = true := by
  rw [fails_decompiled misformatted (sideFor_misformatted h)]
  cbv

theorem failures_misformatted (h : ∀ m ∈ models, m.lang = .c ∨ m.lang = .cpp) :
    models.countP (fails misformatted · (.ofString "r/a/f.o.c")) = models.length :=
  List.countP_eq_length.mpr fun m hm => fails_misformatted (h m hm)

theorem addRepo_failures_plainC :
    ∃ stats, (addRepo [plainC] misformatted .clear (.empty 0) (.ofString "r")).value.outcome =
        .ok stats ∧
      stats.failedFiles = 1 ∧ stats.failedFiles ≤ stats.sourceFiles + stats.decompiledFiles := by
  obtain ⟨stats, hok⟩ := addRepo_misformatted [plainC]
  obtain ⟨processed, rest, hprocessed, hsplit, hends, -, hfailed, -, -, -, -, hbound⟩ :=
    addRepo_failures [plainC] misformatted (.ofString "r") .clear (.empty 0) hok
  rw [files_misformatted hprocessed hsplit hends] at hfailed hbound
  have honce : [plainC].countP (fails misformatted · (.ofString "r/a/f.o.c")) = 1 :=
    failures_misformatted [plainC] (List.forall_mem_singleton.mpr (.inl rfl))
  refine ⟨stats, hok, ?_, hbound (List.forall_mem_singleton.mpr honce.le)⟩
  rw [hfailed, List.map_singleton, honce]
  rfl

/-- In two languages one file makes two failures, more than there are files. -/
theorem addRepo_fails_twice :
    [Lang.c, .cpp].Nodup ∧
      ∃ stats, (addRepo (standardModels misformatted) misformatted .clear (.empty 0)
          (.ofString "r")).value.outcome = .ok stats ∧
        stats.sourceFiles + stats.decompiledFiles = 1 ∧ stats.failedFiles = 2 ∧
        ¬ stats.failedFiles ≤ stats.sourceFiles + stats.decompiledFiles := by
  have hdistinct : [Lang.c, .cpp].Nodup := by decide
  obtain ⟨stats, hok⟩ := addRepo_misformatted (standardModels misformatted)
  obtain ⟨processed, rest, hprocessed, hsplit, hends, haccounted, -⟩ :=
    addRepo_accounted _ misformatted (.ofString "r") .clear (.empty 0) hok
  have htaken := haccounted.counted.taken
  have hfailed := haccounted.counted.failed
  rw [files_misformatted hprocessed hsplit hends] at htaken hfailed
  have hone : stats.sourceFiles + stats.decompiledFiles = 1 := by
    rw [htaken, List.countP_singleton, claimed, standardModels, modelsOf, List.map_cons, List.any_cons,
      sideFor_misformatted (.inl rfl)]
    rfl
  have htwo : stats.failedFiles = 2 := by
    have hlangs : ∀ m ∈ standardModels misformatted, m.lang = .c ∨ m.lang = .cpp := by
      simp [standardModels, modelsOf, LanguageModel.ofConfig]
    rw [hfailed, List.map_singleton, failures_misformatted _ hlangs]
    rfl
  exact ⟨hdistinct, stats, hok, hone, htwo, by omega⟩

end FunctionPairs.Extraction
