import FunctionPairs.Extraction.Repo
import FunctionPairs.Proofs.Decompiled.Writing
import FunctionPairs.Proofs.Extraction.Contribution
import FunctionPairs.Proofs.FileSystem.Lookup
import FunctionPairs.Proofs.Includes.Following

/-!
Artifacts one after the other. A run over entries only ever appends to its dataset. Without a
stop signal it appends as many rows as the contributions of all artifacts together have and the
cap admits, and exactly those contributions if the cap is not reached.
-/
namespace FunctionPairs.Extraction

open Dataset (fitting)
open ExampleStore (Call delivered)

variable {models : List LanguageModel} {fs : FileSystem} {stats : ExtractionStats}
  {entry : Path} {entries : List Path} {i : Interrupt} {data : Dataset}

theorem addEntries_of_full (h : data.isFull = true) :
    (addEntries models fs stats entries i data).value = ⟨.ok stats, data, i⟩ := by
  cases entries with
  | nil => rfl
  | cons entry entries => simp only [addEntries, h, if_true, Logged.value_bind, Logged.value_pure]

theorem addEntries_of_file (h : ¬ data.isFull = true) (hd : fs.isDirectory entry = false) :
    (addEntries models fs stats (entry :: entries) i data).value =
      (addEntries models fs stats entries i data).value := by
  simp only [addEntries, h, hd]
  rfl

theorem addEntries_of_artifact (h : ¬ data.isFull = true) (hd : fs.isDirectory entry = true) :
    (addEntries models fs stats (entry :: entries) i data).value =
      match (extractArtifact models fs i data stats entry).value with
      | ⟨.error e, data, _, i⟩ => ⟨.error e, data, i⟩
      | ⟨.ok (), data, stats, i⟩ => (addEntries models fs stats entries i data).value := by
  simp only [addEntries, h, hd, Bool.not_true, Bool.false_eq_true, if_false, Logged.value_bind]
  cases (extractArtifact models fs i data stats entry).value with
  | mk outcome data stats i => cases outcome <;> rfl

variable (models fs stats entry entries i data)

theorem extractArtifact_appends (artifact : Path) :
    ∃ rs, (extractArtifact models fs i data stats artifact).value.data = data.append rs := by
  obtain ⟨rs, own, hclear, -⟩ := extractArtifact_length models fs artifact data stats
  rcases extractArtifact_interrupt models fs artifact data stats i with h | h
  · exact ⟨[], h.2.1.trans (Dataset.append_nil data).symm⟩
  · exact ⟨rs, h.2.1.trans (congrArg ArtifactRun.data hclear)⟩

theorem addEntries_appends :
    ∃ rs, (addEntries models fs stats entries i data).value.data = data.append rs := by
  induction entries generalizing stats i data with
  | nil => exact ⟨[], (Dataset.append_nil data).symm⟩
  | cons entry entries ih =>
    by_cases hfull : data.isFull = true
    · exact ⟨[], by rw [addEntries_of_full hfull, Dataset.append_nil]⟩
    cases hd : fs.isDirectory entry with
    | false =>
      rw [addEntries_of_file hfull hd]
      exact ih stats i data
    | true =>
      rw [addEntries_of_artifact hfull hd]
      obtain ⟨rs, hrs⟩ := extractArtifact_appends models fs stats i data entry
      cases hrun : (extractArtifact models fs i data stats entry).value with
      | mk outcome data' stats' i' =>
        rw [hrun] at hrs
        simp only at hrs
        subst hrs
        cases outcome with
        | error e => exact ⟨rs, rfl⟩
        | ok u =>
          obtain ⟨ts, hts⟩ := ih stats' i' (data.append rs)
          exact ⟨rs ++ ts, hts.trans (Dataset.append_append data rs ts)⟩

variable {models fs stats entries i data} in
theorem addEntries_append (rest : List Path) {reached : ExtractionStats}
    (h : (addEntries models fs stats entries i data).value.outcome = .ok reached) :
    (addEntries models fs stats (entries ++ rest) i data).value =
      (addEntries models fs reached rest
        (addEntries models fs stats entries i data).value.interrupt
        (addEntries models fs stats entries i data).value.data).value := by
  induction entries generalizing stats i data with
  | nil =>
    cases h
    rfl
  | cons entry entries ih =>
    rw [List.cons_append]
    by_cases hfull : data.isFull = true
    · rw [addEntries_of_full hfull] at h ⊢
      cases h
      rw [addEntries_of_full hfull, addEntries_of_full hfull]
    cases hd : fs.isDirectory entry with
    | false =>
      rw [addEntries_of_file hfull hd] at h ⊢
      rw [addEntries_of_file hfull hd]
      exact ih h
    | true =>
      rw [addEntries_of_artifact hfull hd] at h ⊢
      rw [addEntries_of_artifact hfull hd]
      cases hrun : (extractArtifact models fs i data stats entry).value with
      | mk outcome data' stats' i' =>
        rw [hrun] at h
        cases outcome with
        | error e => cases h
        | ok u => exact ih h

def entryRows : List Row := (entries.filter fs.isDirectory).flatMap (contribution models fs)

def entryStats : ExtractionStats :=
  (entries.filter fs.isDirectory).foldl (fun s a => s.add (ownStats models fs a)) stats

variable {entry} in
theorem entryRows_of_file (h : fs.isDirectory entry = false) :
    entryRows models fs (entry :: entries) = entryRows models fs entries := by
  simp [entryRows, h]

variable {entry} in
theorem entryRows_of_artifact (h : fs.isDirectory entry = true) :
    entryRows models fs (entry :: entries) =
      contribution models fs entry ++ entryRows models fs entries := by
  simp [entryRows, h]

variable {entry} in
theorem entryStats_of_file (h : fs.isDirectory entry = false) :
    entryStats models fs stats (entry :: entries) = entryStats models fs stats entries := by
  simp [entryStats, h]

variable {entry} in
theorem entryStats_of_artifact (h : fs.isDirectory entry = true) :
    entryStats models fs stats (entry :: entries) =
      entryStats models fs (stats.add (ownStats models fs entry)) entries := by
  simp [entryStats, h]

theorem addEntries_length :
    ∃ rs reached, (addEntries models fs stats entries .clear data).value =
        ⟨.ok reached, data.append rs, .clear⟩ ∧
      rs.length = (fitting data.remaining (entryRows models fs entries)).length := by
  induction entries generalizing stats data with
  | nil =>
    refine ⟨[], stats, ?_, ?_⟩
    · rw [Dataset.append_nil]
      rfl
    · simp [entryRows]
  | cons entry entries ih =>
    by_cases hfull : data.isFull = true
    · refine ⟨[], stats, ?_, ?_⟩
      · rw [addEntries_of_full hfull, Dataset.append_nil]
      · rw [(Dataset.isFull_iff data).mp hfull]
        rfl
    cases hd : fs.isDirectory entry with
    | false =>
      rw [addEntries_of_file hfull hd, entryRows_of_file _ _ _ hd]
      exact ih stats data
    | true =>
      obtain ⟨rs, own, hrun, hlen⟩ := extractArtifact_length models fs entry data stats
      obtain ⟨ts, reached, hrest, htlen⟩ := ih (stats.add own) (data.append rs)
      refine ⟨rs ++ ts, reached, ?_, ?_⟩
      · rw [addEntries_of_artifact hfull hd, hrun]
        rw [← Dataset.append_append]
        exact hrest
      · rw [entryRows_of_artifact _ _ _ hd, Dataset.fitting_append, List.length_append,
          List.length_append, ← hlen, htlen, Dataset.remaining_append]

theorem addEntries_fits
    (h : ∀ n, data.remaining = some n → (entryRows models fs entries).length < n) :
    (addEntries models fs stats entries .clear data).value =
      ⟨.ok (entryStats models fs stats entries), data.append (entryRows models fs entries),
        .clear⟩ := by
  induction entries generalizing stats data with
  | nil =>
    show (⟨.ok stats, data, .clear⟩ : RepoRun) = ⟨.ok stats, data.append [], .clear⟩
    rw [Dataset.append_nil]
  | cons entry entries ih =>
    have hfull : ¬ data.isFull = true := by
      intro hf
      exact absurd (h 0 ((Dataset.isFull_iff data).mp hf)) (Nat.not_lt_zero _)
    cases hd : fs.isDirectory entry with
    | false =>
      rw [entryRows_of_file _ _ _ hd] at h ⊢
      rw [addEntries_of_file hfull hd, entryStats_of_file _ _ _ _ hd]
      exact ih stats data h
    | true =>
      rw [entryRows_of_artifact _ _ _ hd, List.length_append] at h
      have hfirst : ∀ n, data.remaining = some n →
          (contribution models fs entry).length < n := fun n hn =>
        (Nat.le_add_right _ _).trans_lt (h n hn)
      have hothers : ∀ n, (data.append (contribution models fs entry)).remaining = some n →
          (entryRows models fs entries).length < n := by
        intro n hn
        rw [Dataset.remaining_append] at hn
        obtain ⟨k, hk, rfl⟩ := Option.map_eq_some_iff.mp hn
        have hlt := h k hk
        omega
      rw [addEntries_of_artifact hfull hd,
        extractArtifact_fits models fs entry data stats hfirst]
      refine (ih _ _ hothers).trans ?_
      rw [entryRows_of_artifact _ _ _ hd, entryStats_of_artifact _ _ _ _ hd,
        Dataset.append_append]

variable {entries} in
theorem addRepo_of_list {repo : Path} (h : fs.list repo = .ok entries) :
    (addRepo models fs i data repo).value = (addEntries models fs .zero entries i data).value := by
  have hentry := fs.entry_of_list h
  have hreq : Places.requireDirectory fs repo = .ok () := by
    simp [Places.requireDirectory, FileSystem.contains, FileSystem.isDirectory, hentry,
      Except.isOk, Except.toBool, Entry.isDirectory]
  unfold addRepo
  rw [hreq, h]
  rfl

theorem addRepo_of_not_list {repo : Path} {e : SystemError} (h : fs.list repo = .error e) :
    ∃ f : Failure, f.isInterrupted = false ∧
      ∀ i data, (addRepo models fs i data repo).value = ⟨.error f, data, i⟩ := by
  unfold addRepo Places.requireDirectory
  rw [h]
  split_ifs
  · exact ⟨_, rfl, fun i data => rfl⟩
  · exact ⟨_, rfl, fun i data => rfl⟩
  · exact ⟨_, rfl, fun i data => rfl⟩

def oneArtifact : FileSystem where
  entries :=
    let r := Utf8.encode "r"
    let a := Utf8.encode "a"
    [([r], .directory), ([r, a], .directory),
      ([r, a, Utf8.encode "f.c"], .file (Utf8.encode "int f() \x7b return 1; \x7d") false),
      ([r, a, Utf8.encode "f.o.c"],
        .file (Utf8.encode "// FUNCTION f\nint f() \x7b return 2; \x7d") false)]
  working := []

/-- A tree `r` with two artifacts and a loose file. In `a` one function is found on both sides, in
`b` two are, and behind them there is a third one that has no counterpart. -/
def twoArtifacts : FileSystem where
  entries :=
    let r := Utf8.encode "r"
    let a := Utf8.encode "a"
    let b := Utf8.encode "b"
    [([r], .directory), ([r, a], .directory), ([r, b], .directory),
      ([r, Utf8.encode "loose.c"], .file [] false),
      ([r, a, Utf8.encode "f.c"], .file (Utf8.encode "int f()\x7b1;\x7d") false),
      ([r, a, Utf8.encode "f.o.c"], .file (Utf8.encode "// FUNCTION f\nint f()\x7b2;\x7d") false),
      ([r, a, Utf8.encode "g.c"], .link (.ofString "f.c")),
      ([r, a, Utf8.encode "notes"], .file [] false),
      ([r, b, Utf8.encode "g.c"], .file (Utf8.encode "int g()\x7b3;\x7dint h()\x7b4;\x7d") false),
      ([r, b, Utf8.encode "g.o.c"],
        .file (Utf8.encode "// FUNCTION g\nint g()\x7b5;\x7d\n// FUNCTION h\nint h()\x7b6;\x7d") false),
      ([r, b, Utf8.encode "k.c"], .file (Utf8.encode "int f()\x7b1;\x7d") false)]
  working := []

def standardModels (fs : FileSystem) : List LanguageModel :=
  modelsOf Syntax.parse [.c, .cpp] .standard fs .empty

def plainC : LanguageModel :=
  ⟨.c, ⟨[.c]⟩, Syntax.parse, ⟨[], 0⟩, Config.standard.maxSourceBytes, .standard⟩

/-! What is in the two artifacts. -/

variable {fs} in
theorem scraped_source {p : Path} {bytes : Bytes} (h : plainC.readSource fs p = .ok bytes)
    (hincludes : (Syntax.parse .c bytes).1.includes bytes = []) :
    Call.scraped plainC ⟨fs, .source, p⟩ = .ok (plainC.functionsIn bytes) := by
  have hscrape := plainC.scrapeFile_of_read fs h rfl
  rw [show (plainC.grammar plainC.lang.dialect bytes).1.includes bytes = [] from hincludes] at hscrape
  exact plainC.scrapeFunctions_of_alone fs hscrape

variable {fs} in
theorem scraped_f {p : Path} (h : plainC.readSource fs p = .ok (Utf8.encode "int f()\x7b1;\x7d")) :
    Call.scraped plainC ⟨fs, .source, p⟩ = .ok [⟨"f", "int f()\x7b1;\x7d"⟩] := by
  rw [scraped_source h (by decide +kernel), Except.ok.injEq]
  decide +kernel

variable {fs} in
theorem scraped_g_h {p : Path}
    (h : plainC.readSource fs p = .ok (Utf8.encode "int g()\x7b3;\x7dint h()\x7b4;\x7d")) :
    Call.scraped plainC ⟨fs, .source, p⟩ =
      .ok [⟨"g", "int g()\x7b3;\x7d"⟩, ⟨"h", "int h()\x7b4;\x7d"⟩] := by
  rw [scraped_source h (by decide +kernel), Except.ok.injEq]
  decide +kernel

theorem regularFiles_a : regularFiles twoArtifacts (.ofString "r/a") =
    [.ofString "r/a/f.c", .ofString "r/a/f.o.c", .ofString "r/a/notes"] := by cbv

theorem regularFiles_b : regularFiles twoArtifacts (.ofString "r/b") =
    [.ofString "r/b/g.c", .ofString "r/b/g.o.c", .ofString "r/b/k.c"] := by cbv

theorem examplesIn_a : examplesIn [plainC] twoArtifacts (.ofString "r/a")
    (regularFiles twoArtifacts (.ofString "r/a")) = 1 := by
  have hf : callFor twoArtifacts plainC (.ofString "r/a/f.c") =
      some ⟨twoArtifacts, .source, .ofString "r/a/f.c"⟩ := callFor_of_side _ (by cbv)
  have hd : callFor twoArtifacts plainC (.ofString "r/a/f.o.c") =
      some ⟨twoArtifacts, .decompiled, .ofString "r/a/f.o.c"⟩ := callFor_of_side _ (by cbv)
  have hn : callFor twoArtifacts plainC (.ofString "r/a/notes") = none := by cbv
  have hread : twoArtifacts.read (.ofString "r/a/f.o.c") =
      .ok (Utf8.encode "// FUNCTION f\nint f()\x7b2;\x7d") := by cbv
  have hsource := scraped_f (by cbv : plainC.readSource twoArtifacts (.ofString "r/a/f.c") = _)
  have hdecompiled : Call.scraped plainC ⟨twoArtifacts, .decompiled, .ofString "r/a/f.o.c"⟩ =
      .ok [⟨"f", "int f()\x7b2;\x7d"⟩] := Decompiled.scrape_of_text hread
  simp only [regularFiles_a, examplesIn, found, hf, hd, hn, hsource, hdecompiled, delivered,
    Call.brought, List.map_cons, List.map_nil, List.filterMap_cons, List.filterMap_nil,
    List.flatMap_cons, List.flatMap_nil]
  decide +kernel

theorem examplesIn_b :
    let examples := examplesIn [plainC] twoArtifacts (.ofString "r/b")
    examples [.ofString "r/b/g.c"] = 0 ∧
      examples [.ofString "r/b/g.c", .ofString "r/b/g.o.c"] = 2 ∧
      examples (regularFiles twoArtifacts (.ofString "r/b")) = 2 := by
  have hg : callFor twoArtifacts plainC (.ofString "r/b/g.c") =
      some ⟨twoArtifacts, .source, .ofString "r/b/g.c"⟩ := callFor_of_side _ (by cbv)
  have hd : callFor twoArtifacts plainC (.ofString "r/b/g.o.c") =
      some ⟨twoArtifacts, .decompiled, .ofString "r/b/g.o.c"⟩ := callFor_of_side _ (by cbv)
  have hk : callFor twoArtifacts plainC (.ofString "r/b/k.c") =
      some ⟨twoArtifacts, .source, .ofString "r/b/k.c"⟩ := callFor_of_side _ (by cbv)
  have hread : twoArtifacts.read (.ofString "r/b/g.o.c") =
      .ok (Utf8.encode "// FUNCTION g\nint g()\x7b5;\x7d\n// FUNCTION h\nint h()\x7b6;\x7d") := by cbv
  have hfirst := scraped_g_h (by cbv : plainC.readSource twoArtifacts (.ofString "r/b/g.c") = _)
  have hsecond : Call.scraped plainC ⟨twoArtifacts, .decompiled, .ofString "r/b/g.o.c"⟩ =
      .ok [⟨"g", "int g()\x7b5;\x7d\n"⟩, ⟨"h", "int h()\x7b6;\x7d"⟩] :=
    Decompiled.scrape_of_text hread
  have hthird := scraped_f (by cbv : plainC.readSource twoArtifacts (.ofString "r/b/k.c") = _)
  simp only [regularFiles_b, examplesIn, found, hg, hd, hk, hfirst, hsecond, hthird, delivered,
    Call.brought, List.map_cons, List.map_nil, List.filterMap_cons, List.filterMap_nil,
    List.flatMap_cons, List.flatMap_nil]
  decide +kernel

theorem ofConfig_twoArtifacts :
    LanguageModel.ofConfig Syntax.parse .c .standard twoArtifacts .empty = plainC := by
  have hdirs : Config.standard.includeDirs twoArtifacts .empty = [] := by cbv
  rw [LanguageModel.ofConfig, hdirs]
  rfl

theorem list_twoArtifacts : twoArtifacts.list (.ofString "r") =
    .ok [.ofString "r/a", .ofString "r/b", .ofString "r/loose.c"] := by cbv

theorem length_entryRows_twoArtifacts :
    let rows := entryRows [plainC] twoArtifacts
    (rows [.ofString "r/a"]).length = 1 ∧
      (rows [.ofString "r/a", .ofString "r/b", .ofString "r/loose.c"]).length = 3 := by
  have ha : twoArtifacts.isDirectory (.ofString "r/a") = true := by cbv
  have hb : twoArtifacts.isDirectory (.ofString "r/b") = true := by cbv
  have hloose : twoArtifacts.isDirectory (.ofString "r/loose.c") = false := by cbv
  simp [entryRows, ha, hb, hloose, length_contribution, examplesIn_a, examplesIn_b]

end FunctionPairs.Extraction
