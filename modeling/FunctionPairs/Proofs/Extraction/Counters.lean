import FunctionPairs.Proofs.Extraction.Interruption

/-!
What the counters of an extraction count. Which files of an artifact are read is fixed by the walk,
the room that is left and what the files hold: the walk goes on up to the first file before which
as many functions have been found on both sides as there is room for. Each file that is read raises
one of three counters, however many languages claim it, and each language that cannot read a file
that it claims raises a fourth. A feed keeps this from file to file, and a run adds it up over the
artifacts that it has processed.
-/
namespace FunctionPairs.Extraction

open Dataset (fitting)
open ExampleStore (Call delivered)

variable (models : List LanguageModel) (fs : FileSystem) (m : LanguageModel) (artifact : Path)

def claimed (p : Path) : Bool := models.any fun m => (sideFor m p).isSome

def fails (p : Path) : Bool := (callFor fs m p).any fun c => !(c.scraped m).isOk

/-- The files of an artifact that are read when there is room for so many examples: all of them,
or those up to the point where the examples fill the room. -/
structure Reading (room : Option Nat) (files : List Path) : Prop where
  initial : files <+: regularFiles fs artifact
  goesOn : ∀ fewer, fewer <+: files → fewer ≠ files →
    ∀ n ∈ room, examplesIn models fs artifact fewer < n
  ends : files = regularFiles fs artifact ∨ ∃ n ∈ room, n ≤ examplesIn models fs artifact files

namespace Reading

variable {models fs artifact} {room : Option Nat} {files others : List Path}

theorem eq_of_prefix (h : Reading models fs artifact room files)
    (h' : Reading models fs artifact room others) (hfewer : files <+: others) : files = others := by
  by_contra hne
  rcases h.ends with hall | ⟨n, hn, hfull⟩
  · exact hne (hfewer.eq_of_length_le (hall ▸ h'.initial.length_le))
  · exact absurd (h'.goesOn files hfewer hne n hn) (not_lt.mpr hfull)

theorem unique (h : Reading models fs artifact room files)
    (h' : Reading models fs artifact room others) : files = others := by
  rcases List.prefix_or_prefix_of_prefix h.initial h'.initial with hfewer | hfewer
  · exact h.eq_of_prefix h' hfewer
  · exact (h'.eq_of_prefix h hfewer).symm

theorem all (h : ∀ n ∈ room, examplesIn models fs artifact (regularFiles fs artifact) < n) :
    Reading models fs artifact room (regularFiles fs artifact) where
  initial := List.prefix_refl _
  goesOn _ hfewer _ n hn := (examplesIn_mono hfewer).trans_lt (h n hn)
  ends := .inl rfl

theorem filled {p : Path} {n : Nat} (hinitial : files ++ [p] <+: regularFiles fs artifact)
    (hroom : examplesIn models fs artifact files < n)
    (hfull : n ≤ examplesIn models fs artifact (files ++ [p])) :
    Reading models fs artifact (some n) (files ++ [p]) where
  initial := hinitial
  goesOn fewer hfewer hne k hk := by
    cases hk
    rcases List.prefix_concat_iff.mp hfewer with heq | hfewer
    · exact absurd heq hne
    · exact (examplesIn_mono hfewer).trans_lt hroom
  ends := .inr ⟨n, rfl, hfull⟩

end Reading

/-- How many identities are on one side only, that is missing on the given one, in all languages. -/
def missingOn (which : Side) (files : List Path) : Nat :=
  (models.map fun m =>
    (found fs m artifact (ExampleStore.other which) files \ found fs m artifact which files).card).sum

def identitiesOn (which : Side) (files : List Path) : Nat :=
  (models.map fun m => (found fs m artifact which files).card).sum

/-- Artifacts that are processed one after the other until the dataset is full, each with the files
of it that are read. -/
inductive Processed : Dataset → List (Path × List Path) → Dataset → Prop
  | nil (data : Dataset) : Processed data [] data
  | cons {data last : Dataset} {artifact : Path} {files : List Path}
      {rest : List (Path × List Path)} (hasRoom : data.isFull = false)
      (reading : Reading models fs artifact data.remaining files)
      (others : Processed
        (data.append (fitting data.remaining (rowsAfter models fs artifact files))) rest last) :
      Processed data ((artifact, files) :: rest) last

variable {models fs} in
theorem Processed.unique {data last last' : Dataset} {processed processed' : List (Path × List Path)}
    {rest rest' : List Path} (h : Processed models fs data processed last)
    (h' : Processed models fs data processed' last')
    (hsplit : processed.map Prod.fst ++ rest = processed'.map Prod.fst ++ rest')
    (hends : rest = [] ∨ last.isFull = true) (hends' : rest' = [] ∨ last'.isFull = true) :
    processed = processed' ∧ last = last' := by
  induction h generalizing processed' with
  | nil data =>
    cases h' with
    | nil => exact ⟨rfl, rfl⟩
    | cons hasRoom reading others =>
      rcases hends with rfl | hfull
      · cases hsplit
      · cases hasRoom.symm.trans hfull
  | cons hasRoom reading others ih =>
    cases h' with
    | nil =>
      rcases hends' with rfl | hfull
      · cases hsplit
      · cases hasRoom.symm.trans hfull
    | cons hasRoom' reading' others' =>
      obtain ⟨hartifact, hbehind⟩ := List.cons.inj hsplit
      cases hartifact
      obtain rfl := reading.unique reading'
      obtain ⟨rfl, hlast⟩ := ih others' hbehind hends
      exact ⟨rfl, hlast⟩

/-! One file. -/

theorem offer_routed (p : Path) (s : ExampleStore) (r : Routed) :
    (offer fs (Utf8.decode (p.fileName.getD [])) p s r).value.2 =
      if (sideFor s.model p).isSome then
        ⟨s.model.lang.classify (Utf8.decode (p.fileName.getD [])),
          r.failures + if fails fs s.model p then 1 else 0⟩
      else r := by
  cases hside : sideFor s.model p with
  | none =>
    rw [sideFor] at hside
    simp [offer, hside]
  | some side =>
    have hcall : callFor fs s.model p = some ⟨fs, side, p⟩ := by simp [callFor, hside]
    rw [sideFor] at hside
    simp only [offer, hside, Logged.value_bind, ExampleStore.add_value, fails, hcall,
      Option.any_some, Option.isSome_some, if_true]
    cases Call.scraped s.model ⟨fs, side, p⟩ <;> rfl

theorem claimed_cons (p : Path) :
    claimed (m :: models) p = ((sideFor m p).isSome || claimed models p) := List.any_cons

theorem offerAll_routed (p : Path) (r : Routed) (stores : List ExampleStore) :
    let routed := (offerAll fs (Utf8.decode (p.fileName.getD [])) p r stores).value.2
    (sideOf routed.claimed).isSome =
        ((sideOf r.claimed).isSome || claimed (stores.map ExampleStore.model) p) ∧
      routed.failures =
        r.failures + (stores.map ExampleStore.model).countP (fails fs · p) := by
  induction stores generalizing r with
  | nil => simp [offerAll, claimed]
  | cons s stores ih =>
    obtain ⟨hclaimed, hfailures⟩ := ih (offer fs (Utf8.decode (p.fileName.getD [])) p s r).value.2
    simp only [offerAll, Logged.value_bind, Logged.value_pure]
    rw [hclaimed, hfailures, offer_routed, List.map_cons, List.countP_cons, claimed_cons]
    -- the last language that claims the file leaves its role, and any role of a claim has a side
    cases hside : sideFor s.model p with
    | none =>
      have hfails : fails fs s.model p = false := by simp [fails, callFor, hside]
      simp [hfails]
    | some side =>
      rw [sideFor] at hside
      simp [hside, Nat.add_assoc, Nat.add_comm]

theorem count_value (p : Path) (r : Routed) (stats : ExtractionStats) :
    let counted := (count p r stats).value
    counted.sourceFiles + counted.decompiledFiles =
        stats.sourceFiles + stats.decompiledFiles + (if (sideOf r.claimed).isSome then 1 else 0) ∧
      counted.ignoredFiles = stats.ignoredFiles + (if (sideOf r.claimed).isSome then 0 else 1) ∧
      counted.failedFiles = stats.failedFiles + r.failures ∧
      (counted.examples, counted.missingSources, counted.missingDecompileds) =
        (stats.examples, stats.missingSources, stats.missingDecompileds) := by
  obtain ⟨role, failures⟩ := r
  rcases role with _ | role
  · exact ⟨rfl, rfl, rfl, rfl⟩
  · cases role with
    | source => exact ⟨Nat.add_right_comm .., rfl, rfl, rfl⟩
    | bytecode => exact ⟨rfl, rfl, rfl, rfl⟩
    | decompiled => exact ⟨rfl, rfl, rfl, rfl⟩

/-! One artifact. -/

structure FilesCounted (files : List Path) (stats : ExtractionStats) : Prop where
  taken : stats.sourceFiles + stats.decompiledFiles = files.countP (claimed models)
  ignored : stats.ignoredFiles = files.countP (!claimed models ·)
  failed : stats.failedFiles = (files.map fun p => models.countP (fails fs · p)).sum

structure Feed.Holds (files : List Path) (f : Feed) : Prop where
  stores : f.stores = models.map fun m => storeAfter fs m artifact files
  counted : FilesCounted models fs files f.stats
  unbuilt : (f.stats.examples, f.stats.missingSources, f.stats.missingDecompileds) = (0, 0, 0)

theorem holds_start : (Feed.start models artifact).Holds models fs artifact [] where
  stores := rfl
  counted := ⟨rfl, rfl, rfl⟩
  unbuilt := rfl

variable {models fs artifact} {files : List Path} {f : Feed}

theorem Feed.Holds.route (h : f.Holds models fs artifact files) (p : Path) :
    (route fs p f).value.Holds models fs artifact (files ++ [p]) := by
  have hmodels : f.stores.map ExampleStore.model = models := by
    rw [h.stores, List.map_map]
    exact (List.map_congr_left fun m _ => storeAfter_model fs m artifact files).trans (List.map_id _)
  obtain ⟨hclaimed, hfailures⟩ := offerAll_routed fs p ⟨none, 0⟩ f.stores
  have hnone : (sideOf none).isSome = false := rfl
  rw [hmodels] at hclaimed hfailures
  rw [hnone, Bool.false_or] at hclaimed
  obtain ⟨hside, hignored, hfailed, hunbuilt⟩ := count_value p
    (offerAll fs (Utf8.decode (p.fileName.getD [])) p ⟨none, 0⟩ f.stores).value.2 f.stats
  rw [hclaimed] at hside hignored
  rw [hfailures, Nat.zero_add] at hfailed
  refine ⟨?_, ⟨?_, ?_, ?_⟩, hunbuilt.trans h.unbuilt⟩
  · exact route_storesAfter h.stores p
  · rw [List.countP_append, List.countP_singleton, ← h.counted.taken]
    exact hside
  · rw [List.countP_append, List.countP_singleton, ← h.counted.ignored]
    refine hignored.trans ?_
    cases claimed models p <;> rfl
  · rw [List.map_append, List.sum_append, ← h.counted.failed]
    exact hfailed

theorem Feed.Holds.pending (h : f.Holds models fs artifact files) :
    f.pending = examplesIn models fs artifact files := by
  rw [Feed.pending_eq_sum, h.stores, List.map_map, examplesIn]
  congr 1
  exact List.map_congr_left fun m _ => pendingExamples_storeAfter fs m artifact files

theorem Feed.Holds.rows (h : f.Holds models fs artifact files) :
    f.rows = rowsAfter models fs artifact files := by
  rw [Feed.rows, h.stores, rowsAfter, List.flatMap_map]

theorem isEnough_iff (room : Option Nat) (f : Feed) :
    isEnough room f = true ↔ ∃ n ∈ room, n ≤ f.pending := by
  cases room <;> simp [isEnough]

theorem Feed.Holds.feed (h : f.Holds models fs artifact files) {room : Option Nat}
    {items : List WalkItem} (hitems : files ++ items.filterMap fileOf = regularFiles fs artifact)
    (hgoesOn : ∀ fewer, fewer <+: files → fewer ≠ files →
      ∀ n ∈ room, examplesIn models fs artifact fewer < n) :
    ∃ read, (feed fs artifact room items .clear f).value.feed.Holds models fs artifact read ∧
      Reading models fs artifact room read := by
  induction items generalizing files f with
  | nil =>
    rw [List.filterMap_nil, List.append_nil] at hitems
    exact ⟨files, h, hitems ▸ List.prefix_refl _, hgoesOn, .inl hitems⟩
  | cons item items ih =>
    rw [feed_cons]
    cases hitem : fileOf item with
    | none =>
      rw [List.filterMap_cons_none hitem] at hitems
      exact ih h hitems hgoesOn
    | some p =>
      rw [List.filterMap_cons_some hitem] at hitems
      simp only [poll_clear]
      by_cases hfull : isEnough room f = true
      · simp only [hfull, if_true]
        rw [isEnough_iff, h.pending] at hfull
        exact ⟨files, h, hitems ▸ List.prefix_append _ _, hgoesOn, .inr hfull⟩
      · -- there was room before this file, and before every shorter beginning
        simp only [hfull]
        refine ih (h.route p) (by rw [List.append_assoc]; exact hitems) ?_
        intro fewer hfewer hne n hn
        rcases List.prefix_concat_iff.mp hfewer with heq | hfewer
        · exact absurd heq hne
        · by_cases hsame : fewer = files
          · by_contra hnot
            exact hfull ((isEnough_iff room f).mpr ⟨n, hn, by rw [h.pending, ← hsame]; omega⟩)
          · exact hgoesOn fewer hfewer hsame n hn

variable (models fs artifact)

structure Totalled (files : List Path) (added : Nat) (own : ExtractionStats) : Prop where
  artifacts : own.artifacts = 1
  counted : FilesCounted models fs files own
  examples : own.examples = added
  missingSources : own.missingSources = missingOn models fs artifact .source files
  missingDecompileds : own.missingDecompileds = missingOn models fs artifact .decompiled files

variable {models fs artifact} in
theorem Feed.Holds.totalled (h : f.Holds models fs artifact files) (added : Nat) :
    Totalled models fs artifact files added { settled f added with artifacts := 1 } := by
  obtain ⟨hexamples, hsources, hdecompileds⟩ : f.stats.examples = 0 ∧ f.stats.missingSources = 0 ∧
      f.stats.missingDecompileds = 0 := by simpa using h.unbuilt
  refine ⟨rfl, ⟨h.counted.taken, h.counted.ignored, h.counted.failed⟩, ?_, ?_, ?_⟩
  · simp [settled, hexamples]
  · simp only [settled, hsources, h.stores, List.map_map, Nat.zero_add, missingOn]
    congr 1
    exact List.map_congr_left fun m _ => (built_storeAfter fs m artifact files).2.1
  · simp only [settled, hdecompileds, h.stores, List.map_map, Nat.zero_add, missingOn]
    congr 1
    exact List.map_congr_left fun m _ => (built_storeAfter fs m artifact files).2.2

theorem extractArtifact_totalled (i : Interrupt) (data : Dataset) (stats : ExtractionStats)
    (h : (extractArtifact models fs i data stats artifact).value.outcome = .ok ()) :
    ∃ files own, Reading models fs artifact data.remaining files ∧
      Totalled models fs artifact files
        (fitting data.remaining (rowsAfter models fs artifact files)).length own ∧
      (extractArtifact models fs i data stats artifact).value.data =
        data.append (fitting data.remaining (rowsAfter models fs artifact files)) ∧
      (extractArtifact models fs i data stats artifact).value.stats = stats.add own := by
  have hnone : ∀ fewer : List Path, fewer <+: [] → fewer ≠ [] →
      ∀ n ∈ data.remaining, examplesIn models fs artifact fewer < n :=
    fun fewer hfewer hne => absurd (List.prefix_nil.mp hfewer) hne
  have hall : [] ++ (fs.walk artifact).filterMap fileOf = regularFiles fs artifact := rfl
  obtain ⟨files, hfeed, hreading⟩ := (holds_start models fs artifact).feed hall hnone
  obtain ⟨hout, -⟩ | ⟨-, hdata, hstats⟩ := extractArtifact_interrupt models fs artifact data stats i
  · rw [hout] at h
    cases h
  · rw [extractArtifact_clear] at hdata hstats
    refine ⟨files, _, hreading, hfeed.totalled _, ?_⟩
    rw [← hfeed.rows]
    exact ⟨hdata, hstats⟩

/-! One run. -/

structure Accounted (processed : List (Path × List Path)) (stats : ExtractionStats) : Prop where
  artifacts : stats.artifacts = processed.length
  counted : FilesCounted models fs (processed.flatMap Prod.snd) stats
  missingSources : stats.missingSources =
    (processed.map fun a => missingOn models fs a.1 .source a.2).sum
  missingDecompileds : stats.missingDecompileds =
    (processed.map fun a => missingOn models fs a.1 .decompiled a.2).sum

theorem accounted_nil : Accounted models fs [] .zero := ⟨rfl, ⟨rfl, rfl, rfl⟩, rfl, rfl⟩

variable {models fs} in
theorem Accounted.cons {processed : List (Path × List Path)} {total own : ExtractionStats}
    (h : Accounted models fs processed total) {artifact : Path} {files : List Path} {added : Nat}
    (hown : Totalled models fs artifact files added own) :
    Accounted models fs ((artifact, files) :: processed) (own.add total) := by
  refine ⟨?_, ⟨?_, ?_, ?_⟩, ?_, ?_⟩
  · simp [ExtractionStats.add, hown.artifacts, h.artifacts, Nat.add_comm]
  · have hfirst := hown.counted.taken
    have hrest := h.counted.taken
    simp only [ExtractionStats.add, List.flatMap_cons, List.countP_append]
    omega
  · simp [ExtractionStats.add, hown.counted.ignored, h.counted.ignored]
  · simp [ExtractionStats.add, hown.counted.failed, h.counted.failed]
  · simp [ExtractionStats.add, hown.missingSources, h.missingSources]
  · simp [ExtractionStats.add, hown.missingDecompileds, h.missingDecompileds]

theorem addEntries_accounted (entries : List Path) (i : Interrupt) (data : Dataset)
    {stats reached : ExtractionStats}
    (h : (addEntries models fs stats entries i data).value.outcome = .ok reached) :
    let last := (addEntries models fs stats entries i data).value.data
    ∃ processed rest total, Processed models fs data processed last ∧
      entries.filter fs.isDirectory = processed.map Prod.fst ++ rest ∧
      (rest = [] ∨ last.isFull = true) ∧ Accounted models fs processed total ∧
      last.length = data.length + total.examples ∧ reached = stats.add total := by
  -- the stop signal and the dataset go from artifact to artifact, as do the counters reached so far
  induction entries generalizing stats i data with
  | nil =>
    cases h
    exact ⟨[], [], .zero, .nil data, rfl, .inl rfl, accounted_nil models fs, rfl, rfl⟩
  | cons entry entries ih =>
    by_cases hfull : data.isFull = true
    · rw [addEntries_of_full hfull] at h ⊢
      cases h
      exact ⟨[], _, .zero, .nil data, rfl, .inr hfull, accounted_nil models fs, rfl, rfl⟩
    cases hd : fs.isDirectory entry with
    | false =>
      rw [addEntries_of_file hfull hd] at h ⊢
      rw [List.filter_cons_of_neg (by simp [hd])]
      exact ih i data h
    | true =>
      rw [addEntries_of_artifact hfull hd] at h ⊢
      rw [List.filter_cons_of_pos hd]
      have hentry := extractArtifact_totalled models fs entry i data stats
      cases hrun : (extractArtifact models fs i data stats entry).value with
      | mk outcome data' stats' i' =>
        rw [hrun] at h hentry
        cases outcome with
        | error e => cases h
        | ok u =>
          obtain ⟨files, own, hreading, hown, hdata, hstats⟩ := hentry rfl
          dsimp only at hdata hstats
          subst hdata hstats
          obtain ⟨processed, rest, total, hprocessed, hsplit, hends, haccounted, hgrowth, hreached⟩ :=
            ih i' _ h
          refine ⟨(entry, files) :: processed, rest, own.add total,
            .cons (Bool.eq_false_iff.mpr hfull) hreading hprocessed, ?_, hends,
            haccounted.cons hown, ?_, ?_⟩
          · rw [hsplit]
            rfl
          · refine hgrowth.trans ?_
            rw [Dataset.length_append, ← hown.examples, Nat.add_assoc]
            rfl
          · rw [hreached, ExtractionStats.add_assoc]

theorem addRepo_accounted (repo : Path) (i : Interrupt) (data : Dataset) {stats : ExtractionStats}
    (h : (addRepo models fs i data repo).value.outcome = .ok stats) :
    let last := (addRepo models fs i data repo).value.data
    ∃ processed rest, Processed models fs data processed last ∧
      artifacts fs repo = processed.map Prod.fst ++ rest ∧ (rest = [] ∨ last.isFull = true) ∧
      Accounted models fs processed stats ∧ last.length = data.length + stats.examples := by
  unfold artifacts
  cases hlist : fs.list repo with
  | error cause =>
    obtain ⟨f, -, hrun⟩ := addRepo_of_not_list models fs hlist
    rw [hrun] at h
    cases h
  | ok entries =>
    rw [addRepo_of_list _ _ _ _ hlist] at h ⊢
    obtain ⟨processed, rest, total, hprocessed, hsplit, hends, haccounted, hgrowth, hstats⟩ :=
      addEntries_accounted models fs entries i data h
    rw [ExtractionStats.zero_add] at hstats
    subst hstats
    exact ⟨processed, rest, hprocessed, hsplit, hends, haccounted, hgrowth⟩

/-! Without a cap. -/

theorem missingOn_add_examplesIn (which : Side) (files : List Path) :
    missingOn models fs artifact which files + examplesIn models fs artifact files =
      identitiesOn models fs artifact (ExampleStore.other which) files := by
  rw [missingOn, examplesIn, identitiesOn, ← List.sum_map_add]
  congr 1
  refine List.map_congr_left fun m _ => ?_
  cases which with
  | source =>
    rw [Finset.inter_comm]
    exact Finset.card_sdiff_add_card_inter ..
  | decompiled => exact Finset.card_sdiff_add_card_inter ..

theorem sum_missingOn_add_examplesIn (which : Side) (processed : List (Path × List Path)) :
    (processed.map fun a => missingOn models fs a.1 which a.2).sum +
        (processed.map fun a => examplesIn models fs a.1 a.2).sum =
      (processed.map fun a => identitiesOn models fs a.1 (ExampleStore.other which) a.2).sum := by
  rw [← List.sum_map_add]
  simp only [missingOn_add_examplesIn]

variable {models fs}

theorem Processed.uncapped {data last : Dataset} {processed : List (Path × List Path)}
    (h : Processed models fs data processed last) (hcap : data.maxLen = 0) :
    last.isFull = false ∧
      processed = (processed.map Prod.fst).map (fun a => (a, regularFiles fs a)) ∧
      last.length = data.length +
        (processed.map fun a => examplesIn models fs a.1 a.2).sum := by
  induction h with
  | nil data => simp [Dataset.isFull, hcap]
  | @cons data last artifact files rest hasRoom reading others ih =>
    have hroom : data.remaining = none := by simp [Dataset.remaining, hcap]
    obtain ⟨hfull, hall, hlength⟩ := ih hcap
    have hfiles : files = regularFiles fs artifact := by
      rcases reading.ends with hfiles | ⟨n, hn, -⟩
      · exact hfiles
      · rw [hroom] at hn
        cases hn
    refine ⟨hfull, ?_, ?_⟩
    · rw [List.map_cons, List.map_cons, ← hall, ← hfiles]
    · rw [hlength, hroom, Dataset.length_append, List.map_cons, List.sum_cons, ← length_rowsAfter,
        Nat.add_assoc]
      rfl

theorem Processed.eq_artifacts {data last : Dataset} {processed : List (Path × List Path)}
    {repo : Path} {rest : List Path} (h : Processed models fs data processed last)
    (hcap : data.maxLen = 0) (hsplit : artifacts fs repo = processed.map Prod.fst ++ rest)
    (hends : rest = [] ∨ last.isFull = true) :
    processed = (artifacts fs repo).map fun a => (a, regularFiles fs a) := by
  obtain ⟨hroom, hall, -⟩ := h.uncapped hcap
  rcases hends with rfl | hfull
  · rw [hsplit, List.append_nil]
    exact hall
  · rw [hroom] at hfull
    cases hfull

variable (models fs)

/-- What a successful run has counted. It has processed the first directories of the tree, which are
all of them unless the dataset is full, and has read in each the files that there was room for. It has
counted these directories, every file that was read once, and as many examples as the dataset has
grown by. Without a cap it has read all regular files of all directories, and its examples make up,
with the identities that it has missed on either side, all identities of the other side. -/
theorem addRepo_counted (repo : Path) (i : Interrupt) (data : Dataset) {stats : ExtractionStats}
    (h : (addRepo models fs i data repo).value.outcome = .ok stats) :
    let last := (addRepo models fs i data repo).value.data
    ∃ processed rest, Processed models fs data processed last ∧
      artifacts fs repo = processed.map Prod.fst ++ rest ∧ (rest = [] ∨ last.isFull = true) ∧
      stats.artifacts = processed.length ∧
      stats.sourceFiles + stats.decompiledFiles + stats.ignoredFiles =
        (processed.flatMap Prod.snd).length ∧
      last.length = data.length + stats.examples ∧
      (data.maxLen = 0 →
        processed = (artifacts fs repo).map (fun a => (a, regularFiles fs a)) ∧
        stats.missingSources + stats.examples =
          ((artifacts fs repo).map fun a =>
            identitiesOn models fs a .decompiled (regularFiles fs a)).sum ∧
        stats.missingDecompileds + stats.examples =
          ((artifacts fs repo).map fun a =>
            identitiesOn models fs a .source (regularFiles fs a)).sum) := by
  obtain ⟨processed, rest, hprocessed, hsplit, hends, haccounted, hgrowth⟩ :=
    addRepo_accounted models fs repo i data h
  refine ⟨processed, rest, hprocessed, hsplit, hends, haccounted.artifacts, ?_, hgrowth, ?_⟩
  · rw [haccounted.counted.taken, haccounted.counted.ignored,
      List.length_eq_countP_add_countP (claimed models)]
    simp only [Bool.not_eq_true, Bool.decide_eq_false]
  · intro hcap
    have hall := hprocessed.eq_artifacts hcap hsplit hends
    have hexamples : stats.examples = (processed.map fun a => examplesIn models fs a.1 a.2).sum := by
      have hlength := (hprocessed.uncapped hcap).2.2
      omega
    refine ⟨hall, ?_, ?_⟩
    · rw [haccounted.missingSources, hexamples, sum_missingOn_add_examplesIn, hall, List.map_map]
      rfl
    · rw [haccounted.missingDecompileds, hexamples, sum_missingOn_add_examplesIn, hall, List.map_map]
      rfl

theorem processed_twoArtifacts : ∃ last,
    Processed [plainC] twoArtifacts (.empty 2)
      [(.ofString "r/a", regularFiles twoArtifacts (.ofString "r/a")),
        (.ofString "r/b", [.ofString "r/b/g.c", .ofString "r/b/g.o.c"])] last ∧
      last.length = 2 ∧ last.isFull = true := by
  let rows := rowsAfter [plainC] twoArtifacts (.ofString "r/a")
    (regularFiles twoArtifacts (.ofString "r/a"))
  let data := (Dataset.empty 2).append (fitting (Dataset.empty 2).remaining rows)
  have hdata : data.length = 1 := by
    rw [Dataset.length_append_fitting (by decide) (by decide), length_rowsAfter, examplesIn_a]
    rfl
  have hroom : data.remaining = some 1 := by
    rw [Dataset.remaining, hdata]
    rfl
  have hfirst : Reading [plainC] twoArtifacts (.ofString "r/a") (Dataset.empty 2).remaining
      (regularFiles twoArtifacts (.ofString "r/a")) := by
    refine .all fun n hn => ?_
    cases hn
    rw [examplesIn_a]
    decide
  have hsecond : Reading [plainC] twoArtifacts (.ofString "r/b") data.remaining
      ([.ofString "r/b/g.c"] ++ [.ofString "r/b/g.o.c"]) := by
    rw [hroom]
    refine .filled ?_ ?_ ?_
    · rw [regularFiles_b]
      exact ⟨[.ofString "r/b/k.c"], rfl⟩
    · rw [examplesIn_b.1]
      decide
    · exact le_of_lt examplesIn_b.2.1.symm.le
  have hlast : (data.append (fitting data.remaining (rowsAfter [plainC] twoArtifacts
      (.ofString "r/b") [.ofString "r/b/g.c", .ofString "r/b/g.o.c"]))).length = 2 := by
    rw [Dataset.length_append_fitting (by decide) (hdata.trans_le (by decide)), length_rowsAfter,
      examplesIn_b.2.1, hdata]
    rfl
  have hopen : data.isFull = false := by
    rw [Dataset.isFull, hdata]
    rfl
  refine ⟨_, .cons rfl hfirst (.cons hopen hsecond (.nil _)), hlast, ?_⟩
  rw [Dataset.isFull]
  exact Bool.and_eq_true_iff.mpr ⟨rfl, decide_eq_true hlast.ge⟩

/-- A cap of two leaves the last file of the second artifact unread; without a cap it is read. -/
theorem addRepo_counted_twoArtifacts :
    let run := fun n => (addRepo [plainC] twoArtifacts .clear (.empty n) (.ofString "r")).value
    (∃ stats, (run 2).outcome = .ok stats ∧ stats.artifacts = 2 ∧
      stats.sourceFiles + stats.decompiledFiles + stats.ignoredFiles = 5 ∧
      (run 2).data.length = 2 ∧ stats.examples = 2) ∧
    ∃ stats, (run 0).outcome = .ok stats ∧ stats.artifacts = 2 ∧
      stats.sourceFiles + stats.decompiledFiles + stats.ignoredFiles = 6 ∧
      (run 0).data.length = stats.examples ∧
      stats.missingSources + stats.examples =
        identitiesOn [plainC] twoArtifacts (.ofString "r/a") .decompiled
            [.ofString "r/a/f.c", .ofString "r/a/f.o.c", .ofString "r/a/notes"] +
          identitiesOn [plainC] twoArtifacts (.ofString "r/b") .decompiled
            [.ofString "r/b/g.c", .ofString "r/b/g.o.c", .ofString "r/b/k.c"] := by
  intro run
  have hartifacts : artifacts twoArtifacts (.ofString "r") = [.ofString "r/a", .ofString "r/b"] := by
    cbv
  have hok : ∀ n, ∃ stats, (run n).outcome = .ok stats := by
    intro n
    obtain ⟨rs, stats, hrun, -⟩ := addEntries_length [plainC] twoArtifacts .zero
      [.ofString "r/a", .ofString "r/b", .ofString "r/loose.c"] (.empty n)
    refine ⟨stats, ?_⟩
    rw [show run n = _ from addRepo_of_list _ _ _ _ list_twoArtifacts, hrun]
  constructor
  · obtain ⟨stats, hstats⟩ := hok 2
    obtain ⟨processed, rest, hprocessed, hsplit, hends, hcount, hfiles, hgrowth, -⟩ :=
      addRepo_counted [plainC] twoArtifacts (.ofString "r") .clear (.empty 2) hstats
    obtain ⟨last, htwo, hlength, hfull⟩ := processed_twoArtifacts
    obtain ⟨rfl, hlast⟩ := hprocessed.unique htwo
      (hsplit.symm.trans (hartifacts.trans (List.append_nil _).symm)) hends (.inl rfl)
    have hdata : (run 2).data.length = 2 := (congrArg Dataset.length hlast).trans hlength
    have hexamples : stats.examples = 2 := (hgrowth.trans (Nat.zero_add _)).symm.trans hdata
    rw [regularFiles_a] at hfiles
    exact ⟨stats, hstats, hcount, hfiles, hdata, hexamples⟩
  · obtain ⟨stats, hstats⟩ := hok 0
    obtain ⟨processed, -, -, -, -, hcount, hfiles, hgrowth, huncapped⟩ :=
      addRepo_counted [plainC] twoArtifacts (.ofString "r") .clear (.empty 0) hstats
    obtain ⟨hall, hidentities, -⟩ := huncapped rfl
    rw [hartifacts, List.map_cons, List.map_singleton, regularFiles_a, regularFiles_b]
      at hall hidentities
    rw [hall] at hcount hfiles
    exact ⟨stats, hstats, hcount, hfiles, hgrowth.trans (Nat.zero_add _), hidentities⟩

end FunctionPairs.Extraction
