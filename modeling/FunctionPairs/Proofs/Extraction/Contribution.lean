import FunctionPairs.Proofs.Extraction.Stores

/-!
What one artifact brings to a dataset. Read to its end it has a contribution, which depends on
nothing but the models and the files; a dataset gets as many rows as the contribution has and the
cap admits, and exactly the contribution if that leaves room. A stop signal makes the artifact
fail and leaves dataset and counters alone, or else has no influence.
-/
namespace FunctionPairs.Extraction

open Dataset (fitting)

variable (models : List LanguageModel) (fs : FileSystem) (artifact : Path)

def wholeFeed : Feed :=
  (feed fs artifact none (fs.walk artifact) .clear (Feed.start models artifact)).value.feed

def contribution : List Row := (wholeFeed models fs artifact).rows

theorem contribution_eq_rowsAfter :
    contribution models fs artifact = rowsAfter models fs artifact (regularFiles fs artifact) := by
  have hstart : (Feed.start models artifact).stores =
      models.map fun m => storeAfter fs m artifact [] := rfl
  rw [contribution, wholeFeed, Feed.rows, feed_storesAfter hstart, rowsAfter, List.flatMap_map]
  rfl

theorem length_contribution : (contribution models fs artifact).length =
    examplesIn models fs artifact (regularFiles fs artifact) := by
  rw [contribution_eq_rowsAfter, length_rowsAfter]

def settled (f : Feed) (added : Nat) : ExtractionStats :=
  { f.stats with
    missingSources := f.stats.missingSources +
      (f.stores.map fun s => s.built.missingSources.length).sum
    missingDecompileds := f.stats.missingDecompileds +
      (f.stores.map fun s => s.built.missingDecompileds.length).sum
    examples := f.stats.examples + added }

theorem finish_eq (data : Dataset) (stats : ExtractionStats) (stores : List ExampleStore) :
    (finish data stats stores).value =
      (data.append (fitting data.remaining (Feed.mk stores stats).rows),
        settled ⟨stores, stats⟩ (fitting data.remaining (Feed.mk stores stats).rows).length) := by
  induction stores generalizing data stats with
  | nil =>
    have hnil : fitting data.remaining (Feed.mk [] stats).rows = [] := Dataset.fitting_nil _
    rw [hnil, Dataset.append_nil]
    rfl
  | cons s stores ih =>
    have hrows : (Feed.mk (s :: stores) stats).rows = storeRows s ++ (Feed.mk stores stats).rows :=
      List.flatMap_cons
    have hbuilt : s.buildExamples.value = s.built := rfl
    simp only [finish, Logged.value_bind, hbuilt, Dataset.extend_eq, ih]
    rw [hrows, Dataset.fitting_append, ← Dataset.append_append, Dataset.remaining_append]
    simp only [settled, storeRows, Feed.rows, List.map_cons, List.sum_cons, List.length_append,
      Nat.add_assoc]

def ownStats : ExtractionStats :=
  { settled (wholeFeed models fs artifact) (contribution models fs artifact).length with
    artifacts := 1 }

def interruption : Failure :=
  .context s!"While extracting artifact {artifact.display}" .interrupted

theorem abandon_value (f : Feed) (e : Failure) :
    (abandon artifact f e).value =
      .context s!"While extracting artifact {artifact.display}" e := by
  unfold abandon
  cases e.isInterrupted <;> rfl

variable (data : Dataset) (stats : ExtractionStats)

theorem extractArtifact_clear :
    let f := (feed fs artifact data.remaining (fs.walk artifact) .clear
      (Feed.start models artifact)).value.feed
    (extractArtifact models fs .clear data stats artifact).value =
      ⟨.ok (), data.append (fitting data.remaining f.rows),
        stats.add { settled f (fitting data.remaining f.rows).length with artifacts := 1 },
        .clear⟩ := by
  obtain ⟨hfailure, hinterrupt⟩ :=
    feed_clear fs artifact data.remaining (fs.walk artifact) (Feed.start models artifact)
  simp only [extractArtifact, Logged.value_bind, hfailure, hinterrupt, finish_eq]
  rfl

theorem extractArtifact_length :
    ∃ rs own, (extractArtifact models fs .clear data stats artifact).value =
        ⟨.ok (), data.append rs, stats.add own, .clear⟩ ∧
      rs.length = (fitting data.remaining (contribution models fs artifact)).length := by
  refine ⟨_, _, extractArtifact_clear models fs artifact data stats, ?_⟩
  cases hr : data.remaining with
  | none => rfl
  | some n =>
    have hstart := Feed.tallied_start models artifact
    have hlimited := tallied_feed fs artifact (some n) (fs.walk artifact) .clear hstart
    have hwhole := tallied_feed fs artifact none (fs.walk artifact) .clear hstart
    rcases feed_limited fs artifact n (fs.walk artifact) (Feed.start models artifact) with h | h
    · rw [h]
      rfl
    · rw [← hlimited.length_rows, ← hwhole.length_rows] at h
      simp only [fitting, List.length_take]
      have hc : n ≤ (contribution models fs artifact).length := h.1.trans h.2
      omega

theorem extractArtifact_fits
    (h : ∀ n, data.remaining = some n → (contribution models fs artifact).length < n) :
    (extractArtifact models fs .clear data stats artifact).value =
      ⟨.ok (), data.append (contribution models fs artifact),
        stats.add (ownStats models fs artifact), .clear⟩ := by
  have hfeed : (feed fs artifact data.remaining (fs.walk artifact) .clear
      (Feed.start models artifact)).value.feed = wholeFeed models fs artifact := by
    cases hr : data.remaining with
    | none => rfl
    | some n =>
      -- stopping early would mean that the contribution fills the room
      have hwhole := tallied_feed fs artifact none (fs.walk artifact) .clear
        (Feed.tallied_start models artifact)
      have hn := h n hr
      rcases feed_limited fs artifact n (fs.walk artifact) (Feed.start models artifact) with he | he
      · exact he
      · rw [← hwhole.length_rows] at he
        exact absurd (he.1.trans he.2) (not_le.mpr hn)
  have hfit : fitting data.remaining (wholeFeed models fs artifact).rows =
      contribution models fs artifact := by
    cases hr : data.remaining with
    | none => rfl
    | some n => exact List.take_of_length_le (h n hr).le
  have hrun := extractArtifact_clear models fs artifact data stats
  simp only [hfeed, hfit] at hrun
  exact hrun

theorem extractArtifact_interrupt (i : Interrupt) :
    let run := (extractArtifact models fs i data stats artifact).value
    let undisturbed := (extractArtifact models fs .clear data stats artifact).value
    (run.outcome = .error (interruption artifact) ∧ run.data = data ∧ run.stats = stats) ∨
      (run.outcome = .ok () ∧ run.data = undisturbed.data ∧ run.stats = undisturbed.stats) := by
  have hclear := extractArtifact_clear models fs artifact data stats
  rcases feed_interrupt fs artifact data.remaining (fs.walk artifact) i
    (Feed.start models artifact) with h | ⟨hnone, hsame⟩
  · left
    simp only [extractArtifact, Logged.value_bind, h, abandon_value]
    exact ⟨rfl, rfl, rfl⟩
  · right
    rw [hclear]
    simp only [extractArtifact, Logged.value_bind, hnone, hsame, finish_eq]
    exact ⟨rfl, rfl, rfl⟩

/-- Without a cap a stop signal that is set after `k` polls ends an artifact with more regular files
than that, and has no influence on any other. -/
theorem extractArtifact_polls (k : Nat) (hcap : data.remaining = none) :
    (extractArtifact models fs ⟨some k⟩ data stats artifact).value =
      if k < (regularFiles fs artifact).length then
        ⟨.error (interruption artifact), data, stats, ⟨some 0⟩⟩
      else
        ⟨.ok (), data.append (contribution models fs artifact),
          stats.add (ownStats models fs artifact), ⟨some (k - (regularFiles fs artifact).length)⟩⟩ := by
  obtain ⟨hfailure, hinterrupt⟩ :=
    feed_polls fs artifact k (fs.walk artifact) (Feed.start models artifact)
  rw [← regularFiles] at hfailure hinterrupt
  have hleft : (extractArtifact models fs ⟨some k⟩ data stats artifact).value.interrupt =
      ⟨some (k - (regularFiles fs artifact).length)⟩ := by
    simp only [extractArtifact, hcap, Logged.value_bind, hfailure]
    split_ifs
    · exact hinterrupt
    · exact hinterrupt
  have hends : (extractArtifact models fs ⟨some k⟩ data stats artifact).value.outcome = .ok () ↔
      ¬ k < (regularFiles fs artifact).length := by
    simp only [extractArtifact, hcap, Logged.value_bind, hfailure]
    split_ifs with hk
    · simp [hk]
    · simp [hk]
  have hrun := extractArtifact_interrupt models fs artifact data stats ⟨some k⟩
  rw [extractArtifact_fits models fs artifact data stats (by simp [hcap])] at hrun
  cases hvalue : (extractArtifact models fs ⟨some k⟩ data stats artifact).value with
  | mk outcome reached counted left =>
    rw [hvalue] at hleft hends hrun
    dsimp only at hleft hends hrun
    obtain ⟨rfl, rfl, rfl⟩ | ⟨rfl, rfl, rfl⟩ := hrun
    · have hk : k < (regularFiles fs artifact).length := by
        by_contra hnot
        cases hends.mpr hnot
      rw [if_pos hk, hleft, Nat.sub_eq_zero_of_le hk.le]
    · rw [if_neg (hends.mp rfl), hleft]

end FunctionPairs.Extraction
