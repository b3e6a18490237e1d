import FunctionPairs.Proofs.CommandLine.Split
import FunctionPairs.Proofs.Extraction.Cap
import FunctionPairs.Proofs.Extraction.Finishing
import FunctionPairs.Proofs.FileSystem.Placement
import FunctionPairs.Proofs.Places.Output

/-!
Extracting a dataset. Nothing is written before all has been checked and the artifacts are through,
or the run is stopped between them; what is written then is what the finished ones have brought.
-/
namespace FunctionPairs

open FileSystem (Built Fits Grows RisesInside find_eq_ok)

namespace Places

variable {fs fs₁ : FileSystem} {p : Path} {force : Bool} {l : Location}

theorem missing_of_writable (hfs : fs.Sound) (hmissing : fs.contains p = false)
    (hw : fs.writable p = .ok l) : fs.entryAt l = none := by
  by_contra hne
  obtain ⟨e, he⟩ := Option.ne_none_iff_exists'.mp hne
  obtain ⟨hresolve, -⟩ := FileSystem.writable_eq_ok hfs hw
  have hthere := FileSystem.contains_iff.mpr ⟨l, e, find_eq_ok.mpr ⟨hresolve, he⟩⟩
  rw [hmissing] at hthere
  cases hthere

theorem missing_of_created {above : Path} {ys : List Name} {d : Location} {s : Name}
    {rest : List Name} (hfs : fs.Sound) (hparent : p.parent = some above)
    (hf : fs.Frontier above ys d s rest) (hbuilt : Built (above :: above.ancestors) fs fs₁)
    (hleads : fs₁.Leads above (d ++ s :: rest)) (hw : fs₁.writable p = .ok l) :
    fs.entryAt l = none := by
  obtain ⟨-, -, m', d', t', hwalks, ht', rfl, hfile⟩ := FileSystem.writable_eq_ok hbuilt.sound hw
  obtain ⟨hroute, habs, -⟩ := Path.parent_eq_some hparent
  have hne : p.route ≠ [] := by
    intro hnil
    rw [hf.route, hnil] at hroute
    simp at hroute
  obtain ⟨xs, t, hlast⟩ := (List.eq_nil_or_concat p.route).resolve_left hne
  rw [List.concat_eq_append] at hlast
  rw [hlast, List.dropLast_concat] at hroute
  obtain ⟨m, hway⟩ := hleads
  have horigin : fs₁.origin above (xs ++ [t]) = fs₁.origin p p.route := by
    simp [FileSystem.origin, FileSystem.start, habs, hlast]
  rw [hroute] at hway
  have hbeyond : fs₁.Walks (fs₁.origin p p.route) ⟨m, d ++ s :: rest, [t]⟩ := by
    rw [← horigin]
    exact hway.append [t]
  have hbelow : d ++ [s] <+: d ++ s :: rest ++ [t] := ⟨rest ++ [t], by simp⟩
  have hstuck : fs₁.Stuck ⟨m', d', [t']⟩ := FileSystem.stuck_of_entryAt ht'.2.2.1 hfile
  by_cases hup : t = Name.up
  · rw [hup] at hbeyond
    cases FileSystem.Walks.unique (hbeyond.tail .up) hwalks FileSystem.stuck_nil hstuck
  · have hfree : fs₁.entryAt (d ++ s :: rest ++ [t]) = none := by
      by_contra hne
      obtain ⟨e, he⟩ := Option.ne_none_iff_exists'.mp hne
      rcases hf.built hfs hbuilt he with hold | ⟨-, -, hsub⟩
      · rw [hf.missing_below hfs hbelow] at hold
        cases hold
      · exact absurd hsub.length_le (by simp)
    cases hbeyond.unique hwalks (FileSystem.stuck_of_missing hup hfree) hstuck
    exact hf.missing_below hfs hbelow

theorem prepareOutput_missing (hfs : fs.Sound)
    (hrises : ∀ above, p.parent = some above → fs.RisesInside above)
    (hmissing : fs.contains p = false) (h : prepareOutput fs p force = (.ok (), fs₁))
    (hw : fs₁.writable p = .ok l) : fs.entryAt l = none := by
  have hprepare := h
  unfold prepareOutput at h
  split_ifs at h
  · cases h
  · cases h
  · split at h
    · cases h
      exact missing_of_writable hfs hmissing hw
    · next above hparent =>
      split_ifs at h with hempty
      · cases h
        exact missing_of_writable hfs hmissing hw
      · have hsound := (prepareOutput_grows hfs hprepare).2
        have hp := FileSystem.fits_of_resolve (FileSystem.writable_eq_ok hsound hw).1
        have hfits : Fits above :=
          ⟨Bool.eq_false_iff.mpr hempty, (Path.parent_eq_some hparent).2.2.trans hp.2⟩
        rcases create_cases hfs hfits (hrises above hparent) h with
          ⟨rfl, -⟩ | ⟨ys, d, s, rest, hf, hbuilt, hleads⟩
        · exact missing_of_writable hfs hmissing hw
        · exact missing_of_created hfs hparent hf hbuilt (hleads rfl) hw

theorem prepareOutput_refused (hforce : force = false) (hin : fs.contains p = true) :
    ∃ e, prepareOutput fs p force = (.error e, fs) := by
  unfold prepareOutput
  split_ifs with hdir hrefused
  · exact ⟨_, rfl⟩
  · exact ⟨_, rfl⟩
  · simp [hin, hforce] at hrefused

end Places

namespace CommandLine

open Extraction (Added RepoRun addRepo artifacts modelsOf)
open SessionStep

variable {env : Environment} {o : ExtractOptions} {s s' : Session} {r : Except Failure Unit}

/-- What there is to be saved: everything has been checked, the directories of the output have been
made, and the extraction has ended, or was stopped by the signal. -/
structure Gathered (env : Environment) (o : ExtractOptions) (before : FileSystem)
    (ms : List LanguageModel) (fs : FileSystem) (run : RepoRun) : Prop where
  models : ∃ langs config, Lang.parseList o.types = .ok langs ∧
    Config.load before o.config env.lookup = .ok config ∧
    ms = modelsOf env.grammar langs config fs env.home
  input : Places.requireDirectory before o.input = .ok ()
  output : Places.prepareOutput before o.output o.force = (.ok (), fs)
  extracted : (addRepo ms fs env.interrupt (.empty o.count) o.input).value = run
  ended : ∀ e, run.outcome = .error e → e.isInterrupted = true

variable {before fs after : FileSystem} {ms : List LanguageModel} {run : RepoRun}

theorem Gathered.determined (hg : Gathered env o before ms fs run) {langs : List Lang}
    {config : Config} {fs' : FileSystem} (hlangs : Lang.parseList o.types = .ok langs)
    (hconfig : Config.load before o.config env.lookup = .ok config)
    (hprepare : Places.prepareOutput before o.output o.force = (.ok (), fs')) :
    fs = fs' ∧ ms = modelsOf env.grammar langs config fs' env.home ∧
      run = (addRepo ms fs env.interrupt (.empty o.count) o.input).value := by
  obtain ⟨langs', config', hlangs', hconfig', hms⟩ := hg.models
  cases hlangs.symm.trans hlangs'
  cases hconfig.symm.trans hconfig'
  cases hprepare.symm.trans hg.output
  exact ⟨rfl, hms, hg.extracted.symm⟩

theorem saveDataset_bind_cases {d : Dataset} {p : Path} {f : Dataset → SessionStep Unit}
    {outcome : Except Failure Unit} (h : ((saveDataset d p >>= f) s).value = (r, s'))
    (hf : ∀ sorted s, (f sorted s).value.1 = outcome ∧ (f sorted s).value.2.files = s.files) :
    (∃ e, (d.save s.files p).2 = .error e ∧ r = .error e ∧ s'.files = s.files) ∨
      (d.save s.files p).2 = .ok s'.files ∧ r = outcome := by
  have hvalue := saveDataset_value (d := d) (p := p) (s := s)
  cases hsave : (d.save s.files p).2 with
  | error e =>
    rw [hsave] at hvalue
    rw [Action.value_bind_of_error hvalue] at h
    cases h
    exact .inl ⟨e, rfl, rfl, rfl⟩
  | ok fs =>
    rw [hsave] at hvalue
    rw [Action.value_bind_of_ok hvalue] at h
    obtain ⟨hr, hfiles⟩ := hf d.sortBySourceLength { s with files := fs }
    rw [h] at hr hfiles
    exact .inr ⟨congrArg Except.ok hfiles.symm, hr⟩

theorem extract_cases (h : (extract env o s).value = (r, s')) :
    ((∀ ms fs run, ¬ Gathered env o s.files ms fs run) ∧ r ≠ .ok () ∧
        (s'.files = s.files ∨ ∃ r₁, Places.prepareOutput s.files o.output o.force = (r₁, s'.files))) ∨
      ∃ ms fs run, Gathered env o s.files ms fs run ∧
        ((∃ e, (run.data.save fs o.output).2 = .error e ∧ r = .error e ∧ s'.files = fs) ∨
          (run.data.save fs o.output).2 = .ok s'.files ∧ r = run.outcome.map fun _ => ()) := by
  unfold extract at h
  -- whatever is checked before anything is extracted: where it fails, nothing has been gathered
  rcases Action.bind_ofExcept_cases h with ⟨e, hlangs, rfl, rfl⟩ | ⟨langs, hlangs, h⟩
  · refine .inl ⟨fun ms fs run hg => ?_, nofun, .inl rfl⟩
    obtain ⟨langs, config, hlangs', -⟩ := hg.models
    cases hlangs.symm.trans hlangs'
  rcases load_bind_cases (fun fs => Config.load fs o.config env.lookup) h with
    ⟨e, hconfig, rfl, rfl⟩ | ⟨config, hconfig, h⟩
  · refine .inl ⟨fun ms fs run hg => ?_, nofun, .inl rfl⟩
    obtain ⟨langs, config, -, hconfig', -⟩ := hg.models
    cases hconfig.symm.trans hconfig'
  have hfiles : (files s).value = (.ok s.files, s) := rfl
  rw [Action.value_bind_of_ok hfiles] at h
  rcases Action.bind_ofExcept_cases h with ⟨e, hinput, rfl, rfl⟩ | ⟨_, hinput, h⟩
  · refine .inl ⟨fun ms fs run hg => ?_, nofun, .inl rfl⟩
    cases hinput.symm.trans hg.input
  rcases prepare_bind_cases h with ⟨e, hprepare, rfl⟩ | ⟨fs, hprepare, h⟩
  · refine .inl ⟨fun ms fs run hg => ?_, nofun, .inr ⟨_, hprepare⟩⟩
    cases hprepare.symm.trans hg.output
  rw [Action.value_bind_of_ok rfl, Action.value_bind_of_ok rfl,
    Action.value_bind_of_ok (Action.value_ofLogged _ _)] at h
  dsimp only at h
  generalize hrun : (addRepo (modelsOf env.grammar langs config fs env.home) fs env.interrupt
    (.empty o.count) o.input).value = run at h
  have hmodels : ∃ ls c, Lang.parseList o.types = .ok ls ∧
      Config.load s.files o.config env.lookup = .ok c ∧
      modelsOf env.grammar langs config fs env.home = modelsOf env.grammar ls c fs env.home :=
    ⟨langs, config, hlangs, hconfig, rfl⟩
  cases houtcome : run.outcome with
  | ok stats =>
    rw [houtcome] at h
    dsimp only at h
    refine .inr ⟨_, fs, run, ⟨hmodels, hinput, hprepare, hrun, fun e he => ?_⟩, ?_⟩
    · cases houtcome.symm.trans he
    · rw [houtcome]
      exact saveDataset_bind_cases h fun _ _ => ⟨rfl, rfl⟩
  | error e =>
    rw [houtcome] at h
    dsimp only at h
    split_ifs at h with hinterrupted
    · rw [Action.value_bind_of_ok rfl] at h
      refine .inr ⟨_, fs, run, ⟨hmodels, hinput, hprepare, hrun, fun e' he => ?_⟩, ?_⟩
      · cases houtcome.symm.trans he
        exact hinterrupted
      · rw [houtcome]
        exact saveDataset_bind_cases h fun _ _ => ⟨rfl, rfl⟩
    · cases h
      refine .inl ⟨fun ms fs' run' hg => ?_, nofun, .inr ⟨_, hprepare⟩⟩
      obtain ⟨rfl, rfl, hsame⟩ := hg.determined hlangs hconfig hprepare
      cases hrun.symm.trans hsame.symm
      exact hinterrupted (hg.ended e houtcome)

theorem Gathered.unique {ms' : List LanguageModel} {fs' : FileSystem} {run' : RepoRun}
    (hg : Gathered env o before ms fs run) (hg' : Gathered env o before ms' fs' run') :
    ms = ms' ∧ fs = fs' ∧ run = run' := by
  obtain ⟨langs, config, hlangs, hconfig, rfl⟩ := hg'.models
  obtain ⟨rfl, rfl, hrun⟩ := hg.determined hlangs hconfig hg'.output
  exact ⟨rfl, rfl, hrun.trans hg'.extracted⟩

theorem Gathered.loaded (hg : Gathered env o before ms fs run) (hfs : before.Sound)
    (hcount : o.count ≤ Decimal.maxCount) (hsave : (run.data.save fs o.output).2 = .ok after) :
    ∃ finished rest d, Added ms fs (.empty o.count) finished ∧
      artifacts fs o.input = finished.map Prod.fst ++ rest ∧
      (∀ stats, run.outcome = .ok stats → rest = [] ∨ run.data.isFull = true) ∧
      Dataset.load after o.output = .ok d ∧
      Dataset.SortedByLength (finished.flatMap Prod.snd) d.rows ∧
      d.maxLen = o.count ∧ (0 < o.count → d.rows.length ≤ o.count) := by
  have hsound := (Places.prepareOutput_grows hfs hg.output).2
  obtain ⟨finished, rest, hadded, hsplit, hdata, hends⟩ :=
    Extraction.addRepo_added ms fs o.input env.interrupt (.empty o.count)
  rw [hg.extracted] at hdata hends
  have haligned : run.data.Aligned := by
    rw [hdata]
    exact (Dataset.aligned_empty o.count).append _
  have hmax : run.data.maxLen = o.count := by
    rw [hdata]
    rfl
  have hsorted : Dataset.SortedByLength (finished.flatMap Prod.snd)
      run.data.sortBySourceLength.rows := by
    have hrows := Dataset.sortedByLength_mergeSort run.data.rows
    rw [← Dataset.rows_sortBySourceLength haligned] at hrows
    rwa [congrArg Dataset.rows hdata, Extraction.rows_append_empty] at hrows
  refine ⟨finished, rest, _, hadded, hsplit, hends,
    Dataset.load_of_save hsound haligned (hmax ▸ hcount) hsave, hsorted, hmax, fun hpos => ?_⟩
  rw [hsorted.perm.length_eq]
  exact hadded.length_le (Extraction.remaining_empty hpos)

theorem Gathered.grows (hg : Gathered env o before ms fs run) (hfs : before.Sound)
    (hmissing : before.contains o.output = false)
    (hrises : ∀ above, o.output.parent = some above → before.RisesInside above)
    (hsave : (run.data.save fs o.output).2 = .ok after) : before.Grows after := by
  have hgrows := (Places.prepareOutput_grows hfs hg.output).1
  obtain ⟨l, hw, rfl⟩ := FileSystem.put_of_write (Dataset.save_eq_ok.mp hsave)
  have hnew := Places.prepareOutput_missing hfs hrises hmissing hg.output hw
  refine ⟨hgrows.working, fun k e he => ?_⟩
  rw [FileSystem.entryAt_put_other]
  · exact hgrows.old k e he
  · rintro rfl
    rw [hnew] at he
    cases he

/-- The output of a run that fails before it has anything to save is as it was. Otherwise the output
is written, and what is loaded from it are the rows of the artifacts that have been finished, in the
stable order of their lengths: the first ones of the tree, and all of them if the run succeeds
without filling the dataset. A file that is found at the output is only replaced if that is forced,
and what is not found there only if the output goes up from something missing. -/
theorem extract_saves (hfs : s.files.Sound) (hcount : o.count ≤ Decimal.maxCount)
    (hwrites : ∀ ms fs run, Gathered env o s.files ms fs run →
      ∃ fs', (run.data.save fs o.output).2 = .ok fs')
    (h : (extract env o s).value = (r, s')) :
    ((∃ ms fs run finished rest d, Gathered env o s.files ms fs run ∧
        r = run.outcome.map (fun _ => ()) ∧
        Added ms fs (.empty o.count) finished ∧
        artifacts fs o.input = finished.map Prod.fst ++ rest ∧
        (r = .ok () → rest = [] ∨ run.data.isFull = true) ∧
        (run.data.save fs o.output).2 = .ok s'.files ∧
        Dataset.load s'.files o.output = .ok d ∧
        Dataset.SortedByLength (finished.flatMap Prod.snd) d.rows ∧
        d.maxLen = o.count ∧ (0 < o.count → d.rows.length ≤ o.count)) ∨
      (∀ ms fs run, ¬ Gathered env o s.files ms fs run) ∧ r ≠ .ok () ∧
        (∃ ps, Built ps s.files s'.files) ∧
        ∀ contents, s.files.read o.output = .ok contents →
          s'.files.read o.output = .ok contents) ∧
    (o.force = false → s.files.contains o.output = true → r ≠ .ok () ∧ s'.files = s.files) ∧
    (o.force = false →
      (∀ above, o.output.parent = some above → s.files.RisesInside above) →
        s.files.Grows s'.files) := by
  have hcases := extract_cases h
  have hrefused : o.force = false → s.files.contains o.output = true →
      (∀ ms fs run, ¬ Gathered env o s.files ms fs run) ∧ r ≠ .ok () ∧ s'.files = s.files := by
    intro hforce hin
    obtain ⟨e, hprepare⟩ := Places.prepareOutput_refused hforce hin
    rcases hcases with ⟨hnone, hr, hfiles⟩ | ⟨ms, fs, run, hg, -⟩
    · refine ⟨hnone, hr, hfiles.elim id fun ⟨r₁, hdone⟩ => ?_⟩
      exact (Prod.mk.inj (hdone.symm.trans hprepare)).2
    · cases hprepare.symm.trans hg.output
  refine ⟨?_, fun hforce hin => (hrefused hforce hin).2, fun hforce hrises => ?_⟩
  · rcases hcases with ⟨hnone, hr, hfiles⟩ | ⟨ms, fs, run, hg, hsave⟩
    · have hbuilt : ∃ ps, Built ps s.files s'.files := by
        rcases hfiles with hfiles | ⟨r₁, hdone⟩
        · rw [hfiles]
          exact ⟨[], .refl hfs⟩
        · exact Places.prepareOutput_built hfs hdone
      refine .inr ⟨hnone, hr, hbuilt, fun contents hread => ?_⟩
      obtain ⟨ps, hbuilt⟩ := hbuilt
      obtain ⟨l, x, hfind⟩ := FileSystem.read_eq_ok.mp hread
      exact FileSystem.read_eq_ok.mpr ⟨l, x, hbuilt.toGrows.find hfind⟩
    · obtain ⟨fs', hwrites⟩ := hwrites ms fs run hg
      rcases hsave with ⟨e, hfailed, -⟩ | ⟨hsave, hr⟩
      · cases hwrites.symm.trans hfailed
      · obtain ⟨finished, rest, d, hadded, hsplit, hends, hload⟩ := hg.loaded hfs hcount hsave
        refine .inl ⟨ms, fs, run, finished, rest, d, hg, hr, hadded, hsplit, fun hok => ?_, hsave,
          hload⟩
        cases houtcome : run.outcome with
        | ok stats => exact hends stats houtcome
        | error e =>
          rw [hr, houtcome] at hok
          cases hok
  · cases hin : s.files.contains o.output with
    | true =>
      rw [(hrefused hforce hin).2.2]
      exact .refl _
    | false =>
      rcases hcases with ⟨-, -, hfiles | ⟨r₁, hdone⟩⟩ | ⟨ms, fs, run, hg, hsave⟩
      · rw [hfiles]
        exact .refl _
      · exact (Places.prepareOutput_grows hfs hdone).1
      · rcases hsave with ⟨e, -, -, hfiles⟩ | ⟨hsave, -⟩
        · rw [hfiles]
          exact (Places.prepareOutput_grows hfs hg.output).1
        · exact hg.grows hfs hin hrises hsave

def extracting (output : String) : ExtractOptions :=
  ⟨.ofString "r", .ofString output, "c", 1, false, none⟩

def plainEnvironment : Environment := ⟨Syntax.parse, .ofString "", fun _ => none, .clear⟩

theorem exists_gathered {output : String} {entries : List Path}
    (hinput : Places.requireDirectory before (.ofString "r") = .ok ())
    (hprepare : Places.prepareOutput before (.ofString output) false = (.ok (), fs))
    (hlist : fs.list (.ofString "r") = .ok entries) :
    ∃ ms run, Gathered plainEnvironment (extracting output) before ms fs run ∧
      ∃ stats, run.outcome = .ok stats := by
  have hlangs : Lang.parseList "c" = .ok [.c] := by cbv
  have hconfig : Config.load before none plainEnvironment.lookup = .ok .standard := by cbv
  let ms := modelsOf Syntax.parse [.c] .standard fs plainEnvironment.home
  obtain ⟨rs, reached, hrun, -⟩ := Extraction.addEntries_length ms fs .zero entries (.empty 1)
  have hvalue := Extraction.addRepo_of_list ms fs .clear (.empty 1) hlist
  rw [hrun] at hvalue
  refine ⟨ms, _, ⟨⟨[.c], .standard, hlangs, hconfig, rfl⟩, hinput, hprepare, hvalue,
    fun e he => ?_⟩, reached, rfl⟩
  cases he

theorem extract_saves_oneArtifact :
    ∃ s' d, (extract plainEnvironment (extracting "set") ⟨Extraction.oneArtifact, []⟩).value =
        (.ok (), s') ∧
      Dataset.load s'.files (.ofString "set") = .ok d ∧ d.maxLen = 1 ∧ d.rows.length ≤ 1 := by
  have hsound : Extraction.oneArtifact.Sound := by
    refine FileSystem.sound_of_entries ?_ rfl
    unfold Extraction.oneArtifact
    decide
  have hprepare : Places.prepareOutput Extraction.oneArtifact (.ofString "set") false =
      (.ok (), Extraction.oneArtifact) := by cbv
  have hwritable : Extraction.oneArtifact.writable (.ofString "set") = .ok [Utf8.encode "set"] := by
    cbv
  obtain ⟨ms, run, hg, stats, hok⟩ := exists_gathered (by cbv) hprepare
    (by cbv : Extraction.oneArtifact.list (.ofString "r") = .ok [.ofString "r/a"])
  have hwrites : ∀ ms fs run,
      Gathered plainEnvironment (extracting "set") Extraction.oneArtifact ms fs run →
        ∃ fs', (run.data.save fs (.ofString "set")).2 = .ok fs' := by
    intro ms' fs' run' hg'
    obtain ⟨-, rfl, -⟩ := hg.unique hg'
    obtain ⟨after, hwrite⟩ := FileSystem.exists_write hwritable
      (Utf8.encode run'.data.sortBySourceLength.toJson)
    exact ⟨after, Dataset.save_eq_ok.mpr hwrite⟩
  obtain ⟨hends, -⟩ := extract_saves (s := ⟨Extraction.oneArtifact, []⟩) hsound (by decide) hwrites
    (Prod.eta _).symm
  rcases hends with ⟨_, _, run', _, _, d, hg', hr, -, -, -, -, hload, -, hmax, hlength⟩ | ⟨hnone, -⟩
  · obtain ⟨-, -, rfl⟩ := hg.unique hg'
    rw [hok] at hr
    exact ⟨_, d, Prod.ext hr rfl, hload, hmax, hlength (by decide)⟩
  · exact absurd hg (hnone ms _ run)

def artifactAndFile : FileSystem :=
  { Extraction.oneArtifact with
    entries := Extraction.oneArtifact.entries ++
      [([Utf8.encode "set"], .file (Utf8.encode "kept") false)] }

/-- Where the output goes up from what is missing, it is not found when it is checked, and what is
in its place is replaced although that is not forced. -/
theorem extract_replaces :
    artifactAndFile.read (.ofString "set") = .ok (Utf8.encode "kept") ∧
      ∃ s', (extract plainEnvironment (extracting "new/../set") ⟨artifactAndFile, []⟩).value =
          (.ok (), s') ∧
        s'.files.read (.ofString "set") = s'.files.read (.ofString "new/../set") ∧
        s'.files.read (.ofString "set") ≠ .ok (Utf8.encode "kept") := by
  have hprepare : Places.prepareOutput artifactAndFile (.ofString "new/../set") false =
      (.ok (), artifactAndFile.put [Utf8.encode "new"] .directory) := by cbv
  have hwritable : (artifactAndFile.put [Utf8.encode "new"] .directory).writable
      (.ofString "new/../set") = .ok [Utf8.encode "set"] := by cbv
  obtain ⟨ms, run, hg, stats, hok⟩ := exists_gathered (by cbv) hprepare
    (by cbv : (artifactAndFile.put [Utf8.encode "new"] .directory).list (.ofString "r") =
      .ok [.ofString "r/a"])
  have hsound : artifactAndFile.Sound := by
    refine FileSystem.sound_of_entries ?_ rfl
    unfold artifactAndFile Extraction.oneArtifact
    decide
  rcases extract_cases (s := ⟨artifactAndFile, []⟩) (Prod.eta _).symm with
    ⟨hnone, -⟩ | ⟨ms', fs', run', hg', hsave⟩
  · exact absurd hg (hnone ms _ run)
  obtain ⟨-, rfl, rfl⟩ := hg.unique hg'
  rcases hsave with ⟨e, hfailed, -⟩ | ⟨hsave, hr⟩
  · obtain ⟨after, hwrite⟩ := FileSystem.exists_write hwritable
      (Utf8.encode run.data.sortBySourceLength.toJson)
    cases (Dataset.save_eq_ok.mpr hwrite).symm.trans hfailed
  rw [hok] at hr
  refine ⟨by cbv, _, Prod.ext hr rfl, ?_⟩
  generalize (extract plainEnvironment _ _).value.2.files = after at hsave ⊢
  -- both spellings lead to the file that has just been written
  obtain ⟨l, x, hresolve, hfind, hothers⟩ := FileSystem.find_write
    (Places.prepareOutput_grows hsound hprepare).2 (Dataset.save_eq_ok.mp hsave)
  have hplace : (artifactAndFile.put [Utf8.encode "new"] .directory).resolve true
      (.ofString "new/../set") = .ok [Utf8.encode "set"] := by cbv
  obtain rfl := Except.ok.inj (hresolve.symm.trans hplace)
  have hset := hothers (.ofString "set") [Utf8.encode "set"] (.file (Utf8.encode "kept") false)
    (by cbv) rfl
  rw [if_pos rfl] at hset
  have hsame : after.read (.ofString "set") = after.read (.ofString "new/../set") :=
    (FileSystem.read_eq_ok.mpr ⟨_, _, hset⟩).trans (FileSystem.read_eq_ok.mpr ⟨_, _, hfind⟩).symm
  refine ⟨hsame, fun hkept => ?_⟩
  -- what stands there can be loaded, so it is not what stood there
  obtain ⟨_, _, d, -, -, -, hload, -⟩ := hg.loaded hsound (by decide) hsave
  obtain ⟨k, contents, y, hloaded, hjson, -⟩ := Dataset.load_eq_ok hload
  obtain rfl := Except.ok.inj
    ((FileSystem.read_eq_ok.mpr ⟨k, y, hloaded⟩).symm.trans (hsame.symm.trans hkept))
  have hnone : Dataset.ofJson (Utf8.encode "kept") = none := by cbv
  rw [hnone] at hjson
  cases hjson

end CommandLine
end FunctionPairs
