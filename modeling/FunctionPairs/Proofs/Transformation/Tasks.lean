import FunctionPairs.Proofs.FileSystem.Finding
import FunctionPairs.Proofs.Transformation.File

/-!
What becomes of one file. Its name and its bytes say whether there is anything to transform in it;
if there is, and the cap leaves room, it is rewritten, and otherwise copied under its own name.
Either way a failure leaves the files and the counts as they were.
-/
namespace FunctionPairs

def LanguageModel.admits (m : LanguageModel) (contents : Bytes) : Bool :=
  !(0 < m.maxSourceBytes && m.maxSourceBytes < contents.length) &&
    m.analyzer.dialects.contains m.lang.dialect

/-- A file to be transformed: the language that claims it, what it is to that language, its name as
text, and its bytes. -/
structure Task where
  model : LanguageModel
  role : FileRole
  text : String
  contents : Bytes

namespace Task

def units (k : Task) : List SourceUnit := k.model.unitsOf k.contents

def bodies (k : Task) : List String := SourceUnit.bodies k.units

def target (k : Task) : Name :=
  Utf8.encode (Transformer.sourceName k.model.lang k.role k.text)

def output (k : Task) (answers : List String) : Bytes :=
  Utf8.encode (weave (SourceUnit.around k.units) answers)

end Task

theorem LanguageModel.readSource_of_read {m : LanguageModel} {fs : FileSystem} {p : Path}
    {contents : Bytes} (h : fs.read p = .ok contents) :
    m.readSource fs p = if 0 < m.maxSourceBytes && m.maxSourceBytes < contents.length then
      .error (.oversized p contents.length m.maxSourceBytes) else .ok contents := by
  have hsize : fs.size p = .ok contents.length := by
    obtain ⟨l, x, hfind⟩ := FileSystem.read_eq_ok.mp h
    simp [FileSystem.size, FileSystem.entry, hfind, Except.map]
  simp [readSource, hsize, h]

namespace Transformer

variable {σ : Type} (t : Transformer σ) {path : Path} {name : Name} {toDir : Path}
  {s s' : TransformState σ} {contents : Bytes} {k : Task}

def task? (name : Name) (contents : Bytes) : Option Task :=
  match Utf8.decode? name with
  | none => none
  | some text =>
    match claim? t.models text with
    | none => none
    | some (m, role) =>
      if m.admits contents && (role != .bytecode || (Utf8.decode? contents).isSome) then
        some ⟨m, role, text, contents⟩
      else none

variable {t}

theorem task?_eq_some :
    t.task? name contents = some k ↔ Utf8.decode? name = some k.text ∧
      claim? t.models k.text = some (k.model, k.role) ∧ k.model.admits contents = true ∧
      (k.role = .bytecode → (Utf8.decode? contents).isSome = true) ∧ k.contents = contents := by
  obtain ⟨m, role, text, bytes⟩ := k
  unfold task?
  cases Utf8.decode? name with
  | none => simp
  | some text' =>
    dsimp only
    cases hclaim : claim? t.models text' with
    | none =>
      refine iff_of_false nofun fun ⟨htext, hclaim', _⟩ => ?_
      cases htext
      rw [hclaim] at hclaim'
      cases hclaim'
    | some claim =>
      obtain ⟨m', role'⟩ := claim
      dsimp only
      constructor
      · intro h
        split_ifs at h with hcond
        cases h
        simp only [Bool.and_eq_true, Bool.or_eq_true, bne_iff_ne] at hcond
        exact ⟨rfl, hclaim, hcond.1, fun hrole => hcond.2.resolve_left (absurd hrole), rfl⟩
      · rintro ⟨htext, hclaim', hadmits, hbytecode, rfl⟩
        cases htext
        rw [hclaim] at hclaim'
        cases hclaim'
        rw [if_pos]
        by_cases hrole : role = .bytecode
        · simp [hadmits, hbytecode hrole]
        · simp [hadmits, hrole]

theorem transformable_iff (hread : s.files.read path = .ok contents) :
    Transformable t path name s k.model k.role k.text k.contents ↔
      t.task? name contents = some k ∧ isCapped t.maxCount s.stats = false := by
  have hsource := LanguageModel.readSource_of_read (m := k.model) hread
  rw [task?_eq_some]
  constructor
  · rintro ⟨hname, hclaimed, huncapped, hk, hparsed, hbytecode⟩
    rw [hsource] at hk
    split_ifs at hk with hsize
    have hsame := Except.ok.inj hk
    refine ⟨⟨hname, hclaimed, ?_, hsame ▸ hbytecode, hsame.symm⟩, huncapped⟩
    rw [LanguageModel.admits, hparsed, Bool.eq_false_iff.mpr hsize]
    rfl
  · rintro ⟨⟨hname, hclaimed, hadmits, hbytecode, rfl⟩, huncapped⟩
    simp only [LanguageModel.admits, Bool.and_eq_true, Bool.not_eq_true'] at hadmits
    refine ⟨hname, hclaimed, huncapped, ?_, hadmits.2, hbytecode⟩
    rw [hsource, hadmits.1, if_neg Bool.false_ne_true]

theorem transformFile_rewriting (hread : s.files.read path = .ok contents)
    (hk : t.task? name contents = some k) (hroom : isCapped t.maxCount s.stats = false) :
    (transformFile t path name toDir s).value =
      (writeUnits t.translator path (toDir.child k.target) k.units s).value :=
  transformFile_of_transformable t path name toDir s ((transformable_iff hread).mpr ⟨hk, hroom⟩)

theorem transformText_copying {tr : Translator σ} {m : LanguageModel} {copyDest dest : Path}
    (hread : s.files.read path = .ok contents) (h : m.admits contents = false) :
    (transformText tr m path copyDest dest s).value = (copyFile path copyDest s).value := by
  unfold transformText
  rw [value_bind_files, Action.value_bind_of_ok (Action.value_ofLogged _ s)]
  cases hunits : (m.topLevelUnits s.files path).value with
  | error e => exact Action.value_bind_of_ok (Action.value_ofLogged _ s) _
  | ok units =>
    obtain ⟨bytes, hsource, hparsed, -⟩ := (m.topLevelUnits_eq_ok s.files).mp hunits
    rw [LanguageModel.readSource_of_read hread] at hsource
    split_ifs at hsource with hsize
    rw [Bool.not_eq_true] at hsize
    rw [LanguageModel.admits, hparsed, hsize] at h
    cases h

theorem value_say_bind {α : Type} (level : Level) (message : String) (m : TransformStep σ α) :
    ((do TransformStep.say level message; m) s).value = (m s).value :=
  Action.value_bind_of_ok rfl _

theorem transformClaimed_copying {m : LanguageModel} {role : FileRole} {text : String}
    {copyDest : Path} (hread : s.files.read path = .ok contents)
    (h : ¬ (m.admits contents = true ∧
      (role = .bytecode → (Utf8.decode? contents).isSome = true))) :
    (transformClaimed t m role text path copyDest toDir s).value =
      (copyFile path copyDest s).value := by
  unfold transformClaimed
  by_cases hrole : role = .bytecode
  · subst hrole
    dsimp only
    rw [value_bind_files, Action.value_bind_ofExcept (because_eq_ok.mpr hread)]
    split_ifs with htext
    · exact value_say_bind _ _ _
    · refine transformText_copying hread ?_
      have hsome : (Utf8.decode? contents).isSome = true := by
        rwa [Option.isSome_iff_ne_none, ne_eq, ← Option.isNone_iff_eq_none]
      simpa [hsome] using h
  · have hadmits : m.admits contents = false := by simpa [hrole] using h
    cases role with
    | bytecode => exact absurd rfl hrole
    | source => exact transformText_copying hread hadmits
    | decompiled => exact transformText_copying hread hadmits

theorem transformFile_copying (hread : s.files.read path = .ok contents)
    (h : t.task? name contents = none ∨ isCapped t.maxCount s.stats = true) :
    (transformFile t path name toDir s).value = (copyFile path (toDir.child name) s).value := by
  unfold transformFile
  cases hname : Utf8.decode? name with
  | none => exact value_say_bind _ _ _
  | some text =>
    dsimp only
    cases hclaim : claim? t.models text with
    | none => rfl
    | some claim =>
      obtain ⟨m, role⟩ := claim
      dsimp only
      rw [value_bind_stats]
      split_ifs with hcap
      · exact value_say_bind _ _ _
      · refine transformClaimed_copying hread fun hgood => ?_
        have htask := task?_eq_some (k := ⟨m, role, text, contents⟩).mpr
          ⟨hname, hclaim, hgood.1, hgood.2, rfl⟩
        rcases h with h | h
        · rw [htask] at h
          cases h
        · exact hcap h

theorem copyFile_cases {source dest : Path} {r : Except Failure Unit}
    (h : (copyFile source dest s).value = (r, s')) :
    (∃ fs, s.files.copy source dest = .ok fs ∧ r = .ok () ∧
        s' = { s with
          files := fs
          stats := { s.stats with filesCopied := s.stats.filesCopied + 1 } }) ∨
      (∃ text cause, r = .error (.ofSystem text cause)) ∧ s' = s := by
  unfold copyFile at h
  rw [Action.value_bind_of_ok (value_warnIfPresent s source dest)] at h
  cases hcopy : s.files.copy source dest with
  | ok fs =>
    rw [Action.value_bind_of_ok ((change_eq_ok s).mpr ⟨fs, hcopy, rfl⟩)] at h
    cases h
    exact .inl ⟨fs, rfl, rfl, rfl⟩
  | error e =>
    refine .inr ?_
    rcases Action.bind_cases h with ⟨e', hchange, rfl⟩ | ⟨_, s₁, hchange, -⟩
    · obtain ⟨cause, -, rfl, rfl⟩ := (change_eq_error s).mp hchange
      exact ⟨⟨_, cause, rfl⟩, rfl⟩
    · obtain ⟨fs, hfs, -⟩ := (change_eq_ok s).mp hchange
      rw [hcopy] at hfs
      cases hfs

theorem writeUnits_cases {tr : Translator σ} {dest : Path} {units : List SourceUnit}
    {r : Except Failure Unit} (h : (writeUnits tr path dest units s).value = (r, s')) :
    (r = .ok () ∧ ∃ answers, Asked tr s.translator (SourceUnit.bodies units) answers s'.translator ∧
        Written s dest (weave (SourceUnit.around units) answers) (SourceUnit.bodies units).length s') ∨
      (s'.files = s.files ∧ s'.stats = s.stats ∧
        ((∃ asked cause text, r = .error (.context text cause) ∧
            Refused tr s.translator asked cause s'.translator ∧ asked <+: SourceUnit.bodies units) ∨
          ∃ answers text cause, r = .error (.ofSystem text cause) ∧
            Asked tr s.translator (SourceUnit.bodies units) answers s'.translator)) := by
  cases r with
  | ok u => exact .inl ⟨rfl, writeUnits_ok path h⟩
  | error e =>
    refine .inr ?_
    unfold writeUnits at h
    rcases Action.bind_cases h with ⟨e', hrewrite, he⟩ | ⟨⟨text, n⟩, s₁, hrewrite, hrest⟩
    · cases he
      obtain ⟨asked, cause, text, hrefused, hasked, rfl, hfiles, hstats⟩ :=
        rewriteUnits_error path hrewrite
      exact ⟨hfiles, hstats, .inl ⟨asked, cause, text, rfl, hrefused, hasked⟩⟩
    · obtain ⟨answers, hasked, rfl, rfl, hfiles, hstats⟩ := rewriteUnits_ok path hrewrite
      dsimp only at hrest
      rw [Action.value_bind_of_ok (value_warnIfPresent s₁ path dest)] at hrest
      rcases Action.bind_cases hrest with ⟨e', hchange, he⟩ | ⟨_, s₂, -, hsay⟩
      · cases he
        obtain ⟨cause, -, rfl, rfl⟩ := (change_eq_error s₁).mp hchange
        exact ⟨hfiles, hstats, .inr ⟨answers, _, cause, rfl, hasked⟩⟩
      · cases hsay

end Transformer
end FunctionPairs
