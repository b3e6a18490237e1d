import Mathlib.Data.List.Basic
import FunctionPairs.Proofs.FileSystem.Lookup
import FunctionPairs.Proofs.Syntax.Units
import FunctionPairs.Proofs.Text.RoundTrip
import FunctionPairs.Proofs.Transformation.Rewriting

/-!
One file transformed. Which files are transformed and which are copied is settled by their names,
their bytes and the cap; a file that is transformed gets the text of the original with the
answers of the translator in place of the bodies, under the name of a source file.
-/
namespace FunctionPairs.Transformer

open SourceUnit (bodies around)
open Syntax (Placed)

variable {σ : Type} (t : Transformer σ) (path : Path) (name : Name) (toDir : Path)
  (s : TransformState σ)

/-- A file that is transformed: its name is text that a language claims, the cap is not reached,
and it can be read and parsed; bytecode has to be text besides. -/
structure Transformable (m : LanguageModel) (role : FileRole) (text : String) (bytes : Bytes) :
    Prop where
  name_text : Utf8.decode? name = some text
  claimed : claim? t.models text = some (m, role)
  uncapped : isCapped t.maxCount s.stats = false
  read : m.readSource s.files path = .ok bytes
  parsed : m.analyzer.dialects.contains m.lang.dialect = true
  bytecode_text : role = .bytecode → (Utf8.decode? bytes).isSome = true

theorem value_bind_files {α : Type} (f : FileSystem → TransformStep σ α) :
    ((TransformStep.files >>= f) s).value = (f s.files s).value :=
  Action.value_bind_of_ok rfl f

theorem value_bind_stats {α : Type} (f : TransformStats → TransformStep σ α) :
    ((TransformStep.stats >>= f) s).value = (f s.stats s).value :=
  Action.value_bind_of_ok rfl f

theorem value_warnIfPresent (source dest : Path) :
    (warnIfPresent source dest s).value = (.ok (), s) := by
  unfold warnIfPresent
  rw [value_bind_files]
  cases h : s.files.contains dest <;> rfl

theorem because_eq_ok {α : Type} {text : String} {x : Except SystemError α} {a : α} :
    SystemError.because text x = .ok a ↔ x = .ok a := by
  cases x with
  | ok b => simp [SystemError.because]
  | error e => exact ⟨fun h => (nomatch h), fun h => (nomatch h)⟩

theorem change_eq_ok {text : String} {f : FileSystem → Except SystemError FileSystem}
    {s' : TransformState σ} :
    (TransformStep.change text f s).value = (.ok (), s') ↔
      ∃ fs, f s.files = .ok fs ∧ s' = { s with files := fs } := by
  unfold TransformStep.change
  cases f s.files with
  | ok fs => simp [eq_comm]
  | error e => simp

theorem change_eq_error {text : String} {f : FileSystem → Except SystemError FileSystem}
    {e : Failure} {s' : TransformState σ} :
    (TransformStep.change text f s).value = (.error e, s') ↔
      ∃ cause, f s.files = .error cause ∧ e = .ofSystem text cause ∧ s' = s := by
  unfold TransformStep.change
  cases f s.files with
  | ok fs => simp
  | error cause => simp [eq_comm]

theorem stats_of_copyFile {source dest : Path} {s' : TransformState σ}
    (h : (copyFile source dest s).value = (.ok (), s')) :
    s'.stats.filesTransformed = s.stats.filesTransformed := by
  unfold copyFile at h
  rw [Action.value_bind_of_ok (value_warnIfPresent s source dest)] at h
  obtain ⟨_, s₁, hchange, hcount⟩ := Action.bind_eq_ok.mp h
  obtain ⟨fs, -, rfl⟩ := (change_eq_ok s).mp hchange
  cases hcount
  rfl

theorem copyFile_of_copy {source dest : Path} {fs : FileSystem}
    (h : s.files.copy source dest = .ok fs) : ∃ s', (copyFile source dest s).value = (.ok (), s') := by
  unfold copyFile
  rw [Action.value_bind_of_ok (value_warnIfPresent s source dest),
    Action.value_bind_of_ok ((change_eq_ok s).mpr ⟨fs, h, rfl⟩)]
  exact ⟨_, rfl⟩

structure Written (dest : Path) (text : String) (functions : Nat) (s' : TransformState σ) :
    Prop where
  files : s.files.write dest (Utf8.encode text) = .ok s'.files
  found : ∃ l, s.files.writable dest = .ok l ∧
    s'.files.entryAt l = some (.file (Utf8.encode text) (s.files.executableAt l))
  stats : s'.stats =
    { s.stats with
      filesTransformed := s.stats.filesTransformed + 1
      functionsTransformed := s.stats.functionsTransformed + functions }

variable {s}

theorem writeUnits_ok {tr : Translator σ} {dest : Path} {units : List SourceUnit}
    {s' : TransformState σ} (h : (writeUnits tr path dest units s).value = (.ok (), s')) :
    ∃ answers, Asked tr s.translator (bodies units) answers s'.translator ∧
      Written s dest (weave (around units) answers) (bodies units).length s' := by
  unfold writeUnits at h
  obtain ⟨⟨text, n⟩, s₁, hrewrite, hrest⟩ := Action.bind_eq_ok.mp h
  obtain ⟨answers, hasked, rfl, rfl, hfiles, hstats⟩ := rewriteUnits_ok path hrewrite
  dsimp only at hrest
  rw [Action.value_bind_of_ok (value_warnIfPresent s₁ path dest)] at hrest
  obtain ⟨_, s₂, hchange, hrest⟩ := Action.bind_eq_ok.mp hrest
  obtain ⟨fs, hwrite, rfl⟩ := (change_eq_ok s₁).mp hchange
  cases hrest
  rw [hfiles] at hwrite
  refine ⟨answers, hasked, hwrite, s.files.entryAt_write hwrite, ?_⟩
  rw [← hstats]

theorem writeUnits_of_asked {tr : Translator σ} {dest : Path} {units : List SourceUnit}
    {answers : List String} {final : σ} {fs : FileSystem}
    (hasked : Asked tr s.translator (bodies units) answers final)
    (hwrite : s.files.write dest (Utf8.encode (weave (around units) answers)) = .ok fs) :
    ∃ s', (writeUnits tr path dest units s).value = (.ok (), s') := by
  obtain ⟨text, n, s₁, hrewrite⟩ := rewriteUnits_of_asked path hasked
  obtain ⟨answers', hasked', rfl, rfl, hfiles, -⟩ := rewriteUnits_ok path hrewrite
  cases hasked.unique hasked'
  rw [← hfiles] at hwrite
  unfold writeUnits
  rw [Action.value_bind_of_ok hrewrite]
  dsimp only
  rw [Action.value_bind_of_ok (value_warnIfPresent s₁ path dest),
    Action.value_bind_of_ok ((change_eq_ok s₁).mpr ⟨fs, hwrite, rfl⟩)]
  exact ⟨_, rfl⟩

theorem writeUnits_of_unwritable {tr : Translator σ} {dest : Path} {units : List SourceUnit}
    {answers : List String} {final : σ} {cause : SystemError}
    (hasked : Asked tr s.translator (bodies units) answers final)
    (hwritable : s.files.writable dest = .error cause) :
    ∃ s', (writeUnits tr path dest units s).value =
      (.error (.ofSystem s!"Failed to write {dest.display}" cause), s') := by
  obtain ⟨text, n, s₁, hrewrite⟩ := rewriteUnits_of_asked path hasked
  obtain ⟨-, -, -, -, hfiles, -⟩ := rewriteUnits_ok path hrewrite
  have hwrite : s₁.files.write dest (Utf8.encode text) = .error cause := by
    rw [hfiles, FileSystem.write, hwritable]
    rfl
  unfold writeUnits
  rw [Action.value_bind_of_ok hrewrite]
  dsimp only
  rw [Action.value_bind_of_ok (value_warnIfPresent s₁ path dest),
    Action.value_bind_of_error ((change_eq_error s₁).mpr ⟨cause, hwrite, rfl, rfl⟩)]
  exact ⟨_, rfl⟩

variable (s)

theorem transformFile_of_transformable {m : LanguageModel} {role : FileRole} {text : String}
    {bytes : Bytes} (h : Transformable t path name s m role text bytes) :
    (transformFile t path name toDir s).value =
      (writeUnits t.translator path (toDir.join (.ofString (sourceName m.lang role text)))
        (m.unitsOf bytes) s).value := by
  have hcut : (m.topLevelUnits s.files path).value = .ok (m.unitsOf bytes) :=
    (m.topLevelUnits_eq_ok s.files).mpr ⟨bytes, h.read, h.parsed, rfl⟩
  have hunits : ∀ dest, (transformText t.translator m path (toDir.child name) dest s).value =
      (writeUnits t.translator path dest (m.unitsOf bytes) s).value := by
    intro dest
    unfold transformText
    rw [value_bind_files, Action.value_bind_of_ok (Action.value_ofLogged _ s), hcut]
  unfold transformFile
  rw [h.name_text]
  dsimp only
  rw [h.claimed]
  dsimp only
  rw [value_bind_stats, h.uncapped, if_neg Bool.false_ne_true]
  unfold transformClaimed
  cases role with
  | bytecode =>
    have hread := m.read_of_readSource s.files h.read
    have htext' : ¬ (Utf8.decode? bytes).isNone = true := by
      rw [Option.isNone_iff_eq_none]
      exact Option.isSome_iff_ne_none.mp (h.bytecode_text rfl)
    rw [value_bind_files, Action.value_bind_ofExcept (because_eq_ok.mpr hread), if_neg htext']
    exact hunits _
  | source => exact hunits _
  | decompiled => exact hunits _

variable {path name toDir} {s' : TransformState σ}

theorem ne_of_counted (hcount : s.stats.filesTransformed < s'.stats.filesTransformed)
    (l : Logged Unit) (source dest : Path) :
    ((do Action.ofLogged l; copyFile source dest) s).value ≠ (.ok (), s') := by
  intro h
  rw [Action.value_bind_of_ok (Action.value_ofLogged l s)] at h
  have hsame := stats_of_copyFile s h
  omega

theorem read_of_transformText {tr : Translator σ} {m : LanguageModel} {copyDest dest : Path}
    (h : (transformText tr m path copyDest dest s).value = (.ok (), s'))
    (hcount : s.stats.filesTransformed < s'.stats.filesTransformed) :
    ∃ bytes, m.readSource s.files path = .ok bytes ∧
      m.analyzer.dialects.contains m.lang.dialect = true := by
  unfold transformText at h
  rw [value_bind_files, Action.value_bind_of_ok (Action.value_ofLogged _ s)] at h
  cases hunits : (m.topLevelUnits s.files path).value with
  | ok units =>
    obtain ⟨bytes, hread, hparsed, -⟩ := (m.topLevelUnits_eq_ok s.files).mp hunits
    exact ⟨bytes, hread, hparsed⟩
  | error e =>
    rw [hunits] at h
    exact absurd h (ne_of_counted s hcount _ _ _)

theorem read_of_transformClaimed {m : LanguageModel} {role : FileRole} {text : String}
    {copyDest : Path}
    (h : (transformClaimed t m role text path copyDest toDir s).value = (.ok (), s'))
    (hcount : s.stats.filesTransformed < s'.stats.filesTransformed) :
    ∃ bytes, m.readSource s.files path = .ok bytes ∧
      m.analyzer.dialects.contains m.lang.dialect = true ∧
      (role = .bytecode → (Utf8.decode? bytes).isSome = true) := by
  unfold transformClaimed at h
  by_cases hrole : role = .bytecode
  · subst hrole
    rw [value_bind_files] at h
    obtain ⟨bytes, s₁, hbytes, hrest⟩ := Action.bind_eq_ok.mp h
    obtain ⟨hbecause, rfl⟩ := Action.ofExcept_eq_ok.mp hbytes
    have hread := because_eq_ok.mp hbecause
    split_ifs at hrest with htext
    · exact absurd hrest (ne_of_counted _ hcount _ _ _)
    · obtain ⟨bytes', hsource, hparsed⟩ := read_of_transformText s₁ hrest hcount
      have hsame := m.read_of_readSource _ hsource
      rw [hread] at hsame
      cases hsame
      refine ⟨bytes, hsource, hparsed, fun _ => ?_⟩
      rw [Option.isSome_iff_ne_none, ne_eq, ← Option.isNone_iff_eq_none]
      exact htext
  · have hrun : ∃ dest, (transformText t.translator m path copyDest dest s).value =
        (.ok (), s') := by
      cases role with
      | bytecode => exact absurd rfl hrole
      | source => exact ⟨_, h⟩
      | decompiled => exact ⟨_, h⟩
    obtain ⟨dest, hrun⟩ := hrun
    obtain ⟨bytes, hsource, hparsed⟩ := read_of_transformText s hrun hcount
    exact ⟨bytes, hsource, hparsed, fun h => absurd h hrole⟩

theorem transformable_of_counted (h : (transformFile t path name toDir s).value = (.ok (), s'))
    (hcount : s.stats.filesTransformed < s'.stats.filesTransformed) :
    ∃ m role text bytes, Transformable t path name s m role text bytes := by
  unfold transformFile at h
  cases hname : Utf8.decode? name with
  | none =>
    rw [hname] at h
    exact absurd h (ne_of_counted s hcount _ _ _)
  | some text =>
    rw [hname] at h
    dsimp only at h
    cases hclaim : claim? t.models text with
    | none =>
      rw [hclaim] at h
      have hsame := stats_of_copyFile s h
      omega
    | some claim =>
      obtain ⟨m, role⟩ := claim
      rw [hclaim] at h
      dsimp only at h
      rw [value_bind_stats] at h
      split_ifs at h with hcap
      · exact absurd h (ne_of_counted s hcount _ _ _)
      · obtain ⟨bytes, hread, hparsed, hbytecode⟩ := read_of_transformClaimed t s h hcount
        exact ⟨m, role, text, bytes, hname, hclaim, Bool.eq_false_iff.mpr hcap, hread, hparsed,
          hbytecode⟩

variable (path name toDir)

/-- The files that are counted as transformed are those that can be. Such a file, whose top-level
nodes the grammar places well, is made up of the bodies of its functions and the text around them.
If it is transformed without a failure, the translator has been asked for exactly these bodies, in
their order, and the file written is made up of its answers and the same text around them; and
there is no failure if the translator gives all answers and the file can be written. A translator
that gives everything back leaves the text as it is, and bytes that are text as they are. -/
theorem transformFile_rewrites :
    (∀ s', (transformFile t path name toDir s).value = (.ok (), s') →
      s.stats.filesTransformed < s'.stats.filesTransformed →
        ∃ m role text bytes, Transformable t path name s m role text bytes) ∧
    ∀ m role text bytes, Transformable t path name s m role text bytes →
      Placed bytes (m.grammar m.lang.dialect bytes).1.children →
        let inner := bodies (m.unitsOf bytes)
        let outer := around (m.unitsOf bytes)
        let dest := toDir.join (.ofString (sourceName m.lang role text))
        (m.topLevelUnits s.files path).value = .ok (m.unitsOf bytes) ∧
        outer.length = inner.length + 1 ∧ weave outer inner = Utf8.decode bytes ∧
        (∀ s', (transformFile t path name toDir s).value = (.ok (), s') →
          ∃ answers, Asked t.translator s.translator inner answers s'.translator ∧
            answers.length = inner.length ∧
            (∀ note : σ → List String,
              (∀ body state, note (t.translator body state).state = note state ++ [body]) →
                note s'.translator = note s.translator ++ inner) ∧
            Written s dest (weave outer answers) inner.length s') ∧
        (∀ answers final fs, Asked t.translator s.translator inner answers final →
          s.files.write dest (Utf8.encode (weave outer answers)) = .ok fs →
            ∃ s', (transformFile t path name toDir s).value = (.ok (), s')) ∧
        (t.translator = .passthrough →
          ∀ s', (transformFile t path name toDir s).value = (.ok (), s') →
            Written s dest (Utf8.decode bytes) inner.length s' ∧
            ∀ valid, Utf8.decode? bytes = some valid →
              Utf8.encode (Utf8.decode bytes) = bytes) := by
  refine ⟨fun s' => transformable_of_counted t s, ?_⟩
  intro m role text bytes hfile hplaced inner outer dest
  have hunits : (m.topLevelUnits s.files path).value = .ok (m.unitsOf bytes) :=
    (m.topLevelUnits_eq_ok s.files).mpr ⟨bytes, hfile.read, hfile.parsed, rfl⟩
  have hweave : weave outer inner = Utf8.decode bytes := by
    rw [← m.unitsOf_text hplaced]
    exact SourceUnit.weave_bodies _
  have hrun := transformFile_of_transformable t path name toDir s hfile
  have hforward : ∀ s', (transformFile t path name toDir s).value = (.ok (), s') →
      ∃ answers, Asked t.translator s.translator inner answers s'.translator ∧
        Written s dest (weave outer answers) inner.length s' := by
    intro s' hok
    rw [hrun] at hok
    exact writeUnits_ok path hok
  refine ⟨hunits, SourceUnit.length_around _, hweave, ?_, ?_, ?_⟩
  · intro s' hok
    obtain ⟨answers, hasked, hwritten⟩ := hforward s' hok
    exact ⟨answers, hasked, hasked.length_answers, fun note hnote => hasked.noted hnote, hwritten⟩
  · intro answers final fs hasked hwrite
    rw [hrun]
    exact writeUnits_of_asked path hasked hwrite
  · intro hpass s' hok
    obtain ⟨answers, hasked, hwritten⟩ := hforward s' hok
    rw [hpass] at hasked
    rw [hasked.passthrough, hweave] at hwritten
    refine ⟨hwritten, ?_⟩
    intro valid hvalid
    obtain ⟨hdecode, hencode⟩ := Utf8.decode?_some hvalid
    rw [hdecode, hencode]

def commented : Bytes :=
  0x2F :: 0x2F :: 0xFF :: Utf8.encode "\nint f()\x7b1;\x7d\n"

def functionBehind : Syntax.Grammar := fun _ _ =>
  (.node (.other "translation_unit") .plain ⟨0, 16⟩
    [.node .functionDefinition .plain ⟨4, 15⟩
      [.node .functionDeclarator .declarator ⟨8, 11⟩ [.node .identifier .declarator ⟨8, 9⟩ []],
        .node (.other "compound_statement") .plain ⟨11, 15⟩ []]], true)

def behindC : LanguageModel := ⟨.c, ⟨[.c]⟩, functionBehind, ⟨[], 0⟩, 0, .standard⟩

def doubling : Transformer (List String) :=
  ⟨[behindC], fun body heard => ⟨.ok (body ++ body), heard ++ [body], false⟩, 0⟩

def beforeDoubling : TransformState (List String) where
  files := ⟨[([Utf8.encode "d"], .directory), ([Utf8.encode "f.o.c"], .file commented false)], []⟩
  stats := .zero
  translator := []
  interrupt := .clear

theorem transformFile_rewrites_commented :
    Transformable doubling (.ofString "f.o.c") (Utf8.encode "f.o.c") beforeDoubling behindC
        .decompiled "f.o.c" commented ∧
      Placed commented (functionBehind .c commented).1.children ∧
      ∃ s', (transformFile doubling (.ofString "f.o.c") (Utf8.encode "f.o.c") (.ofString "d")
          beforeDoubling).value = (.ok (), s') ∧
        s'.translator = ["1;"] ∧ s'.files.read (.ofString "d/f.c") =
          .ok (Utf8.encode "//\uFFFD\nint f()\x7b1;1;\x7d\n") := by
  have hfile : Transformable doubling (.ofString "f.o.c") (Utf8.encode "f.o.c") beforeDoubling
      behindC .decompiled "f.o.c" commented :=
    { name_text := by cbv
      claimed := by cbv
      uncapped := rfl
      read := by cbv
      parsed := rfl
      bytecode_text := fun h => nomatch h }
  have hplaced : Placed commented (functionBehind .c commented).1.children := by
    have hlength : commented.length = 16 := by cbv
    have hplain : commented.all (!Utf8.isContinuation ·) = true := by cbv
    have hboundary : ∀ p ≤ 16, Utf8.Boundary commented p := by
      intro p hp
      apply Utf8.boundary_of_not_continuation (hlength ▸ hp)
      intro b hb
      have hb' := List.all_eq_true.mp hplain b (List.mem_of_getElem? hb)
      exact (Bool.not_eq_true' _).mp hb'
    refine ⟨List.pairwise_singleton _ _, ?_, ?_, ?_⟩
    all_goals
      intro c hc
      cases List.mem_singleton.mp hc
    · decide
    · exact hboundary 4 (by decide)
    · exact hboundary 15 (by decide)
  have hok : (transformFile doubling (.ofString "f.o.c") (Utf8.encode "f.o.c") (.ofString "d")
      beforeDoubling).value.1 = .ok () := by cbv
  have hrun : (transformFile doubling (.ofString "f.o.c") (Utf8.encode "f.o.c") (.ofString "d")
      beforeDoubling).value = (.ok (), (transformFile doubling (.ofString "f.o.c")
        (Utf8.encode "f.o.c") (.ofString "d") beforeDoubling).value.2) := Prod.ext hok rfl
  obtain ⟨-, -, -, hforward, -⟩ :=
    (transformFile_rewrites doubling (.ofString "f.o.c") (Utf8.encode "f.o.c") (.ofString "d")
      beforeDoubling).2 behindC .decompiled "f.o.c" commented hfile hplaced
  obtain ⟨answers, hasked, -, hnoted, -⟩ := hforward _ hrun
  have hbodies : bodies (behindC.unitsOf commented) = ["1;"] := by cbv
  rw [hbodies] at hnoted
  refine ⟨hfile, hplaced, _, hrun, ?_, ?_⟩
  · exact hnoted id fun body state => rfl
  · cbv

end FunctionPairs.Transformer
