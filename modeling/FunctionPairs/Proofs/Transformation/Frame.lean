import FunctionPairs.Proofs.Places.Output
import FunctionPairs.Proofs.Text.Encoding
import FunctionPairs.Proofs.Text.RoundTrip
import FunctionPairs.Proofs.Transformation.Filling
import FunctionPairs.Transformation.Directory

/-!
What a transformation leaves alone. Once its output has been made empty, all that it puts is put
into the fresh tree; the input tree is then as it was, however the run ends.
-/
namespace FunctionPairs

open FileSystem (Fills LeadsInto Plain)
open TransformStep (Filling Quiet)

variable {σ : Type} {fs : FileSystem} {top : Location}

theorem exists_encode_primaryExtension (lang : Lang) :
    ∃ bs b, Utf8.encode lang.primaryExtension = bs ++ [b] ∧ b ≠ 0x2E ∧ Path.slash ∉ bs ++ [b] := by
  cases lang with
  | c => exact ⟨[0x2E], 0x63, by decide, by decide, by decide⟩
  | cpp => exact ⟨[0x2E, 0x63, 0x70], 0x70, by decide, by decide, by decide⟩

theorem sourceName_ne_up (lang : Lang) (role : FileRole) (text : String) :
    Utf8.encode (Transformer.sourceName lang role text) ≠ Name.up := by
  obtain ⟨bs, b, hsuffix, hb, -⟩ := exists_encode_primaryExtension lang
  intro hup
  have hlast := congrArg List.getLast? hup
  rw [Transformer.sourceName, Utf8.encode_append, hsuffix, ← List.append_assoc,
    List.getLast?_concat] at hlast
  exact hb (Option.some.inj hlast)

theorem moves_sourceName (lang : Lang) (role : FileRole) {name : Name} {text : String}
    (hname : name.Moves) (htext : Utf8.decode? name = some text) :
    Name.Moves (Utf8.encode (Transformer.sourceName lang role text)) := by
  obtain ⟨-, hencode⟩ := Utf8.decode?_some htext
  obtain ⟨bs, b, hsuffix, hb, hslash⟩ := exists_encode_primaryExtension lang
  unfold Transformer.sourceName Lang.dropExtension
  rw [Utf8.encode_append, Utf8.encode_ofList, hsuffix, ← List.append_assoc]
  refine ⟨by simp, fun hmem => ?_, fun hhere => ?_⟩
  · rw [List.append_assoc] at hmem
    rcases List.mem_append.mp hmem with hmem | hmem
    · obtain ⟨c, hc, hmem⟩ := List.mem_flatMap.mp hmem
      refine hname.2.1 ?_
      rw [← hencode]
      exact List.mem_flatMap.mpr ⟨c, List.mem_of_mem_take hc, hmem⟩
    · exact hslash hmem
  · have hlast := congrArg List.getLast? hhere
    rw [List.getLast?_concat] at hlast
    exact hb (Option.some.inj hlast)

namespace Transformer

variable {dir path source dest : Path} {name : Name}

theorem quiet_warnIfPresent : Quiet (warnIfPresent source dest : TransformStep σ Unit) := by
  unfold warnIfPresent
  refine TransformStep.quiet_files.bind fun fs => ?_
  split_ifs
  · exact TransformStep.quiet_say _ _
  · exact TransformStep.quiet_pure _

theorem quiet_rewriteUnit (t : Translator σ) (u : SourceUnit) : Quiet (rewriteUnit t path u) := by
  cases u with
  | other text => exact TransformStep.quiet_pure _
  | function f =>
    unfold rewriteUnit
    dsimp only
    split_ifs
    · exact (TransformStep.quiet_translate t _ _).bind fun body => TransformStep.quiet_pure _
    · exact TransformStep.quiet_pure _

theorem quiet_rewriteUnits (t : Translator σ) (units : List SourceUnit) :
    Quiet (rewriteUnits t path units) := by
  induction units with
  | nil => exact TransformStep.quiet_pure _
  | cons u units ih =>
    refine (quiet_rewriteUnit t u).bind fun a => ?_
    exact ih.bind fun b => TransformStep.quiet_pure _

section File

variable (hfs : fs.Plain top) (hdir : fs.LeadsInto top dir) (hname : name.Moves)

include hfs hdir hname

theorem copyFile_filling :
    Filling fs top (copyFile source (dir.child name) : TransformStep σ Unit) fun _ _ => True := by
  refine Filling.quiet_bind hfs quiet_warnIfPresent fun _ => ?_
  refine (Filling.change hfs fun fs' h => ⟨hfs.copy_child hdir hname h, trivial⟩).bind
    fun _ fs' hfills _ => ?_
  exact (Filling.of_quiet hfills.plain (TransformStep.quiet_countWith _)).imp fun _ _ _ _ => trivial

theorem writeUnits_filling (t : Translator σ) (units : List SourceUnit) :
    Filling fs top (writeUnits t path (dir.child name) units) fun _ _ => True := by
  refine Filling.quiet_bind hfs (quiet_rewriteUnits t units) fun rewritten => ?_
  refine Filling.quiet_bind hfs quiet_warnIfPresent fun _ => ?_
  refine (Filling.change hfs fun fs' h => ⟨hfs.write_child hdir hname h, trivial⟩).bind
    fun _ fs' hfills _ => ?_
  refine (Filling.of_quiet hfills.plain ?_).imp fun _ _ _ _ => trivial
  exact (TransformStep.quiet_say _ _).bind fun _ => TransformStep.quiet_countWith _

theorem transformText_filling (t : Translator σ) (m : LanguageModel) (path : Path) {out : Name}
    (hout : out.Moves) :
    Filling fs top (transformText t m path (dir.child name) (dir.child out)) fun _ _ => True := by
  refine Filling.files_bind ?_
  refine Filling.quiet_bind hfs (TransformStep.quiet_ofLogged _) fun units => ?_
  cases units with
  | ok units => exact writeUnits_filling hfs hdir hout t units
  | error e =>
    refine Filling.quiet_bind hfs (TransformStep.quiet_ofLogged _) fun _ => ?_
    exact copyFile_filling hfs hdir hname

theorem transformClaimed_filling (t : Transformer σ) (m : LanguageModel) (role : FileRole)
    {text : String} (htext : Utf8.decode? name = some text) :
    Filling fs top (transformClaimed t m role text path (dir.child name) dir) fun _ _ => True := by
  have hout := moves_sourceName m.lang role hname htext
  have hrest := transformText_filling hfs hdir hname t.translator m path hout
  cases role with
  | source => exact hrest
  | decompiled => exact hrest
  | bytecode =>
    refine Filling.files_bind ?_
    refine Filling.quiet_bind hfs (TransformStep.quiet_ofExcept _) fun bytes => ?_
    split_ifs
    · refine Filling.quiet_bind hfs (TransformStep.quiet_say _ _) fun _ => ?_
      exact copyFile_filling hfs hdir hname
    · exact hrest

theorem transformFile_filling (t : Transformer σ) :
    Filling fs top (transformFile t path name dir) fun _ _ => True := by
  unfold transformFile
  dsimp only
  split
  · refine Filling.quiet_bind hfs (TransformStep.quiet_say _ _) fun _ => ?_
    exact copyFile_filling hfs hdir hname
  · next text htext =>
    split
    · exact copyFile_filling hfs hdir hname
    · refine Filling.quiet_bind hfs TransformStep.quiet_stats fun stats => ?_
      split_ifs
      · refine Filling.quiet_bind hfs (TransformStep.quiet_say _ _) fun _ => ?_
        exact copyFile_filling hfs hdir hname
      · exact transformClaimed_filling hfs hdir hname t _ _ htext

end File

section Directory

def Inside (fs : FileSystem) (top : Location) (pairs : List DirPair) : Prop :=
  ∀ d ∈ pairs, fs.LeadsInto top d.dest

theorem Inside.fills {fs' : FileSystem} {pairs : List DirPair} (h : Inside fs top pairs)
    (hfs : Fills top fs fs') : Inside fs' top pairs := fun d hd => (h d hd).fills hfs

theorem Inside.append {pairs pairs' : List DirPair} (h : Inside fs top pairs)
    (h' : Inside fs top pairs') : Inside fs top (pairs ++ pairs') := by
  intro d hd
  rcases List.mem_append.mp hd with hd | hd
  · exact h d hd
  · exact h' d hd

theorem transformEntry_filling (t : Transformer σ) {d : DirPair} (hfs : fs.Plain top)
    (hd : fs.LeadsInto top d.dest) (hname : name.Moves) :
    Filling fs top (transformEntry t d name) fun below fs' => Inside fs' top below.toList := by
  refine Filling.files_bind ?_
  refine Filling.quiet_bind hfs (TransformStep.quiet_ofExcept _) fun entry => ?_
  split_ifs
  · refine Filling.bind (Filling.change hfs fun fs' h => hfs.createDirectory_child hd hname h)
      fun _ fs' hfills hdest => ?_
    refine Filling.quiet_bind hfills.plain (TransformStep.quiet_countWith _) fun _ => ?_
    refine Filling.pure hfills.plain fun e he => ?_
    rw [List.mem_singleton.mp he]
    exact hdest
  · refine Filling.quiet_bind hfs TransformStep.quiet_poll fun _ => ?_
    refine (transformFile_filling hfs hd hname t).bind fun _ fs' hfills _ => ?_
    exact Filling.pure hfills.plain nofun
  · refine Filling.quiet_bind hfs (TransformStep.quiet_say _ _) fun _ => ?_
    exact Filling.pure hfs nofun

theorem transformEntries_filling (t : Transformer σ) {d : DirPair} {names : List Name}
    (hfs : fs.Plain top) (hd : fs.LeadsInto top d.dest) (hnames : ∀ n ∈ names, Name.Moves n) :
    Filling fs top (transformEntries t d names) fun below fs' => Inside fs' top below := by
  induction names generalizing fs with
  | nil => exact Filling.pure hfs nofun
  | cons n names ih =>
    rw [List.forall_mem_cons] at hnames
    refine (transformEntry_filling t hfs hd hnames.1).bind fun below fs' hfills hbelow => ?_
    refine (ih hfills.plain (hd.fills hfills) hnames.2).bind fun rest fs'' hfills' hrest => ?_
    exact Filling.pure hfills'.plain ((hbelow.fills hfills').append hrest)

theorem transformOne_filling (t : Transformer σ) {d : DirPair} (hfs : fs.Plain top)
    (hd : fs.LeadsInto top d.dest) :
    Filling fs top (transformOne t d) fun below fs' => Inside fs' top below := by
  refine Filling.files_bind ?_
  refine Filling.quiet_bind hfs (TransformStep.quiet_ofExcept _) fun entries => ?_
  refine transformEntries_filling t hfs hd fun n hn => ?_
  obtain ⟨p, -, hp⟩ := List.mem_filterMap.mp hn
  exact (Path.moves_of_fileName hp).1

theorem transformPending_filling (t : Transformer σ) (fuel : Nat) {pending : List DirPair}
    (hfs : fs.Plain top) (hpending : Inside fs top pending) :
    Filling fs top (transformPending t fuel pending) fun _ _ => True := by
  induction fuel generalizing fs pending with
  | zero => exact Filling.pure hfs trivial
  | succ fuel ih =>
    cases pending with
    | nil => exact Filling.pure hfs trivial
    | cons d pending =>
      unfold Inside at hpending
      rw [List.forall_mem_cons] at hpending
      refine (transformOne_filling t hfs hpending.1).bind fun below fs' hfills hbelow => ?_
      have hrest : Inside fs top pending := hpending.2
      exact ih hfills.plain (hbelow.append (hrest.fills hfills))

end Directory

section Run

open Places (Apart Foreseen)

variable {s : TransformState σ} {input output : Path} {force : Bool} {li l : Location}

def Spared (li : Location) (s s' : TransformState σ) : Prop :=
  ∀ l, li <+: l → s'.files.entryAt l = s.files.entryAt l

theorem Spared.of_files {s' : TransformState σ} (h : s'.files = s.files) : Spared li s s' := by
  intro l _
  rw [h]

theorem Spared.trans {s' s'' : TransformState σ} (h : Spared li s s') (h' : Spared li s' s'') :
    Spared li s s'' := fun l hl => (h' l hl).trans (h l hl)

theorem spared_of_filling {m : TransformStep σ α} {k : Location}
    (hfresh : Places.Fresh s.files li top k) (h : Filling s.files top m fun _ _ => True) :
    Spared li s (m s).value.2 := by
  intro l hl
  refine (h s rfl).1.outside l fun htop => ?_
  rcases List.prefix_or_prefix_of_prefix htop hl with hsub | hsub
  · exact hfresh.apart hsub
  · exact hfresh.outside (hsub.trans hfresh.below)

theorem plain_of_fresh {k : Location} (hfs : fs.Sound) (hfresh : Places.Fresh fs li top k) :
    fs.Plain top := by
  refine ⟨hfs, fun j t hj ht => ?_⟩
  have hdir := hfresh.bare j _ hj ht
  cases hdir

theorem mirror_filling (t : Transformer σ) (fuel : Nat) {k : Location} (hfs : fs.Sound)
    (hout : fs.find true output = .ok (k, .directory)) (hfresh : Places.Fresh fs li top k) :
    Filling fs top (transformPending t fuel [⟨input, output⟩]) fun _ _ => True := by
  have hfits := FileSystem.fits_of_resolve (FileSystem.find_eq_ok.mp hout).1
  refine transformPending_filling t fuel (plain_of_fresh hfs hfresh) fun d hd => ?_
  rw [List.mem_singleton.mp hd]
  exact ⟨hfits.1, k, hfresh.below, (hfs.find_iff_leads hfits).mp hout⟩

/-- However a transformation ends, nothing at or below its input directory has been changed, taken
away or made. -/
theorem transformDirectory_spared (t : Transformer σ) (hfs : s.files.Sound)
    (hin : s.files.find true input = .ok (li, .directory)) (hshort : s.files.Short input)
    (hforeseen : Places.requireOutside s.files output input = .ok () →
      Foreseen s.files output force li ∧ Apart s.files output force li) :
    Spared li s (transformDirectory t input output force s).value.2 := by
  have htrans : ∀ s s' s'' : TransformState σ, Spared li s s' → Spared li s' s'' → Spared li s s'' :=
    fun _ _ _ h h' => h.trans h'
  unfold transformDirectory
  refine Action.bind_related htrans (.of_files rfl) fun fs s' h => ?_
  obtain ⟨rfl, rfl⟩ : s.files = fs ∧ s = s' := by
    cases h
    exact ⟨rfl, rfl⟩
  refine Action.bind_related htrans (.of_files (TransformStep.quiet_ofExcept _ s)) fun _ s' h => ?_
  obtain ⟨-, rfl⟩ := Action.ofExcept_eq_ok.mp h
  refine Action.bind_related htrans (.of_files (TransformStep.quiet_ofExcept _ s')) fun _ s h => ?_
  obtain ⟨hcheck, rfl⟩ := Action.ofExcept_eq_ok.mp h
  obtain ⟨hforeseen, hapart⟩ := hforeseen hcheck
  cases hmade : Places.makeEmptyDirectory s.files output force with
  | mk r fs₁ =>
    have hout := Places.makeEmptyDirectory_outcome hfs hin hshort hcheck hforeseen hapart hmade
    have hvalue : (TransformStep.changeInPart (fun fs => Places.makeEmptyDirectory fs output force)
        s).value = (r, { s with files := fs₁ }) := by
      show ((Places.makeEmptyDirectory s.files output force).1,
        { s with files := (Places.makeEmptyDirectory s.files output force).2 }) = _
      rw [hmade]
    refine Action.bind_related htrans (fun l hl => ?_) fun _ s' h => ?_
    · rw [hvalue]
      exact hout.frame l hl
    · rw [hvalue] at h
      cases h
      obtain ⟨top, k, hfind, hfresh⟩ := hout.fresh rfl
      have hplain := plain_of_fresh hout.sound hfresh
      refine spared_of_filling hfresh ?_
      refine Filling.quiet_bind hplain (TransformStep.quiet_countWith _) fun _ => ?_
      refine (mirror_filling t _ hout.sound hfind hfresh).bind fun _ fs' hfills _ => ?_
      refine (Filling.of_quiet hfills.plain ?_).imp fun _ _ _ _ => trivial
      refine TransformStep.quiet_stats.bind fun stats => ?_
      exact (TransformStep.quiet_say _ _).bind fun _ => TransformStep.quiet_pure _

end Run

def copying : Transformer Unit := ⟨[], .passthrough, 0⟩

theorem transformDirectory_spared_neighbours :
    Spared [Utf8.encode "in"] ⟨Places.neighbours, .zero, (), .clear⟩
      (transformDirectory copying (.ofString "in") (.ofString "in/../out") true
        ⟨Places.neighbours, .zero, (), .clear⟩).value.2 := by
  have happart : Places.Apart Places.neighbours (.ofString "in/../out") true [Utf8.encode "in"] := by
    intro _ _ l e h
    cases Places.find_neighbours.2.symm.trans h
    decide
  exact transformDirectory_spared copying Places.sound_neighbours Places.find_neighbours.1
    Places.short_neighbours.1 fun _ => ⟨Places.foreseen_neighbours, happart⟩

/-- Where the output goes up from what is missing, it is made inside the input, even if the run is
stopped before it has seen a file. -/
theorem transformDirectory_inside :
    Places.neighbours.find true (.ofString "in") = .ok ([Utf8.encode "in"], .directory) ∧
      Places.neighbours.entryAt [Utf8.encode "in", Utf8.encode "out"] = none ∧
      (transformDirectory copying (.ofString "in") (.ofString "new/../in/out") false
        ⟨Places.neighbours, .zero, (), .trigger .clear⟩).value.2.files.entryAt
          [Utf8.encode "in", Utf8.encode "out"] = some .directory := by
  refine ⟨Places.find_neighbours.1, ?_, ?_⟩ <;> cbv

example : (transformDirectory copying (.ofString "out/in") (.ofString "out") true
    ⟨⟨[([Utf8.encode "out"], .directory), ([Utf8.encode "out", Utf8.encode "in"], .directory)], []⟩,
      .zero, (), .clear⟩).value.2.files.entryAt [Utf8.encode "out", Utf8.encode "in"] = none := by
  cbv

end Transformer
end FunctionPairs
