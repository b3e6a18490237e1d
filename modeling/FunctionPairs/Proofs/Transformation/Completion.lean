import FunctionPairs.Proofs.Transformation.Beginning
import FunctionPairs.Proofs.Transformation.Underway
import FunctionPairs.Proofs.Transformation.Willing

/-!
Whether a run gets to its end. Where the input can be read, the output can be made, the translator
answers and nobody interrupts, only one thing can stop a run: the name that a rewritten file gets is
too long, or a directory of the input has it already.
-/
namespace FunctionPairs.Transformer

open FileSystem (Fills Fits)

variable {σ : Type} {t : Transformer σ} {fs : FileSystem} {d : DirPair} {li lo : Location}
  {s s₁ : TransformState σ} {vs : List Visit} {p : Spot} {rest : List Spot}

def taskAt? (t : Transformer σ) (fs : FileSystem) (li : Location) (p : Spot) : Option Task :=
  match fs.entryAt (li ++ p.names) with
  | some (.file contents _) => t.task? p.name contents
  | _ => none

def upToCap {α : Type} (maxCount : Nat) (xs : List α) : List α :=
  if maxCount = 0 then xs else xs.take maxCount

def planned (t : Transformer σ) (fs : FileSystem) (li : Location) : List Spot :=
  upToCap t.maxCount ((fs.tour li []).filter fun p => (t.taskAt? fs li p).isSome)

/-- Why a file of the input cannot be written under its new name, told as the run tells it. -/
def obstacle? (t : Transformer σ) (fs : FileSystem) (li : Location) (output : Path) (p : Spot) :
    Option Failure :=
  (t.taskAt? fs li p).bind fun k =>
    (fs.hindrance? (li ++ p.above) (output.descend p.above) k.target).map fun cause =>
      .ofSystem s!"Failed to write {((output.descend p.above).child k.target).display}" cause

def failure? {α : Type} : Except Failure α → Option Failure
  | .ok _ => none
  | .error e => some e

theorem exists_upToCap_append {α : Type} {maxCount : Nat} {xs : List α} (x : α) (ys : List α)
    (hroom : maxCount = 0 ∨ (upToCap maxCount xs).length < maxCount) :
    ∃ behind, upToCap maxCount (xs ++ x :: ys) = upToCap maxCount xs ++ x :: behind := by
  unfold upToCap at hroom ⊢
  split_ifs at hroom ⊢ with hcap
  · exact ⟨ys, rfl⟩
  · have hall : xs.length < maxCount := by
      have hlength := hroom.resolve_left hcap
      rw [List.length_take] at hlength
      omega
    obtain ⟨more, rfl⟩ := Nat.exists_eq_add_of_lt hall
    refine ⟨ys.take more, ?_⟩
    rw [Nat.add_assoc, List.take_length_add_append, List.take_succ_cons,
      List.take_of_length_le (Nat.le_add_right _ _)]

/-- A tree of directories and files, none of whose paths is too long. -/
structure Readable (fs : FileSystem) (p : Path) (l : Location) : Prop where
  found : fs.find true p = .ok (l, .directory)
  short : fs.Short p
  bare : ∀ r target, fs.entryAt (l ++ r) ≠ some (.link target)
  fits : ∀ r, fs.entryAt (l ++ r) ≠ none → Fits (p.descend r)

structure Undisturbed (t : Transformer σ) (fs : FileSystem) (d : DirPair) (li : Location)
    (s : TransformState σ) : Prop where
  willing : t.translator.Willing
  clear : s.interrupt = .clear
  bare : ∀ r target, fs.entryAt (li ++ r) ≠ some (.link target)
  fits : ∀ r, fs.entryAt (li ++ r) ≠ none → Fits (d.source.descend r) ∧ Fits (d.dest.descend r)

theorem Beside.find_file (hb : Beside fs d li lo) (hfits : Fits (d.source.descend p.names))
    {contents : Bytes} {x : Bool} (hfile : fs.entryAt (li ++ p.names) = some (.file contents x)) :
    fs.find true (d.source.descend p.names) = .ok (li ++ p.names, .file contents x) := by
  rw [← append_names] at hfile ⊢
  rw [← child_descend] at hfits ⊢
  obtain ⟨hnonempty, hleads⟩ :=
    hb.source_leads (.refl hb.sound) (hb.sound.parents _ _ _ hfile)
  exact FileSystem.find_child hleads hnonempty (hb.sound.proper _ _ _ hfile) hfits hfile nofun

section Next

variable (h : Underway t fs d li lo s vs s₁ (p :: rest))

include h

namespace Underway

theorem next_fits (hu : Undisturbed t fs d li s) :
    Fits ((d.source.descend p.above).child p.name) ∧
      Fits ((d.dest.descend p.above).child p.name) := by
  rw [child_descend, child_descend]
  exact hu.fits _ h.next_there

theorem next_stat (hu : Undisturbed t fs d li s) {e : Entry}
    (he : fs.entryAt (li ++ p.names) = some e) :
    s₁.files.linkEntry (d.source.descend p.names) = .ok e := by
  rw [← h.entryAt_source h.fills, ← append_names] at he
  rw [← child_descend]
  exact FileSystem.linkEntry_of_entryAt h.next_paired.source_leads h.next_paired.source_nonempty
    h.next_proper (h.next_fits hu).1 he

theorem transformEntry_makes (hu : Undisturbed t fs d li s)
    (hdir : fs.entryAt (li ++ p.names) = some .directory) :
    ∃ below s', (transformEntry t (d.descend p.above) p.name s₁).value = (.ok below, s') := by
  have hmade : s₁.files.createDirectory (d.dest.descend p.names) =
      .ok (s₁.files.put (lo ++ p.names) .directory) := by
    rw [← child_descend, ← append_names]
    refine FileSystem.createDirectory_child h.next_paired.dest_leads h.next_paired.dest_nonempty
      h.next_proper (h.next_fits hu).2 ?_
    rw [append_names]
    exact h.next_free
  obtain ⟨text, hvalue⟩ := transformEntry_directory (t := t) (h.next_stat hu hdir)
  rw [hvalue, Action.value_bind_of_ok ((change_eq_ok s₁).mpr ⟨_, hmade, rfl⟩)]
  exact ⟨_, _, rfl⟩

section File

variable {contents : Bytes} {x : Bool} (hu : Undisturbed t fs d li s)
  (hfile : fs.entryAt (li ++ p.names) = some (.file contents x))

include hu hfile

theorem next_find :
    s₁.files.find true (d.source.descend p.names) = .ok (li ++ p.names, .file contents x) :=
  h.fills.find (h.find_file (hu.fits _ h.next_there).1 hfile) fun _ => h.not_below

theorem next_read : s₁.files.read (d.source.descend p.names) = .ok contents :=
  FileSystem.read_eq_ok.mpr ⟨_, x, h.next_find hu hfile⟩

theorem transformEntry_of_file : (transformEntry t (d.descend p.above) p.name s₁).value =
    ((do
      transformFile t (d.source.descend p.names) p.name (d.dest.descend p.above)
      pure none) s₁).value := by
  have hisFile := FileSystem.isFile_iff.mpr ⟨_, contents, x, h.next_find hu hfile⟩
  have hclear := h.trail.calm hu.willing hu.clear
  rw [transformEntry_other (h.next_stat hu hfile) nofun, if_pos hisFile,
    Action.value_bind_of_ok (TransformStep.poll_of_clear hclear)]

theorem transformEntry_copies
    (hwhy : t.task? p.name contents = none ∨ isCapped t.maxCount s₁.stats = true) :
    ∃ below s', (transformEntry t (d.descend p.above) p.name s₁).value = (.ok below, s') := by
  have hfree : s₁.files.entryAt (lo ++ p.above ++ [p.name]) = none := by
    rw [append_names]
    exact h.next_free
  have hwritable := FileSystem.writable_child_of_unhindered h.next_paired.dest_leads
    h.next_paired.dest_nonempty h.next_proper.1 h.next_proper.2.2.1
    (fun target hlink => nomatch hfree.symm.trans hlink)
    (FileSystem.hindrance?_eq_none.mpr
      ⟨(h.next_fits hu).2.2, h.next_proper.2.2.2, fun hdir => nomatch hfree.symm.trans hdir⟩)
  have hcopy : ∃ fs', s₁.files.copy (d.source.descend p.names)
      ((d.dest.descend p.above).child p.name) = .ok fs' := by
    unfold FileSystem.copy FileSystem.entry
    rw [h.next_find hu hfile, hwritable]
    exact ⟨_, rfl⟩
  obtain ⟨fs', hcopy⟩ := hcopy
  obtain ⟨s', hcopied⟩ := copyFile_of_copy s₁ hcopy
  rw [← transformFile_copying (h.next_read hu hfile) hwhy] at hcopied
  rw [h.transformEntry_of_file hu hfile, Action.value_bind_of_ok hcopied]
  exact ⟨_, _, rfl⟩

section Rewriting

variable {k : Task} (htask : t.task? p.name contents = some k)
  (hroom : isCapped t.maxCount s₁.stats = false)

include htask hroom

theorem transformEntry_rewrites
    (hfree : fs.hindrance? (li ++ p.above) (d.dest.descend p.above) k.target = none) :
    ∃ below s', (transformEntry t (d.descend p.above) p.name s₁).value = (.ok below, s') := by
  obtain ⟨answers, final, hasked⟩ := hu.willing.exists_asked s₁.translator k.bodies
  rw [← h.next_hindrance _ (target_lt htask)] at hfree
  have hwritable := FileSystem.writable_child_of_unhindered h.next_paired.dest_leads
    h.next_paired.dest_nonempty (Task.moves_target htask h.next_proper.1)
    (sourceName_ne_up k.model.lang k.role k.text) (h.next_unlinked _) hfree
  obtain ⟨fs', hwrite⟩ := FileSystem.exists_write hwritable (k.output answers)
  obtain ⟨s', hwritten⟩ := writeUnits_of_asked (d.source.descend p.names) hasked hwrite
  rw [← transformFile_rewriting (h.next_read hu hfile) htask hroom] at hwritten
  rw [h.transformEntry_of_file hu hfile, Action.value_bind_of_ok hwritten]
  exact ⟨_, _, rfl⟩

theorem transformEntry_blocked {cause : SystemError}
    (hblocked : fs.hindrance? (li ++ p.above) (d.dest.descend p.above) k.target = some cause) :
    ∃ s', (transformEntry t (d.descend p.above) p.name s₁).value = (.error (.ofSystem
      s!"Failed to write {((d.dest.descend p.above).child k.target).display}" cause), s') := by
  obtain ⟨answers, final, hasked⟩ := hu.willing.exists_asked s₁.translator k.bodies
  rw [← h.next_hindrance _ (target_lt htask)] at hblocked
  have hwritable := FileSystem.writable_child_of_hindered h.next_paired.dest_leads
    h.next_paired.dest_nonempty (Task.moves_target htask h.next_proper.1)
    (sourceName_ne_up k.model.lang k.role k.text) (h.next_unlinked _) hblocked
  obtain ⟨s', hfailed⟩ := writeUnits_of_unwritable (d.source.descend p.names) hasked hwritable
  rw [← transformFile_rewriting (h.next_read hu hfile) htask hroom] at hfailed
  rw [h.transformEntry_of_file hu hfile, Action.value_bind_of_error hfailed]
  exact ⟨_, rfl⟩

end Rewriting

end File

theorem transformEntry_outcome (hu : Undisturbed t fs d li s) :
    (isCapped t.maxCount s₁.stats = true ∨ t.obstacle? fs li d.dest p = none) ∧
        (∃ below s', (transformEntry t (d.descend p.above) p.name s₁).value = (.ok below, s')) ∨
      isCapped t.maxCount s₁.stats = false ∧ ∃ e s', t.obstacle? fs li d.dest p = some e ∧
        (transformEntry t (d.descend p.above) p.name s₁).value = (.error e, s') := by
  obtain ⟨e, he⟩ := Option.ne_none_iff_exists'.mp h.next_there
  cases e with
  | link target => exact absurd he (hu.bare _ _)
  | directory =>
    have hnone : t.obstacle? fs li d.dest p = none := by simp [obstacle?, taskAt?, he]
    exact .inl ⟨.inr hnone, h.transformEntry_makes hu he⟩
  | file contents x =>
    cases hcap : isCapped t.maxCount s₁.stats with
    | true => exact .inl ⟨.inl rfl, h.transformEntry_copies hu he (.inr hcap)⟩
    | false =>
      cases htask : t.task? p.name contents with
      | none =>
        have hnone : t.obstacle? fs li d.dest p = none := by simp [obstacle?, taskAt?, he, htask]
        exact .inl ⟨.inr hnone, h.transformEntry_copies hu he (.inl htask)⟩
      | some k =>
        have hobstacle : t.taskAt? fs li p = some k := by simp [taskAt?, he, htask]
        rw [obstacle?, hobstacle, Option.bind_some]
        cases hhindrance : fs.hindrance? (li ++ p.above) (d.dest.descend p.above) k.target with
        | none => exact .inl ⟨.inr rfl, h.transformEntry_rewrites hu he htask hcap hhindrance⟩
        | some cause =>
          obtain ⟨s', hfailed⟩ := h.transformEntry_blocked hu he htask hcap hhindrance
          exact .inr ⟨rfl, _, s', rfl, hfailed⟩

theorem obstacle_of_stopped (hu : Undisturbed t fs d li s) {e : Failure} {s' : TransformState σ}
    (hstop : Stopped t d li s₁ p e s') :
    isCapped t.maxCount s₁.stats = false ∧ t.obstacle? fs li d.dest p = some e := by
  rcases h.transformEntry_outcome hu with ⟨-, below, s'', hok⟩ | ⟨hcap, e', s'', hobstacle, herror⟩
  · cases hstop.run.symm.trans hok
  · cases hstop.run.symm.trans herror
    exact ⟨hcap, hobstacle⟩

end Underway

end Next

section Chosen

variable (h : Underway t fs d li lo s vs s₁ rest) (hu : Undisturbed t fs d li s)

include h hu

namespace Underway

theorem contents_eq {v : Visit} (hv : v ∈ vs) {contents : Bytes} {x : Bool}
    (hfile : fs.entryAt (li ++ v.spot.names) = some (.file contents x)) :
    v.contents? = some contents := by
  have hfits := (hu.fits v.spot.names fun hnone => nomatch hnone.symm.trans hfile).1
  exact h.trail.contents h.toBeside (by rw [h.files]; exact .refl h.toBeside.plain) v hv _ _ _
    (h.find_file hfits hfile) h.not_below

theorem taskAt?_eq {v : Visit} (hv : v ∈ vs) :
    t.taskAt? fs li v.spot = v.contents?.bind (t.task? v.spot.name) := by
  have hthere := h.mem_tour.mp (List.mem_append_left rest (List.mem_map_of_mem hv))
  obtain ⟨e, he⟩ := Option.ne_none_iff_exists'.mp hthere
  cases e with
  | link target => exact absurd he (hu.bare _ _)
  | file contents x => simp [taskAt?, he, h.contents_eq hu hv he]
  | directory =>
    have hmade := h.made_iff v hv
    rw [FileSystem.isDirectoryAt_iff.mpr he] at hmade
    obtain ⟨p, deed⟩ := v
    cases deed with
    | made => simp [Visit.contents?, taskAt?, he]
    | _ => cases hmade

theorem rewritten_eq (hzero : s.stats = .zero) :
    (vs.filter Visit.isRewritten).map Visit.spot =
      upToCap t.maxCount ((vs.map Visit.spot).filter fun p => (t.taskAt? fs li p).isSome) := by
  have hable : (vs.filter t.able).map Visit.spot =
      (vs.map Visit.spot).filter fun p => (t.taskAt? fs li p).isSome := by
    rw [List.filter_map]
    exact congrArg _ (List.filter_congr fun v hv => congrArg _ (h.taskAt?_eq hu hv).symm)
  have hfirst : t.maxCount - s.stats.filesTransformed = t.maxCount := by rw [hzero]; rfl
  rw [h.trail.chosen, hfirst, ← hable, upToCap]
  split_ifs
  · rfl
  · exact List.map_take

theorem unobstructed {v : Visit} (hv : v ∈ vs) (hrewritten : v.isRewritten = true) :
    t.obstacle? fs li d.dest v.spot = none := by
  have htaskAt := h.taskAt?_eq hu hv
  have hfits := h.trail.fits_target v hv hrewritten
  have hanswered := h.trail.answered v hv
  obtain ⟨p, deed⟩ := v
  cases deed with
  | rewritten k answers x =>
    have htask := (hanswered k answers x rfl).task
    obtain ⟨hproper, hdir⟩ := h.rewritten_apart hv hrewritten rfl (target_lt htask)
    have hfree : fs.hindrance? (li ++ p.above) (d.dest.descend p.above) k.target = none := by
      rw [FileSystem.hindrance?_eq_none, ← Path.descend_concat, List.append_assoc]
      exact ⟨hfits.2, hproper.2.2.2, hdir⟩
    rw [obstacle?, htaskAt, Visit.contents?, Option.bind_some, htask, Option.bind_some, hfree]
    rfl
  | _ => cases hrewritten

theorem findSome?_rewritten : ((vs.filter Visit.isRewritten).map Visit.spot).findSome?
    (t.obstacle? fs li d.dest) = none := by
  rw [List.findSome?_eq_none_iff]
  intro q hq
  obtain ⟨v, hv, rfl⟩ := List.mem_map.mp hq
  obtain ⟨hv, hrewritten⟩ := List.mem_filter.mp hv
  exact h.unobstructed hu hv hrewritten

end Underway

end Chosen

section Next

variable (h : Underway t fs d li lo s vs s₁ (p :: rest)) (hu : Undisturbed t fs d li s)

include h hu

theorem Underway.findSome?_of_stopped (hzero : s.stats = .zero) {e : Failure}
    {s' : TransformState σ} (hstop : Stopped t d li s₁ p e s') :
    (t.planned fs li).findSome? (t.obstacle? fs li d.dest) = some e := by
  obtain ⟨hroom, hobstacle⟩ := h.obstacle_of_stopped hu hstop
  have hrewritten := h.rewritten_eq hu hzero
  have hable : (t.taskAt? fs li p).isSome = true := by
    cases htask : t.taskAt? fs li p with
    | none => simp [obstacle?, htask] at hobstacle
    | some k => rfl
  have hroom' : t.maxCount = 0 ∨
      ((vs.filter Visit.isRewritten).map Visit.spot).length < t.maxCount := by
    have hcount := h.trail.counted.1
    rw [hzero, List.countP_eq_length_filter] at hcount
    simp only [isCapped, Bool.and_eq_false_iff, decide_eq_false_iff_not, hcount] at hroom
    rw [List.length_map]
    simp only [TransformStats.zero] at hroom
    omega
  rw [hrewritten] at hroom'
  obtain ⟨behind, hplanned⟩ := exists_upToCap_append p
    (rest.filter fun p => (t.taskAt? fs li p).isSome) hroom'
  rw [planned, h.tour, List.filter_append, List.filter_cons_of_pos (by exact hable), hplanned,
    ← hrewritten, List.findSome?_append, h.findSome?_rewritten hu, Option.none_or,
    List.findSome?_cons, hobstacle]

end Next

section FromRoot

variable {entries : List (Location × Entry)}

theorem short_fromRoot (entries : List (Location × Entry)) :
    (⟨entries, []⟩ : FileSystem).Short (.ofString "in") ∧
      (⟨entries, []⟩ : FileSystem).Short (.ofString "out") := by
  have hin : (⟨entries, []⟩ : FileSystem).absolute (.ofString "in") = .ok (.ofString "/in") := by
    cbv
  have hout : (⟨entries, []⟩ : FileSystem).absolute (.ofString "out") = .ok (.ofString "/out") := by
    cbv
  refine ⟨⟨by decide, fun full h => ?_⟩, by decide, fun full h => ?_⟩
  · cases hin.symm.trans h
    decide
  · cases hout.symm.trans h
    decide

theorem absent_fromRoot
    (hnone : (⟨entries, []⟩ : FileSystem).entryAt [Utf8.encode "out"] = none) :
    (⟨entries, []⟩ : FileSystem).Absent (.ofString "out") [Utf8.encode "out"] where
  fits := ⟨by decide, by decide⟩
  named := by decide
  proper := by decide
  frontier := ⟨[], [], Utf8.encode "out", [], ⟨by cbv, ⟨_, .refl⟩, hnone, by decide⟩, rfl⟩

theorem readable_fromRoot
    (hfind : (⟨entries, []⟩ : FileSystem).find true (.ofString "in") =
      .ok ([Utf8.encode "in"], .directory))
    (hlinks : ∀ target, ∀ x ∈ entries, x.2 ≠ .link target)
    (hroom : ∀ x ∈ entries, Fits ((Path.ofString "in").descend x.1.tail) ∧
      Fits ((Path.ofString "out").descend x.1.tail)) :
    Readable ⟨entries, []⟩ (.ofString "in") [Utf8.encode "in"] ∧
      ∀ r, (⟨entries, []⟩ : FileSystem).entryAt ([Utf8.encode "in"] ++ r) ≠ none →
        Fits ((Path.ofString "out").descend r) := by
  have hmem : ∀ r e, (⟨entries, []⟩ : FileSystem).entryAt ([Utf8.encode "in"] ++ r) = some e →
      ([Utf8.encode "in"] ++ r, e) ∈ entries :=
    fun r e he => FileSystem.mem_entries (List.cons_ne_nil _ _) he
  have hfits : ∀ r, (⟨entries, []⟩ : FileSystem).entryAt ([Utf8.encode "in"] ++ r) ≠ none →
      Fits ((Path.ofString "in").descend r) ∧ Fits ((Path.ofString "out").descend r) := by
    intro r hr
    obtain ⟨e, he⟩ := Option.ne_none_iff_exists'.mp hr
    exact hroom _ (hmem r e he)
  exact ⟨⟨hfind, (short_fromRoot entries).1, fun r target h => hlinks target _ (hmem r _ h) rfl,
    fun r hr => (hfits r hr).1⟩, fun r hr => (hfits r hr).2⟩

theorem willing_doubling : doubling.translator.Willing where
  answers body _ := ⟨body ++ body, rfl⟩
  goes_on _ _ := rfl

end FromRoot

section Run

variable {input output : Path} {force : Bool}

theorem findSome?_of_run (hbegun : Begun s input output force fs li lo)
    (hempty : ∀ r, r ≠ [] → fs.entryAt (lo ++ r) = none)
    (hu : Undisturbed t fs ⟨input, output⟩ li (entering s fs)) {res : Except Failure TransformStats}
    {s' : TransformState σ} (hrun : (transformDirectory t input output force s).value = (res, s')) :
    (t.planned fs li).findSome? (t.obstacle? fs li output) = failure? res := by
  have hb := hbegun.beside hempty
  obtain ⟨hcourse, -⟩ := transformDirectory_course hbegun hrun
  cases hcourse with
  | @finished visits _ stats trail hspots =>
    rw [hb.filter_visits (.refl hb.plain) trail] at hspots
    have h : Underway t fs ⟨input, output⟩ li lo (entering s fs) visits s' [] :=
      ⟨hb, rfl, hempty, trail, by rw [hspots, List.append_nil]⟩
    rw [planned, hspots, ← h.rewritten_eq hu rfl]
    exact h.findSome?_rewritten hu
  | @stopped visits s₁ _ p behind e trail hthere hspots hstop =>
    have hp := hb.holds (trail.fills hb.plain) hthere
    rw [List.filter_append, hb.filter_visits (.refl hb.plain) trail, List.append_assoc,
      List.filter_cons_of_pos hp] at hspots
    have h : Underway t fs ⟨input, output⟩ li lo (entering s fs) visits s₁ (p :: behind) :=
      ⟨hb, rfl, hempty, trail, hspots⟩
    exact h.findSome?_of_stopped hu rfl hstop

section Same

variable {fs' : FileSystem} (hsame : ∀ r, fs'.entryAt (li ++ r) = fs.entryAt (li ++ r))

include hsame

theorem taskAt?_congr (p : Spot) : t.taskAt? fs' li p = t.taskAt? fs li p := by
  unfold taskAt?
  rw [hsame]

theorem obstacle?_congr : t.obstacle? fs' li output = t.obstacle? fs li output := by
  funext p
  unfold obstacle? FileSystem.hindrance? FileSystem.isDirectoryAt
  rw [taskAt?_congr hsame]
  simp only [List.append_assoc, hsame]

theorem planned_congr (hfs : fs.Sound) (hfs' : fs'.Sound) (h : fs.Distinct) (h' : fs'.Distinct) :
    t.planned fs' li = t.planned fs li := by
  unfold planned
  rw [FileSystem.tour_congr hfs hfs' h h' hsame]
  simp only [taskAt?_congr hsame]

end Same

/-- A run that reads a tree of directories and files, with an absent output outside it for which
there is room, with a translator that answers and without an interruption, succeeds exactly if no
file to be rewritten meets an obstacle: its new name is too long, or a directory of the input has it.
Where a file does, the run fails at the first such file, with what keeps it from being written. -/
theorem transformDirectory_completes (t : Transformer σ) (hwilling : t.translator.Willing)
    (hclear : s.interrupt = .clear) (hfs : s.files.Sound) (hdistinct : s.files.Distinct)
    (hinput : Readable s.files input li) (habsent : s.files.Absent output lo)
    (hshort : s.files.Short output) (hout : ¬ li <+: lo)
    (hroom : ∀ r, s.files.entryAt (li ++ r) ≠ none → Fits (output.descend r)) (force : Bool) :
    ((∃ stats s', (transformDirectory t input output force s).value = (.ok stats, s')) ↔
      ∀ p ∈ t.planned s.files li, t.obstacle? s.files li output p = none) ∧
    ∀ e s', (transformDirectory t input output force s).value = (.error e, s') →
      (t.planned s.files li).findSome? (t.obstacle? s.files li output) = some e := by
  obtain ⟨fs, hbegun, hempty, hsame⟩ := begun_of_absent hfs hdistinct hinput.found hinput.short
    habsent hshort hout force
  have hu : Undisturbed t fs ⟨input, output⟩ li (entering s fs) := by
    refine ⟨hwilling, hclear, fun r target => hsame r ▸ hinput.bare r target, fun r hr => ?_⟩
    rw [hsame] at hr
    exact ⟨hinput.fits r hr, hroom r hr⟩
  have hfirst : ∀ {res s'}, (transformDirectory t input output force s).value = (res, s') →
      (t.planned s.files li).findSome? (t.obstacle? s.files li output) = failure? res := by
    intro res s' hrun
    rw [← planned_congr hsame hfs hbegun.sound hdistinct hbegun.distinct, ← obstacle?_congr hsame]
    exact findSome?_of_run hbegun hempty hu hrun
  refine ⟨⟨fun ⟨stats, s', hrun⟩ => ?_, fun hnone => ?_⟩, fun e s' hrun => hfirst hrun⟩
  · exact List.findSome?_eq_none_iff.mp (hfirst hrun)
  · cases hrun : (transformDirectory t input output force s).value with
    | mk res s' =>
      cases res with
      | ok stats => exact ⟨stats, s', rfl⟩
      | error e => cases (hfirst hrun).symm.trans (List.findSome?_eq_none_iff.mpr hnone)

end Run

theorem transformDirectory_completes_layered :
    Readable layered (.ofString "in") [Utf8.encode "in"] ∧
      layered.Absent (.ofString "out") [Utf8.encode "out"] ∧
      (doubling.planned layered [Utf8.encode "in"]).map Spot.name =
        [Utf8.encode "f.o.c", Utf8.encode "g.o.c"] ∧
      ∃ stats s', (transformDirectory doubling (.ofString "in") (.ofString "out") false
        ⟨layered, .zero, [], .clear⟩).value = (.ok stats, s') := by
  have hsound : layered.Sound := by
    refine FileSystem.sound_of_entries ?_ rfl
    unfold layered
    decide
  have hdistinct : layered.Distinct := by
    show List.Nodup _
    decide
  obtain ⟨hreadable, hroom⟩ : Readable layered (.ofString "in") [Utf8.encode "in"] ∧
      ∀ r, layered.entryAt ([Utf8.encode "in"] ++ r) ≠ none →
        Fits ((Path.ofString "out").descend r) := by
    refine readable_fromRoot (by cbv) (by simp) ?_
    unfold Fits
    decide
  have habsent : layered.Absent (.ofString "out") [Utf8.encode "out"] := absent_fromRoot (by cbv)
  have hfree : (doubling.planned layered [Utf8.encode "in"]).findSome?
      (doubling.obstacle? layered [Utf8.encode "in"] (.ofString "out")) = none := by cbv
  refine ⟨hreadable, habsent, by cbv, ?_⟩
  exact (transformDirectory_completes doubling willing_doubling rfl hsound hdistinct hreadable habsent
    (short_fromRoot _).2 (by decide) hroom false).1.mpr (List.findSome?_eq_none_iff.mp hfree)

def blocked : FileSystem :=
  ⟨[([Utf8.encode "in"], .directory), ([Utf8.encode "in", Utf8.encode "f.c"], .directory),
    ([Utf8.encode "in", Utf8.encode "f.o.c"], .file commented false)], []⟩

/-- A tree of directories and files that can be read, an absent output outside it and a translator
that answers are not enough: the run fails where a directory of the input has the new name. -/
theorem transformDirectory_blocked :
    blocked.Sound ∧ blocked.Distinct ∧ Readable blocked (.ofString "in") [Utf8.encode "in"] ∧
      blocked.Absent (.ofString "out") [Utf8.encode "out"] ∧ blocked.Short (.ofString "out") ∧
      (∀ r, blocked.entryAt ([Utf8.encode "in"] ++ r) ≠ none →
        Fits ((Path.ofString "out").descend r)) ∧
      doubling.translator.Willing ∧
      (transformDirectory doubling (.ofString "in") (.ofString "out") false
        ⟨blocked, .zero, [], .clear⟩).value.1 =
          .error (.ofSystem "Failed to write out/f.c" .isDirectory) := by
  have hsound : blocked.Sound := by
    refine FileSystem.sound_of_entries ?_ rfl
    unfold blocked
    decide
  have hdistinct : blocked.Distinct := by
    show List.Nodup _
    decide
  obtain ⟨hreadable, hroom⟩ : Readable blocked (.ofString "in") [Utf8.encode "in"] ∧
      ∀ r, blocked.entryAt ([Utf8.encode "in"] ++ r) ≠ none →
        Fits ((Path.ofString "out").descend r) := by
    refine readable_fromRoot (by cbv) (by simp) ?_
    unfold Fits
    decide
  exact ⟨hsound, hdistinct, hreadable, absent_fromRoot (by cbv), (short_fromRoot _).2, hroom,
    willing_doubling, by cbv⟩

end FunctionPairs.Transformer
