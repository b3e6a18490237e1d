import FunctionPairs.Proofs.Places.Extent
import FunctionPairs.Proofs.Transformation.Visits

/-!
A whole run, visit after visit. The worklist of directories goes through the tree in the order of
the tour, whatever the visits do to the output, and stops at the first entry whose visit fails.
-/
namespace FunctionPairs.Transformer

open FileSystem (Fills Fits Plain)

variable {σ : Type}

structure Outside (fs : FileSystem) (d : DirPair) (li lo : Location) : Prop where
  sound : fs.Sound
  distinct : fs.Distinct
  source : fs.find true d.source = .ok (li, .directory)
  dest : fs.find true d.dest = .ok (lo, .directory)
  outside : ¬ li <+: lo

section Trail

variable (t : Transformer σ) (fs : FileSystem) (d : DirPair) (li lo : Location)

inductive Trail : TransformState σ → List Visit → TransformState σ → Prop
  | nil (s : TransformState σ) : Trail s [] s
  | cons {s s₁ s' : TransformState σ} {v : Visit} {vs : List Visit}
      (first : Visited t d li lo s v s₁) (rest : Trail s₁ vs s') : Trail s (v :: vs) s'

/-- What going through some entries of the tree comes to: all are visited, or all up to one whose
visit fails. What was not there when the run began may be met between them. -/
inductive Course {α : Type} (s : TransformState σ) (spots : List Spot) :
    Except Failure α → TransformState σ → Prop
  | finished {visits : List Visit} {s' : TransformState σ} {a : α}
      (trail : Trail t d li lo s visits s')
      (hspots : spots = (visits.map Visit.spot).filter (fs.holds li)) : Course s spots (.ok a) s'
  | stopped {visits : List Visit} {s₁ s' : TransformState σ} {p : Spot} {rest : List Spot}
      {e : Failure} (trail : Trail t d li lo s visits s₁)
      (hthere : s₁.files.entryAt (li ++ p.names) ≠ none)
      (hspots : spots = (visits.map Visit.spot ++ [p]).filter (fs.holds li) ++ rest)
      (hstop : Stopped t d li s₁ p e s') : Course s spots (.error e) s'

variable {t fs d li lo} {s s₁ s' : TransformState σ} {v : Visit} {vs vs' : List Visit}
  {spots spots' : List Spot} {α β : Type} {a : α} {e : Failure}

theorem Trail.append (h : Trail t d li lo s vs s₁) (h' : Trail t d li lo s₁ vs' s') :
    Trail t d li lo s (vs ++ vs') s' := by
  induction h with
  | nil s => exact h'
  | cons first rest ih => exact .cons first (ih h')

theorem Trail.lasts (h : Trail t d li lo s vs s') (hs : s.files.Sound) :
    s.files.Lasts s'.files := by
  induction h with
  | nil s => exact .refl hs
  | cons first rest ih => exact first.laid.lasts.trans (ih first.laid.lasts.sound)

theorem Course.nil : Course t fs d li lo s [] (.ok a) s := .finished (.nil s) rfl

theorem Course.cons {r : Except Failure α} (h : Visited t d li lo s v s₁)
    (h' : Course t fs d li lo s₁ spots r s') :
    Course t fs d li lo s ([v.spot].filter (fs.holds li) ++ spots) r s' := by
  cases h' with
  | finished trail hspots =>
    refine .finished (.cons h trail) ?_
    rw [hspots, ← List.filter_append]
    rfl
  | @stopped vs _ _ p rest _ trail hthere hspots hstop =>
    have hall : [v.spot].filter (fs.holds li) ++ spots =
        ((v :: vs).map Visit.spot ++ [p]).filter (fs.holds li) ++ rest := by
      rw [hspots, ← List.append_assoc, ← List.filter_append]
      rfl
    exact .stopped (.cons h trail) hthere hall hstop

theorem Course.append {r : Except Failure β} (h : Course t fs d li lo s spots (.ok a) s₁)
    (h' : Course t fs d li lo s₁ spots' r s') : Course t fs d li lo s (spots ++ spots') r s' := by
  cases h with
  | @finished vs _ _ trail hspots =>
    cases h' with
    | finished trail' hspots' =>
      refine .finished (trail.append trail') ?_
      rw [hspots, hspots', List.map_append, List.filter_append]
    | @stopped vs' _ _ p rest _ trail' hthere hspots' hstop =>
      have hall : spots ++ spots' =
          ((vs ++ vs').map Visit.spot ++ [p]).filter (fs.holds li) ++ rest := by
        rw [hspots, hspots', ← List.append_assoc, ← List.filter_append, ← List.append_assoc,
          ← List.map_append]
      exact .stopped (trail.append trail') hthere hall hstop

theorem Course.of_ok {b : β} (h : Course t fs d li lo s spots (.ok a) s') :
    Course t fs d li lo s spots (.ok b) s' := by
  cases h with
  | finished trail hspots => exact .finished trail hspots

theorem Course.of_error (h : Course t fs d li lo s spots (.error e : Except Failure α) s')
    (more : List Spot) : Course t fs d li lo s (spots ++ more) (.error e : Except Failure β) s' := by
  cases h with
  | stopped trail hthere hspots hstop =>
    exact .stopped trail hthere (by rw [hspots, List.append_assoc]) hstop

theorem Course.lasts {r : Except Failure α} (h : Course t fs d li lo s spots r s')
    (hs : s.files.Sound) : s.files.Lasts s'.files := by
  cases h with
  | finished trail hspots => exact trail.lasts hs
  | stopped trail hthere hspots hstop =>
    rw [hstop.files]
    exact trail.lasts hs

end Trail

section Run

variable {t : Transformer σ} {fs : FileSystem} {d : DirPair} {li lo : Location}
  {s s' : TransformState σ} {r : List Name}

structure Intact (fs : FileSystem) (li : Location) (s : TransformState σ) : Prop where
  lasts : fs.Lasts s.files
  directories : ∀ r, s.files.entryAt (li ++ r) = some .directory →
    fs.entryAt (li ++ r) = some .directory

theorem Intact.isDirectoryAt (h : Intact fs li s) (r : List Name) :
    s.files.isDirectoryAt (li ++ r) = fs.isDirectoryAt (li ++ r) := by
  rw [Bool.eq_iff_iff, FileSystem.isDirectoryAt_iff, FileSystem.isDirectoryAt_iff]
  exact ⟨h.directories r, fun hdir => h.lasts.keeps _ _ hdir rfl⟩

structure Ready (fs : FileSystem) (d : DirPair) (li lo : Location) (s : TransformState σ)
    (r : List Name) : Prop where
  there : fs.entryAt (li ++ r) = some .directory
  fits : Fits (d.source.descend r)
  mirrored : s.files.entryAt (lo ++ r) = some .directory
  fresh : ∀ q, q ≠ [] → q <+: r → fs.entryAt (lo ++ q) = none

theorem Ready.lasts (h : Ready fs d li lo s r) (hlasts : s.files.Lasts s'.files) :
    Ready fs d li lo s' r :=
  ⟨h.there, h.fits, hlasts.keeps _ _ h.mirrored rfl, h.fresh⟩

namespace Outside

variable (ho : Outside fs d li lo)

include ho

theorem source_leads {fs' : FileSystem} (h : fs.Lasts fs')
    (hdir : fs.entryAt (li ++ r) = some .directory) :
    (d.source.descend r).isEmpty = false ∧ fs'.Leads (d.source.descend r) (li ++ r) := by
  obtain ⟨hresolve, -⟩ := FileSystem.find_eq_ok.mp ho.source
  have hfits := FileSystem.fits_of_resolve hresolve
  have hleads := (ho.sound.find_iff_leads hfits).mp ho.source
  refine ⟨Path.isEmpty_descend hfits.1 (ho.sound.moves_of_append hdir), ?_⟩
  exact (hleads.keeps h.keeps h.working).descend h.sound hfits.1 (h.keeps _ _ hdir rfl)

theorem dest_leads {fs' : FileSystem} (h : fs.Lasts fs')
    (hdir : fs'.entryAt (lo ++ r) = some .directory) :
    (d.dest.descend r).isEmpty = false ∧ fs'.Leads (d.dest.descend r) (lo ++ r) := by
  obtain ⟨hresolve, -⟩ := FileSystem.find_eq_ok.mp ho.dest
  have hfits := FileSystem.fits_of_resolve hresolve
  have hleads := (ho.sound.find_iff_leads hfits).mp ho.dest
  exact ⟨Path.isEmpty_descend hfits.1 (h.sound.moves_of_append hdir),
    (hleads.keeps h.keeps h.working).descend h.sound hfits.1 hdir⟩

theorem paired (h : Intact fs li s) (hr : Ready fs d li lo s r) : Paired d li lo s r := by
  obtain ⟨hsource, hsourceLeads⟩ := ho.source_leads h.lasts hr.there
  obtain ⟨hdest, hdestLeads⟩ := ho.dest_leads h.lasts hr.mirrored
  exact ⟨h.lasts.sound, hsource, hsourceLeads, hdest, hdestLeads⟩

theorem intact (hs : s.files = fs) : Intact fs li s := by
  rw [← hs] at ho ⊢
  exact ⟨.refl ho.sound, fun _ => id⟩

theorem ready (hs : s.files = fs) : Ready fs d li lo s [] := by
  obtain ⟨hresolve, hdir⟩ := FileSystem.find_eq_ok.mp ho.source
  refine ⟨?_, FileSystem.fits_of_resolve hresolve, ?_, fun q hq hnil => ?_⟩
  · rwa [List.append_nil]
  · rw [hs, List.append_nil, (FileSystem.find_eq_ok.mp ho.dest).2]
  · exact absurd (List.prefix_nil.mp hnil) hq

/-- A directory that the run makes lies not in the input: the one at the top of the input was there
before, and none above it has been made by the run. -/
theorem not_made_inside {p : Spot} (h : Intact fs li s) (hr : Ready fs d li lo s p.above)
    (hfree : s.files.entryAt (lo ++ p.names) = none) : ¬ li <+: lo ++ p.names := by
  intro hinside
  have htop := (FileSystem.find_eq_ok.mp ho.source).2
  obtain ⟨q, rfl⟩ := (List.prefix_or_prefix_of_prefix hinside
    (List.prefix_append lo p.names)).resolve_left ho.outside
  have hnot : fs.entryAt (lo ++ q) ≠ none := by simp [htop]
  -- the top of the input is the new directory itself, or one above it that the run has made before
  rcases List.prefix_concat_iff.mp ((List.prefix_append_right_inj lo).mp hinside) with rfl | habove
  · exact h.lasts.there _ hnot hfree
  · refine hnot (hr.fresh q ?_ habove)
    rintro rfl
    exact ho.outside (by simp)

theorem intact_of_visited {v : Visit} (h : Intact fs li s) (hr : Ready fs d li lo s v.spot.above)
    (hv : Visited t d li lo s v s') : Intact fs li s' := by
  refine ⟨h.lasts.trans hv.laid.lasts, fun r hdir => ?_⟩
  rcases hv.laid.directories _ hdir with hold | ⟨hmade, hplace⟩
  · exact h.directories r hold
  · have hdue := hv.due
    rw [hmade] at hdue
    cases hdue with
    | made _ hfree => exact absurd ⟨r, hplace⟩ (ho.not_made_inside h hr hfree)

end Outside

variable (ho : Outside fs d li lo)

include ho

theorem transformEntry_course {p : Spot} (hi : Intact fs li s) (hr : Ready fs d li lo s p.above)
    (hp : s.files.entryAt (li ++ p.names) ≠ none) {res : Except Failure (Option DirPair)}
    (h : (transformEntry t (d.descend p.above) p.name s).value = (res, s')) :
    (∃ a deed, res = .ok a ∧ Visited t d li lo s ⟨p, deed⟩ s' ∧ Intact fs li s' ∧
        a = (if fs.isDirectoryAt (li ++ p.names) then some (d.descend p.names) else none) ∧
        (fs.isDirectoryAt (li ++ p.names) = true → Ready fs d li lo s' p.names)) ∨
      ∃ e, res = .error e ∧ Stopped t d li s p e s' := by
  have hname : p.name.Proper := by
    obtain ⟨e, he⟩ := Option.ne_none_iff_exists'.mp hp
    rw [← append_names] at he
    exact hi.lasts.sound.proper _ _ e he
  rcases transformEntry_visit (ho.paired hi hr) hname h with ⟨deed, hv, hres⟩ | hstop
  · refine .inl ?_
    have hi' := ho.intact_of_visited hi hr hv
    rw [hi.isDirectoryAt] at hres
    split_ifs at hres ⊢ with hdir
    · obtain ⟨rfl, hfits, hfree, hmirrored⟩ := hres
      refine ⟨_, deed, rfl, hv, hi', rfl, fun _ => ⟨FileSystem.isDirectoryAt_iff.mp hdir, hfits,
        hmirrored, fun q hq hqr => ?_⟩⟩
      rcases List.prefix_concat_iff.mp hqr with rfl | habove
      · by_contra hold
        exact hi.lasts.there _ hold hfree
      · exact hr.fresh q hq habove
    · exact ⟨_, deed, hres, hv, hi', rfl, fun h => absurd h hdir⟩
  · exact .inr hstop

theorem transformEntries_course {ns : List Name} (hi : Intact fs li s)
    (hr : Ready fs d li lo s r) (hns : ∀ n ∈ ns, s.files.entryAt (li ++ (r ++ [n])) ≠ none)
    {res : Except Failure (List DirPair)}
    (h : (transformEntries t (d.descend r) ns s).value = (res, s')) :
    Course t fs d li lo s ((ns.map (Spot.mk r)).filter (fs.holds li)) res s' ∧ Intact fs li s' ∧
      ∀ below, res = .ok below →
        below = ((ns.map (Spot.mk r)).filter fun p => fs.isDirectoryAt (li ++ p.names)).map
          (fun p => d.descend p.names) ∧
        ∀ p ∈ ns.map (Spot.mk r), fs.isDirectoryAt (li ++ p.names) = true →
          Ready fs d li lo s' p.names := by
  induction ns generalizing s res with
  | nil =>
    cases h
    refine ⟨.nil, hi, fun below hbelow => ?_⟩
    cases hbelow
    exact ⟨rfl, fun p hp => absurd hp List.not_mem_nil⟩
  | cons n ns ih =>
    rw [List.forall_mem_cons] at hns
    rw [transformEntries] at h
    rw [List.map_cons, ← List.singleton_append, List.filter_append]
    rcases Action.bind_cases h with ⟨e, hfirst, rfl⟩ | ⟨a, s₁, hfirst, hrest⟩
    · rcases transformEntry_course ho (p := ⟨r, n⟩) hi hr hns.1 hfirst with
        ⟨_, _, hok, -⟩ | ⟨e', he, hstop⟩
      · cases hok
      · cases he
        refine ⟨.stopped (p := ⟨r, n⟩) (.nil s) hns.1 rfl hstop,
          ⟨hstop.files ▸ hi.lasts, hstop.files ▸ hi.directories⟩, fun below hbelow => ?_⟩
        cases hbelow
    · rcases transformEntry_course ho (p := ⟨r, n⟩) hi hr hns.1 hfirst with
        ⟨a, deed, hok, hv, hi₁, ha, hready⟩ | ⟨e', he, -⟩
      · cases hok
        -- no visit takes anything away, so what is listed is there when its turn comes
        have hlasts := hv.laid.lasts
        have hothers := fun m hm => hlasts.there _ (hns.2 m hm)
        rcases Action.bind_cases hrest with ⟨e, hbehind, rfl⟩ | ⟨rest, s₂, hbehind, hpure⟩
        · obtain ⟨hcourse, hi', -⟩ := ih hi₁ (hr.lasts hlasts) hothers hbehind
          refine ⟨.cons hv (by simpa using hcourse.of_error []), hi', fun below hbelow => ?_⟩
          cases hbelow
        · cases hpure
          obtain ⟨hcourse, hi', hmore⟩ := ih hi₁ (hr.lasts hlasts) hothers hbehind
          obtain ⟨hrest, hreadies⟩ := hmore rest rfl
          refine ⟨.cons hv hcourse.of_ok, hi', fun below hbelow => ?_⟩
          cases hbelow
          refine ⟨?_, fun p hp hdir => ?_⟩
          · rw [hrest, ha, List.singleton_append, List.filter_cons]
            split_ifs <;> rfl
          · rcases List.mem_cons.mp hp with rfl | hp
            · exact (hready hdir).lasts (hcourse.lasts hi₁.lasts.sound)
            · exact hreadies p hp hdir
      · cases he

theorem transformOne_course (hi : Intact fs li s) (hr : Ready fs d li lo s r)
    {res : Except Failure (List DirPair)}
    (h : (transformOne t (d.descend r) s).value = (res, s')) :
    Course t fs d li lo s (fs.spotsIn li r) res s' ∧ Intact fs li s' ∧
      ∀ below, res = .ok below →
        below = (fs.directoriesIn li r).map d.descend ∧
        ∀ q ∈ fs.directoriesIn li r, Ready fs d li lo s' q := by
  have hsound := hi.lasts.sound
  have hleads := (ho.source_leads hi.lasts hr.there).2
  have hlist : s.files.list (d.descend r).source =
      .ok ((s.files.namesIn (li ++ r)).map (d.source.descend r).child) :=
    FileSystem.list_of_find ((hsound.find_iff_leads hr.fits).mpr hleads)
  unfold transformOne at h
  rw [value_bind_files, Action.value_bind_ofExcept (because_eq_ok.mpr hlist), hsound.fileNames] at h
  have hns : ∀ n ∈ s.files.namesIn (li ++ r), s.files.entryAt (li ++ (r ++ [n])) ≠ none := by
    intro n hn
    rw [← List.append_assoc]
    exact FileSystem.mem_namesIn.mp hn
  have hspots : ((s.files.namesIn (li ++ r)).map (Spot.mk r)).filter (fs.holds li) =
      fs.spotsIn li r :=
    FileSystem.filter_spots ho.distinct (hi.lasts.distinct ho.distinct) hi.lasts.there r
  obtain ⟨hcourse, hi', hmore⟩ := transformEntries_course ho hi hr hns h
  rw [hspots] at hcourse
  refine ⟨hcourse, hi', fun below hbelow => ?_⟩
  obtain ⟨rfl, hready⟩ := hmore below hbelow
  rw [← FileSystem.directoriesIn_eq hspots]
  refine ⟨?_, fun q hq => ?_⟩
  · rw [List.map_map]
    rfl
  · obtain ⟨p, hp, rfl⟩ := List.mem_map.mp hq
    obtain ⟨hp, hdir⟩ := List.mem_filter.mp hp
    exact hready p hp hdir

/-- The pending directories are gone through one after the other, each with all below it, as long
as the fuel is enough for all that is to be entered. -/
theorem transformPending_course (fuel : Nat) {rs : List (List Name)} (hi : Intact fs li s)
    (hrs : ∀ r ∈ rs, Ready fs d li lo s r) (hfuel : fs.entered li rs ≤ fuel)
    {res : Except Failure Unit}
    (h : (transformPending t fuel (rs.map d.descend) s).value = (res, s')) :
    Course t fs d li lo s (rs.flatMap (fs.tour li)) res s' ∧ Intact fs li s' := by
  -- entering a directory takes one from the fuel, and one from what is to be entered, because the
  -- directories in it were counted with it
  induction fuel generalizing s rs with
  | zero =>
    cases rs with
    | nil =>
      cases h
      exact ⟨.nil, hi⟩
    | cons r rs => simp [FileSystem.entered] at hfuel
  | succ fuel ih =>
    cases rs with
    | nil =>
      cases h
      exact ⟨.nil, hi⟩
    | cons r rs =>
      rw [List.forall_mem_cons] at hrs
      rw [FileSystem.entered_cons ho.sound] at hfuel
      rw [List.flatMap_cons, FileSystem.tour_eq ho.sound, List.append_assoc, List.map_cons] at *
      rw [transformPending] at h
      rcases Action.bind_cases h with ⟨e, hone, rfl⟩ | ⟨below, s₁, hone, hrest⟩
      · obtain ⟨hcourse, hi', -⟩ := transformOne_course ho hi hrs.1 hone
        exact ⟨hcourse.of_error _, hi'⟩
      · obtain ⟨hcourse, hi₁, hmore⟩ := transformOne_course ho hi hrs.1 hone
        obtain ⟨rfl, hready⟩ := hmore below rfl
        have hlasts := hcourse.lasts hi.lasts.sound
        have hbehind : Course t fs d li lo s₁
            ((fs.directoriesIn li r ++ rs).flatMap (fs.tour li)) res s' ∧ Intact fs li s' := by
          refine ih hi₁ (fun q hq => ?_) (Nat.le_of_succ_le_succ hfuel) ?_
          · rcases List.mem_append.mp hq with hq | hq
            · exact hready q hq
            · exact (hrs.2 q hq).lasts hlasts
          · rwa [List.map_append]
        rw [List.flatMap_append] at hbehind
        exact ⟨hcourse.append hbehind.1, hbehind.2⟩

end Run

/-! Where the input lies outside the output, too, and the output has no links, nothing that is put
into the output comes back as a part of the input. -/

structure Beside (fs : FileSystem) (d : DirPair) (li lo : Location) : Prop
    extends Outside fs d li lo where
  apart : ¬ lo <+: li
  bare : ∀ k t, lo <+: k → fs.entryAt k ≠ some (.link t)

section Beside

variable {t : Transformer σ} {fs : FileSystem} {d : DirPair} {li lo : Location}
  {s s' : TransformState σ} {v : Visit} {vs : List Visit}

theorem Outside.beside (h : Outside fs d li lo)
    (hempty : ∀ r, r ≠ [] → fs.entryAt (lo ++ r) = none) : Beside fs d li lo := by
  refine ⟨h, ?_, ?_⟩
  · rintro ⟨r, rfl⟩
    by_cases hr : r = []
    · exact h.outside (by simp [hr])
    · cases (hempty r hr).symm.trans (FileSystem.find_eq_ok.mp h.source).2
  · rintro k t ⟨r, rfl⟩ hlink
    by_cases hr : r = []
    · rw [hr, List.append_nil, (FileSystem.find_eq_ok.mp h.dest).2] at hlink
      cases hlink
    · cases (hempty r hr).symm.trans hlink

theorem Visited.fills (h : Visited t d li lo s v s') (hplain : s.files.Plain lo) :
    Fills lo s.files s'.files := (h.laid.plainly hplain).2

theorem Trail.fills (h : Trail t d li lo s vs s') (hplain : s.files.Plain lo) :
    Fills lo s.files s'.files := by
  induction h with
  | nil s => exact .refl hplain
  | cons first rest ih => exact (first.fills hplain).trans (ih (first.fills hplain).plain)

namespace Beside

variable (hb : Beside fs d li lo)

include hb

theorem plain : fs.Plain lo := ⟨hb.sound, hb.bare⟩

theorem not_below {r : List Name} : ¬ lo <+: li ++ r := by
  intro h
  rcases List.prefix_or_prefix_of_prefix h (List.prefix_append li r) with hsub | hsub
  · exact hb.apart hsub
  · exact hb.outside hsub

theorem entryAt_source (hm : Fills lo fs s.files) (r : List Name) :
    s.files.entryAt (li ++ r) = fs.entryAt (li ++ r) := hm.outside _ hb.not_below

theorem holds {p : Spot} (hm : Fills lo fs s.files) (h : s.files.entryAt (li ++ p.names) ≠ none) :
    fs.holds li p = true := by
  rwa [FileSystem.holds_iff, ← hb.entryAt_source hm]

theorem filter_visits (hm : Fills lo fs s.files) (h : Trail t d li lo s vs s') :
    (vs.map Visit.spot).filter (fs.holds li) = vs.map Visit.spot := by
  refine List.filter_eq_self.mpr fun p hp => ?_
  induction h with
  | nil s => cases hp
  | cons first rest ih =>
    rcases List.mem_cons.mp hp with rfl | hp
    · exact hb.holds hm first.due.there
    · exact ih (hm.trans (first.fills hm.plain)) hp

end Beside

end Beside

section Directory

variable {t : Transformer σ} {fs : FileSystem} {input output : Path} {force : Bool} {li lo : Location}
  {s s' : TransformState σ}

/-- A transformation that has passed its checks and made its output, outside the input. -/
structure Begun (s : TransformState σ) (input output : Path) (force : Bool) (fs : FileSystem)
    (li lo : Location) : Prop extends Outside fs ⟨input, output⟩ li lo where
  directory : Places.requireDirectory s.files input = .ok ()
  allowed : Places.requireOutside s.files output input = .ok ()
  made : Places.makeEmptyDirectory s.files output force = (.ok (), fs)

def entering (s : TransformState σ) (fs : FileSystem) : TransformState σ :=
  { s with files := fs, stats := .zero }

theorem Begun.entered_le (h : Begun s input output force fs li lo) :
    fs.entered li [[]] ≤ visitBound s.files := by
  obtain ⟨n, hn, hedited⟩ := Places.makeEmptyDirectory_edited s.files output force
  rw [h.made] at hedited
  have hentries : fs.entries.length ≤ s.files.entries.length + n := hedited.length_le
  have hbytes := (FileSystem.fits_of_resolve (FileSystem.find_eq_ok.mp h.dest).1).2
  have hancestors := Path.length_ancestors_le output
  have htour : (fs.tour li []).length ≤ fs.entries.length :=
    FileSystem.length_tour_le h.sound h.distinct []
  have hcount : (fs.tour li []).countP (fun p => fs.isDirectoryAt (li ++ p.names)) ≤
      (fs.tour li []).length := List.countP_le_length
  rw [FileSystem.entered, List.flatMap_singleton, List.length_singleton]
  unfold visitBound
  unfold FileSystem.maxPathLength at hbytes ⊢
  dsimp only at hbytes
  omega

theorem transformDirectory_course (h : Begun s input output force fs li lo)
    {res : Except Failure TransformStats}
    (hrun : (transformDirectory t input output force s).value = (res, s')) :
    Course t fs ⟨input, output⟩ li lo (entering s fs) (fs.tour li []) res s' ∧ Intact fs li s' ∧
      ∀ stats, res = .ok stats → stats = s'.stats := by
  have hmade : (TransformStep.changeInPart
      (fun fs => Places.makeEmptyDirectory fs output force) s).value =
        (.ok (), { s with files := fs }) := by
    show ((Places.makeEmptyDirectory s.files output force).1,
      { s with files := (Places.makeEmptyDirectory s.files output force).2 }) = _
    rw [h.made]
  unfold transformDirectory at hrun
  rw [value_bind_files, Action.value_bind_ofExcept h.directory, Action.value_bind_ofExcept h.allowed,
    Action.value_bind_of_ok hmade, Action.value_bind_of_ok rfl] at hrun
  have hpending : ∀ {res s'}, (transformPending t (visitBound s.files) [⟨input, output⟩]
      (entering s fs)).value = (res, s') →
        Course t fs ⟨input, output⟩ li lo (entering s fs) (fs.tour li []) res s' ∧
          Intact fs li s' := by
    intro res s' hpending
    have ho := h.toOutside
    have hcourse := transformPending_course ho (visitBound s.files) (ho.intact rfl)
      (List.forall_mem_singleton.mpr (ho.ready rfl)) h.entered_le hpending
    rwa [List.flatMap_singleton] at hcourse
  rcases Action.bind_cases hrun with ⟨e, hfailed, rfl⟩ | ⟨_, s₁, hdone, hrest⟩
  · obtain ⟨hcourse, hi⟩ := hpending hfailed
    refine ⟨?_, hi, nofun⟩
    simpa using hcourse.of_error []
  · cases hrest
    obtain ⟨hcourse, hi⟩ := hpending hdone
    refine ⟨hcourse.of_ok, ⟨hi.lasts, hi.directories⟩, fun stats hstats => ?_⟩
    cases hstats
    rfl

/-- A directory with a file to transform in it, beside one that has its name afterwards, and with
another below. -/
def layered : FileSystem :=
  ⟨[([Utf8.encode "in"], .directory),
    ([Utf8.encode "in", Utf8.encode "f.c"], .file (Utf8.encode "old") false),
    ([Utf8.encode "in", Utf8.encode "f.o.c"], .file commented false),
    ([Utf8.encode "in", Utf8.encode "sub"], .directory),
    ([Utf8.encode "in", Utf8.encode "sub", Utf8.encode "g.o.c"], .file commented false)], []⟩

theorem outside_layered :
    Outside (layered.put [Utf8.encode "out"] .directory) ⟨.ofString "in", .ofString "out"⟩
      [Utf8.encode "in"] [Utf8.encode "out"] where
  sound := by
    refine FileSystem.sound_of_entries ?_ rfl
    unfold layered FileSystem.put
    decide
  distinct := by
    show List.Nodup _
    decide
  source := by cbv
  dest := by cbv
  outside := by decide

theorem begun_layered (hfiles : s.files = layered) :
    Begun s (.ofString "in") (.ofString "out") false (layered.put [Utf8.encode "out"] .directory)
      [Utf8.encode "in"] [Utf8.encode "out"] := by
  refine ⟨outside_layered, ?_, ?_, ?_⟩
  · rw [hfiles]
    cbv
  · rw [hfiles]
    cbv
  · rw [hfiles]
    cbv

theorem empty_layered {r : List Name} (hr : r ≠ []) :
    (layered.put [Utf8.encode "out"] .directory).entryAt ([Utf8.encode "out"] ++ r) = none := by
  have hentries : ∀ x ∈ (layered.put [Utf8.encode "out"] .directory).entries,
      [Utf8.encode "out"].isPrefixOf x.1 = true → x.1 = [Utf8.encode "out"] := by
    unfold layered FileSystem.put
    decide
  by_contra hne
  obtain ⟨e, he⟩ := Option.ne_none_iff_exists'.mp hne
  have hsame := hentries _ (FileSystem.mem_entries (by simp) he) (by simp)
  exact hr (by simpa using hsame)

end Directory

end FunctionPairs.Transformer
