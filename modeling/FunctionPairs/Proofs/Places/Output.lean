import Mathlib
import FunctionPairs.Proofs.Places.Resolution

-- The whole library, since the evaluation of fixed inputs unfolds functions on text from all of it.

/-!
The place of an output. If the check has found the output outside the input, the fresh directory
lies outside too: what the check spells is where the directories are made, provided that the
path goes up only from what exists and that clearing the output takes nothing away that the check
has gone by.
-/
namespace FunctionPairs.Places

open FileSystem (Built Fits Frontier Leads Removed RisesInside Short find_eq_ok)

variable {fs fs' : FileSystem} {p inner outer : Path} {lo l k : Location} {e : Entry}
  {force : Bool}

def cleared (fs : FileSystem) (p : Path) (force : Bool) : FileSystem :=
  if force && fs.contains p then (clear fs p).2 else fs

/-- The entry that clearing takes away has neither the working directory in it nor is it a link
inside the outer directory. If the outer directory goes with it, the path still spells the same
place. -/
structure Spares (fs : FileSystem) (p : Path) (lo l : Location) (e : Entry) : Prop where
  working : ¬ l <+: fs.working
  links : (∃ t, e = .link t) → ¬ lo <+: l
  steady : l <+: lo → resolve (clear fs p).2 p = resolve fs p

/-- What has to hold of a path for the check to tell where its directories are made. -/
structure Foreseen (fs : FileSystem) (p : Path) (force : Bool) (lo : Location) : Prop where
  short : fs.Short p
  rises : (cleared fs p force).RisesInside p
  spares : force = true → fs.contains p = true →
    ∀ l e, fs.find false p = .ok (l, e) → Spares fs p lo l e

def Apart (fs : FileSystem) (p : Path) (force : Bool) (lo : Location) : Prop :=
  force = true → fs.contains p = true → ∀ l e, fs.find false p = .ok (l, e) → ¬ l <+: lo

/-- The fresh directory at `l` is the end of a tree of directories that starts at `top`; neither
the one nor the other meets the outer directory. -/
structure Fresh (fs : FileSystem) (lo top l : Location) : Prop where
  exists_at : fs.entryAt l = some .directory
  below : top <+: l
  outside : ¬ lo <+: l
  apart : ¬ top <+: lo
  bare : ∀ k e, top <+: k → fs.entryAt k = some e → e = .directory

structure Outcome (fs : FileSystem) (p : Path) (lo : Location) (r : Except Failure Unit)
    (fs' : FileSystem) : Prop where
  sound : fs'.Sound
  working : fs'.working = fs.working
  frame : ∀ k, lo <+: k → fs'.entryAt k = fs.entryAt k
  fresh : r = .ok () → ∃ top l, fs'.find true p = .ok (l, .directory) ∧ Fresh fs' lo top l

theorem clear_removed (hfs : fs.Sound) {r : Except SystemError Unit} (h : clear fs p = (r, fs')) :
    (fs' = fs ∧ r ≠ .ok ()) ∨ ∃ l e, fs.find false p = .ok (l, e) ∧ Removed l e fs fs' := by
  unfold clear at h
  split_ifs at h with hdir
  · exact FileSystem.removeTree_removed hfs h
  · split at h
    · next fs₁ hfile =>
      cases h
      exact .inr (FileSystem.removeFile_removed hfile)
    · cases h
      exact .inl ⟨rfl, nofun⟩

theorem cleared_of_missing (h : fs.contains p = false) : cleared fs p force = fs := by
  simp [cleared, h]

theorem cleared_of_forced (hforce : force = true) (h : fs.contains p = true) :
    cleared fs p force = (clear fs p).2 := by
  simp [cleared, hforce, h]

theorem makeEmptyDirectory_cases (hfs : fs.Sound) {r : Except Failure Unit}
    (h : makeEmptyDirectory fs p force = (r, fs')) :
    (fs' = fs ∧ r ≠ .ok ()) ∨ (fs.contains p = false ∧ create fs p = (r, fs')) ∨
      force = true ∧ fs.contains p = true ∧ ∃ l e, fs.find false p = .ok (l, e) ∧
        Removed l e fs (cleared fs p force) ∧
        ((fs' = cleared fs p force ∧ r ≠ .ok ()) ∨ create (cleared fs p force) p = (r, fs')) := by
  unfold makeEmptyDirectory at h
  cases hin : fs.contains p with
  | false =>
    rw [hin, Bool.not_false, if_pos rfl] at h
    exact .inr (.inl ⟨rfl, h⟩)
  | true =>
    rw [hin, Bool.not_true, if_neg Bool.false_ne_true] at h
    cases force with
    | false =>
      cases h
      exact .inl ⟨rfl, nofun⟩
    | true =>
      rw [Bool.not_true, if_neg Bool.false_ne_true] at h
      rw [cleared_of_forced rfl hin]
      cases hc : clear fs p with
      | mk r₁ fs₁ =>
        rw [hc] at h
        rcases clear_removed hfs hc with ⟨rfl, hr₁⟩ | ⟨l, e, hfind, hremoved⟩
        · cases r₁ with
          | error e =>
            cases h
            exact .inl ⟨rfl, nofun⟩
          | ok u => exact absurd rfl hr₁
        · refine .inr (.inr ⟨rfl, rfl, l, e, hfind, hremoved, ?_⟩)
          cases r₁ with
          | error e =>
            cases h
            exact .inl ⟨rfl, nofun⟩
          | ok u => exact .inr h

theorem not_inside_of_requireOutside (hfs : fs.Sound) (ho : fs.find true outer = .ok (lo, .directory))
    (hoshort : fs.Short outer) (hl : ∀ m ∈ l, Name.Moves m)
    (hcheck : requireOutside fs inner outer = .ok ()) (hres : resolve fs inner = .ok l.path) :
    ¬ lo <+: l := by
  have hoe := (find_eq_ok.mp ho).2
  have hofits := FileSystem.fits_of_resolve (find_eq_ok.mp ho).1
  have hores := resolve_of_leads hfs hofits.1 hoshort ((hfs.find_iff_leads hofits).mp ho)
  intro hinside
  unfold requireOutside at hcheck
  rw [hres, hores] at hcheck
  dsimp only at hcheck
  rw [if_pos ((Path.startsWith_path hl (hfs.moves_of_mem hoe)).mpr hinside)] at hcheck
  cases hcheck

theorem nonempty_of_requireOutside (hcheck : requireOutside fs inner outer = .ok ()) :
    inner.isEmpty = false := by
  by_contra hnot
  have hempty : inner.isEmpty = true := by simpa using hnot
  unfold requireOutside resolve FileSystem.absolute at hcheck
  simp [hempty] at hcheck

theorem built_outside {ys : List Name} {d : Location} {s : Name} {rest : List Name}
    (hfs : fs.Sound) (hbuilt : Built (p :: p.ancestors) fs fs') (h : fs.Frontier p ys d s rest)
    (hlo : fs.entryAt lo = some .directory) (hout : ¬ lo <+: d ++ s :: rest) :
    (∀ k, lo <+: k → fs'.entryAt k = fs.entryAt k) ∧
      ∀ l, fs'.Leads p l → Fresh fs' lo (d ++ [s]) l := by
  have htop : d ++ [s] <+: d ++ s :: rest := ⟨rest, by simp⟩
  constructor
  · intro k hk
    cases he : fs'.entryAt k with
    | none =>
      by_contra hne
      obtain ⟨f, hf⟩ := Option.ne_none_iff_exists'.mp (Ne.symm hne)
      rw [hbuilt.old k f hf] at he
      cases he
    | some e =>
      rcases h.built hfs hbuilt he with hold | ⟨-, -, hsub⟩
      · exact hold.symm
      · exact absurd (hk.trans hsub) hout
  · intro l hl
    have hplace := h.leads hfs hbuilt hl
    refine ⟨hbuilt.sound.directory_of_leads hl, hplace ▸ htop, hplace ▸ hout, fun hsub => ?_,
      fun k e hk he => ?_⟩
    · rw [h.missing_below hfs hsub] at hlo
      cases hlo
    · rcases h.built hfs hbuilt he with hold | ⟨hdir, -⟩
      · rw [h.missing_below hfs hk] at hold
        cases hold
      · exact hdir

theorem create_cases (hfs : fs.Sound) (hfits : Fits p) (hrises : fs.RisesInside p)
    {r : Except Failure Unit} (h : create fs p = (r, fs')) :
    (fs' = fs ∧ (r = .ok () → ∃ l, fs.Leads p l)) ∨
      ∃ ys d s rest, fs.Frontier p ys d s rest ∧ Built (p :: p.ancestors) fs fs' ∧
        (r = .ok () → fs'.Leads p (d ++ s :: rest)) := by
  unfold create at h
  cases hc : fs.createDirectories p with
  | mk r₁ fs₁ =>
    rw [hc] at h
    cases h
    obtain ⟨hbuilt, hok, hfirst⟩ := FileSystem.createChain_built hfs hc
    have hleads : SystemError.because s!"Failed to create {p.display}" r₁ = .ok () →
        ∃ l, fs'.Leads p l := by
      intro hr
      have hr₁ : r₁ = .ok () := by
        cases r₁ with
        | ok u => rfl
        | error e => cases hr
      rcases hok hr₁ p rfl with hempty | hl
      · rw [hfits.1] at hempty
        cases hempty
      · exact hl
    rcases hfirst with rfl | ⟨q, hq, fs₁, hmade⟩
    · exact .inl ⟨rfl, hleads⟩
    · obtain ⟨ys, d, s, rest, hf⟩ := FileSystem.exists_frontier hfs hrises hq hmade
      refine .inr ⟨ys, d, s, rest, hf, hbuilt, fun hr => ?_⟩
      obtain ⟨l, hl⟩ := hleads hr
      rw [hf.leads hfs hbuilt hl] at hl
      exact hl

theorem create_resolved (hfs : fs.Sound) (hfits : Fits p) (hshort : fs.Short p)
    (hrises : fs.RisesInside p) (h : create fs p = (.ok (), fs')) :
    ∃ l, fs'.find true p = .ok (l, .directory) ∧ (∀ m ∈ l, Name.Moves m) ∧
      resolve fs p = .ok l.path := by
  rcases create_cases hfs hfits hrises h with ⟨rfl, hok⟩ | ⟨ys, d, s, rest, hf, hbuilt, hok⟩
  · obtain ⟨l, hl⟩ := hok rfl
    have hfind := (hfs.find_iff_leads hfits).mpr hl
    exact ⟨l, hfind, hfs.moves_of_mem (find_eq_ok.mp hfind).2,
      resolve_of_leads hfs hfits.1 hshort hl⟩
  · have hfind := (hbuilt.sound.find_iff_leads hfits).mpr (hok rfl)
    exact ⟨_, hfind, hbuilt.sound.moves_of_mem (find_eq_ok.mp hfind).2,
      resolve_of_frontier hfs hfits.1 hshort hf⟩

theorem create_outside (hfs : fs.Sound) (hfits : Fits p) (hrises : fs.RisesInside p)
    (hlo : fs.entryAt lo = some .directory)
    (hout : ∀ ys d s rest, fs.Frontier p ys d s rest → ¬ lo <+: d ++ s :: rest)
    (hthere : ∀ l, fs.Leads p l → Fresh fs lo l l) {r : Except Failure Unit}
    (h : create fs p = (r, fs')) : Outcome fs p lo r fs' := by
  rcases create_cases hfs hfits hrises h with ⟨rfl, hok⟩ | ⟨ys, d, s, rest, hf, hbuilt, hok⟩
  · refine ⟨hfs, rfl, fun k _ => rfl, fun hr => ?_⟩
    obtain ⟨l, hl⟩ := hok hr
    exact ⟨l, l, (hfs.find_iff_leads hfits).mpr hl, hthere l hl⟩
  · obtain ⟨hframe, hfresh⟩ := built_outside hfs hbuilt hf hlo (hout ys d s rest hf)
    refine ⟨hbuilt.sound, hbuilt.working, hframe, fun hr => ?_⟩
    exact ⟨_, _, (hbuilt.sound.find_iff_leads hfits).mpr (hok hr), hfresh _ (hok hr)⟩

def neighbours : FileSystem :=
  ⟨[([Utf8.encode "in"], .directory), ([Utf8.encode "in", Utf8.encode "a"], .file [] false),
    ([Utf8.encode "out"], .directory), ([Utf8.encode "out", Utf8.encode "old"], .file [] false)], []⟩

theorem sound_neighbours : neighbours.Sound := by
  refine FileSystem.sound_of_entries ?_ rfl
  unfold neighbours
  decide

theorem find_neighbours :
    neighbours.find true (.ofString "in") = .ok ([Utf8.encode "in"], .directory) ∧
      neighbours.find false (.ofString "in/../out") = .ok ([Utf8.encode "out"], .directory) := by
  constructor <;> cbv

theorem short_neighbours :
    neighbours.Short (.ofString "in") ∧ neighbours.Short (.ofString "in/../out") := by
  have hin : neighbours.absolute (.ofString "in") = .ok (.ofString "/in") := by cbv
  have hout : neighbours.absolute (.ofString "in/../out") = .ok (.ofString "/in/../out") := by cbv
  refine ⟨⟨by decide, fun full h => ?_⟩, by decide, fun full h => ?_⟩
  · cases hin.symm.trans h
    decide
  · cases hout.symm.trans h
    decide

theorem foreseen_neighbours :
    Foreseen neighbours (.ofString "in/../out") true [Utf8.encode "in"] := by
  have habove : Path.ancestors (.ofString "in/../out") =
      [.ofString "in/..", .ofString "in", .ofString ""] := by cbv
  refine ⟨short_neighbours.2, fun q hq hup => ?_, fun _ _ l e h => ?_⟩
  · simp only [habove, List.mem_cons, List.not_mem_nil, or_false] at hq
    rcases hq with rfl | rfl | rfl | rfl
    · exact absurd hup (by decide)
    · cbv
    · exact absurd hup (by decide)
    · exact absurd hup (by decide)
  · cases find_neighbours.2.symm.trans h
    refine ⟨by decide, ?_, fun h => absurd h (by decide)⟩
    rintro ⟨t, ht⟩
    cases ht

theorem leads_emptied {fs₁ : FileSystem} (hfs : fs.Sound) (h : fs.find false p = .ok (l, e))
    (hremoved : Removed l e fs fs₁) (hleads : fs₁.Leads p k) : e = .directory ∧ k = l := by
  have hkept : fs₁.Keeps fs := fun k f hk _ => hremoved.kept (find_eq_ok.mp h).2 hk
  by_cases hdir : e = .directory
  · rw [hdir] at h
    exact ⟨hdir, (hleads.keeps hkept hremoved.working.symm).unique (FileSystem.leads_of_find_false h)⟩
  · -- the name itself has gone, and the way of the path ends before it
    exfalso
    obtain ⟨zs, t, n, d, hsteps, hw, ht, rfl⟩ := FileSystem.designates_of_find_false hfs h hdir
    have hroute : p.route = Path.moving zs ++ [t] := by
      rw [← Path.moving_steps, hsteps, Path.moving_append, Path.moving_cons ht.1, Path.moving_nil]
    obtain ⟨m, hk⟩ := hleads
    have horigin : fs₁.origin p p.route = fs.origin p (Path.moving zs ++ [t]) := by
      simp [FileSystem.origin, FileSystem.start, hremoved.working, hroute]
    rw [horigin] at hk
    have hrest := FileSystem.Walks.through hkept (hw.append [t]) hk FileSystem.stuck_nil
    have hgone : fs₁.entryAt (d ++ [t]) = none := by
      by_contra hne
      obtain ⟨f, hf⟩ := Option.ne_none_iff_exists'.mp hne
      exact hdir (hremoved.inside _ f List.prefix_rfl hf).2.1
    have heq := hrest.eq_of_stuck (FileSystem.stuck_of_missing ht.2.1 hgone)
    cases heq

section Checked

variable (hfs : fs.Sound) (ho : fs.find true outer = .ok (lo, .directory))
  (hoshort : fs.Short outer) (hcheck : requireOutside fs inner outer = .ok ())
  (hshort : fs.Short inner)

include hfs ho hoshort hcheck hshort

theorem outside_of_frontier {ys : List Name} {d : Location} {s : Name} {rest : List Name}
    (h : fs.Frontier inner ys d s rest) : ¬ lo <+: d ++ s :: rest := by
  have hmoves : ∀ m ∈ d ++ s :: rest, Name.Moves m := by
    intro m hm
    rcases List.mem_append.mp hm with hm | hm
    · exact hfs.moves_of_mem (h.directory hfs) m hm
    · exact h.moves m hm
  exact not_inside_of_requireOutside hfs ho hoshort hmoves hcheck
    (resolve_of_frontier hfs (nonempty_of_requireOutside hcheck) hshort h)

theorem outside_of_find (h : fs.find false inner = .ok (l, e)) (hlink : ¬ ∃ t, e = .link t) :
    ¬ lo <+: l := by
  have hmoves := hfs.moves_of_mem (find_eq_ok.mp h).2
  have hres : resolve fs inner = .ok l.path := by
    cases e with
    | link t => exact absurd ⟨t, rfl⟩ hlink
    | directory =>
      exact resolve_of_leads hfs (nonempty_of_requireOutside hcheck) hshort
        (FileSystem.leads_of_find_false h)
    | file => exact resolve_of_file hfs hshort h rfl
  exact not_inside_of_requireOutside hfs ho hoshort hmoves hcheck hres

theorem apart_of_find (h : fs.find false inner = .ok (l, e)) (hllo : ¬ l <+: lo)
    (hlink : (∃ t, e = .link t) → ¬ lo <+: l) (hk : lo <+: k) : ¬ l <+: k := by
  intro hlk
  rcases List.prefix_or_prefix_of_prefix hk hlk with hlol | hll
  · by_cases hl : ∃ t, e = .link t
    · exact hlink hl hlol
    · exact outside_of_find hfs ho hoshort hcheck hshort h hl hlol
  · exact hllo hll

theorem outside_of_cleared {fs₁ : FileSystem} (hin : fs.contains inner = true)
    (h : fs.find false inner = .ok (l, e)) (hremoved : Removed l e fs fs₁) (hllo : ¬ l <+: lo)
    (hlink : (∃ t, e = .link t) → ¬ lo <+: l) (hfs₁ : fs₁.Sound) {ys : List Name} {d : Location} {s : Name}
    {rest : List Name} (hf : fs₁.Frontier inner ys d s rest) : ¬ lo <+: d ++ s :: rest := by
  intro hinside
  have hoe := (find_eq_ok.mp ho).2
  have hoe₁ : fs₁.entryAt lo = some .directory := by rw [hremoved.outside lo hllo, hoe]
  have hnot : ¬ d ++ [s] <+: lo := by
    intro hsub
    rw [hf.missing_below hfs₁ hsub] at hoe₁
    cases hoe₁
  have hlods : lo <+: d ++ [s] :=
    (List.prefix_or_prefix_of_prefix hinside ⟨rest, by simp⟩).resolve_right hnot
  -- the path got past this point before, so there was an entry
  have hthere : fs.entryAt (d ++ [s]) ≠ none := by
    intro hnone
    obtain ⟨n, hw⟩ := hf.walks
    obtain ⟨k, f, hfind⟩ := FileSystem.contains_iff.mp hin
    have hkept : fs₁.Keeps fs := fun k f hk _ => hremoved.kept (find_eq_ok.mp h).2 hk
    have horigin : fs₁.origin inner inner.route = fs.origin inner inner.route := by
      simp [FileSystem.origin, FileSystem.start, hremoved.working]
    rw [horigin] at hw
    exact FileSystem.not_find_of_missing (hw.keeps hkept) hf.ne_up hnone hfind
  have hlds : l <+: d ++ [s] := by
    by_contra hnl
    exact hthere ((hremoved.outside _ hnl).symm.trans hf.missing)
  exact apart_of_find hfs ho hoshort hcheck hshort h hllo hlink hlods hlds

theorem fresh_of_emptied {fs₁ : FileSystem} (h : fs.find false inner = .ok (l, e))
    (hremoved : Removed l e fs fs₁) (hllo : ¬ l <+: lo) (hfs₁ : fs₁.Sound)
    (hleads : fs₁.Leads inner k) : Fresh fs₁ lo k k := by
  obtain ⟨rfl, rfl⟩ := leads_emptied hfs h hremoved hleads
  exact ⟨hfs₁.directory_of_leads hleads, List.prefix_rfl,
    outside_of_find hfs ho hoshort hcheck hshort h (by rintro ⟨t, ht⟩; cases ht),
    hllo, fun j f hj hf => (hremoved.inside j f hj hf).2.2⟩

theorem frame_of_cleared {fs₁ : FileSystem} (h : fs.find false inner = .ok (l, e))
    (hremoved : Removed l e fs fs₁) (hllo : ¬ l <+: lo) (hlink : (∃ t, e = .link t) → ¬ lo <+: l)
    (hk : lo <+: k) : fs₁.entryAt k = fs.entryAt k := by
  exact hremoved.outside k (apart_of_find hfs ho hoshort hcheck hshort h hllo hlink hk)

theorem create_outside_of_cleared {fs₁ : FileSystem} (hin : fs.contains inner = true)
    (hrises : fs₁.RisesInside inner) (h : fs.find false inner = .ok (l, e))
    (hremoved : Removed l e fs fs₁) (hfs₁ : fs₁.Sound) (hllo : ¬ l <+: lo)
    (hlink : (∃ t, e = .link t) → ¬ lo <+: l) {r : Except Failure Unit}
    (hcreate : create fs₁ inner = (r, fs')) : Outcome fs₁ inner lo r fs' := by
  have hfits : Fits inner := ⟨nonempty_of_requireOutside hcheck, hshort.1⟩
  have hoe₁ : fs₁.entryAt lo = some .directory :=
    (hremoved.outside lo hllo).trans (find_eq_ok.mp ho).2
  refine create_outside hfs₁ hfits hrises hoe₁ (fun ys d s rest hf => ?_) (fun k hk => ?_) hcreate
  · exact outside_of_cleared hfs ho hoshort hcheck hshort hin h hremoved hllo hlink hfs₁ hf
  · exact fresh_of_emptied hfs ho hoshort hcheck hshort h hremoved hllo hfs₁ hk

omit hshort

theorem makeEmptyDirectory_outcome (hforeseen : Foreseen fs inner force lo)
    (hapart : Apart fs inner force lo) {r : Except Failure Unit}
    (h : makeEmptyDirectory fs inner force = (r, fs')) : Outcome fs inner lo r fs' := by
  have hshort := hforeseen.short
  have hrises := hforeseen.rises
  have hfits : Fits inner := ⟨nonempty_of_requireOutside hcheck, hshort.1⟩
  rcases makeEmptyDirectory_cases hfs h with ⟨rfl, hr⟩ | ⟨hin, hcreate⟩ |
    ⟨hforce, hin, l, e, hfind, hremoved, hrest⟩
  · exact ⟨hfs, rfl, fun _ _ => rfl, fun h => absurd h hr⟩
  · rw [cleared_of_missing hin] at hrises
    refine create_outside hfs hfits hrises (find_eq_ok.mp ho).2 (fun ys d s rest hf =>
      outside_of_frontier hfs ho hoshort hcheck hshort hf) (fun k hk => ?_) hcreate
    have hfound := FileSystem.contains_iff.mpr ⟨k, _, (hfs.find_iff_leads hfits).mpr hk⟩
    rw [hin] at hfound
    cases hfound
  · obtain ⟨hlw, hlink, -⟩ := hforeseen.spares hforce hin l e hfind
    have hllo := hapart hforce hin l e hfind
    have hsound := hremoved.sound hfs (find_eq_ok.mp hfind).2 hlw
    have hframe : ∀ k, lo <+: k → (cleared fs inner force).entryAt k = fs.entryAt k :=
      fun k hk => frame_of_cleared hfs ho hoshort hcheck hshort hfind hremoved hllo hlink hk
    rcases hrest with ⟨rfl, hr⟩ | hcreate
    · exact ⟨hsound, hremoved.working, hframe, fun h => absurd h hr⟩
    · have hmade := create_outside_of_cleared hfs ho hoshort hcheck hshort hin hrises hfind hremoved
        hsound hllo hlink hcreate
      exact ⟨hmade.sound, hmade.working.trans hremoved.working,
        fun k hk => (hmade.frame k hk).trans (hframe k hk), hmade.fresh⟩

/-- The directory made for an output that has passed the check is neither the outer directory
nor anywhere below it. -/
theorem makeEmptyDirectory_outside (hforeseen : Foreseen fs inner force lo)
    (h : makeEmptyDirectory fs inner force = (.ok (), fs')) :
    ∃ l, fs'.find true inner = .ok (l, .directory) ∧ ¬ lo <+: l := by
  have hshort := hforeseen.short
  have hrises := hforeseen.rises
  have hfits : Fits inner := ⟨nonempty_of_requireOutside hcheck, hshort.1⟩
  rcases makeEmptyDirectory_cases hfs h with ⟨-, hr⟩ | ⟨hin, hcreate⟩ |
    ⟨hforce, hin, l, e, hfind, hremoved, hrest⟩
  · exact absurd rfl hr
  · rw [cleared_of_missing hin] at hrises
    obtain ⟨k, hk, hmoves, hres⟩ := create_resolved hfs hfits hshort hrises hcreate
    exact ⟨k, hk, not_inside_of_requireOutside hfs ho hoshort hmoves hcheck hres⟩
  · obtain ⟨hlw, hlink, hsteady⟩ := hforeseen.spares hforce hin l e hfind
    have hsound := hremoved.sound hfs (find_eq_ok.mp hfind).2 hlw
    have hcreate := hrest.resolve_left fun hr => hr.2 rfl
    by_cases hllo : l <+: lo
    · obtain ⟨k, hk, hmoves, hres⟩ :=
        create_resolved hsound hfits (hshort.congr hremoved.working) hrises hcreate
      rw [cleared_of_forced hforce hin, hsteady hllo] at hres
      exact ⟨k, hk, not_inside_of_requireOutside hfs ho hoshort hmoves hcheck hres⟩
    · have hmade := create_outside_of_cleared hfs ho hoshort hcheck hshort hin hrises hfind hremoved
        hsound hllo hlink hcreate
      obtain ⟨top, k, hk, hplace⟩ := hmade.fresh rfl
      exact ⟨k, hk, hplace.outside⟩

end Checked

theorem makeEmptyDirectory_outside_neighbours :
    ∃ fs', makeEmptyDirectory neighbours (.ofString "in/../out") true = (.ok (), fs') ∧
      ∃ l, fs'.find true (.ofString "in/../out") = .ok (l, .directory) ∧
        ¬ [Utf8.encode "in"] <+: l := by
  have hcheck : requireOutside neighbours (.ofString "in/../out") (.ofString "in") = .ok () := by
    cbv
  have hmade : makeEmptyDirectory neighbours (.ofString "in/../out") true =
      (.ok (), (neighbours.dropTree [Utf8.encode "out"]).put [Utf8.encode "out"] .directory) := by
    cbv
  exact ⟨_, hmade, makeEmptyDirectory_outside sound_neighbours find_neighbours.1 short_neighbours.1
    hcheck foreseen_neighbours hmade⟩

/-- Where the path goes up from what is missing, the check takes it as it is spelled, and the
directory is made inside the outer one. -/
theorem makeEmptyDirectory_inside :
    ∃ fs', requireOutside neighbours (.ofString "new/../in/out") (.ofString "in") = .ok () ∧
      makeEmptyDirectory neighbours (.ofString "new/../in/out") false = (.ok (), fs') ∧
      fs'.find true (.ofString "in") = .ok ([Utf8.encode "in"], .directory) ∧
      fs'.find true (.ofString "new/../in/out") =
        .ok ([Utf8.encode "in", Utf8.encode "out"], .directory) := by
  refine ⟨((neighbours.put [Utf8.encode "new"] .directory).put
    [Utf8.encode "in", Utf8.encode "out"] .directory), ?_, ?_, ?_, ?_⟩ <;> cbv

end FunctionPairs.Places
