import FunctionPairs.Proofs.FileSystem.Making
import FunctionPairs.Proofs.Transformation.Mirror

/-!
Runs under way. Before each visit the directories seen so far have been mirrored, so that the next
entry has a directory to go to, nothing there under its own name, and a smaller name taken by a
directory exactly if the input has a directory of that name.
-/
namespace FunctionPairs.Transformer

open FileSystem (Fills Fits)

variable {σ : Type} {t : Transformer σ} {fs : FileSystem} {d : DirPair} {li lo : Location}
  {s s₁ : TransformState σ} {vs : List Visit} {p : Spot} {rest : List Spot}

theorem mem_before {before after : List Spot} {q : Spot}
    (h : (before ++ p :: after).Pairwise fun p p' => p.above = p'.above → p.name < p'.name)
    (hq : q ∈ before ++ p :: after) (habove : q.above = p.above) (hlt : q.name < p.name) :
    q ∈ before := by
  rcases List.mem_append.mp hq with hq | hq
  · exact hq
  · rcases List.mem_cons.mp hq with rfl | hq
    · exact absurd hlt (List.lt_irrefl _)
    · have hbehind := (List.pairwise_cons.mp (List.pairwise_append.mp h).2.1).1 q hq habove.symm
      exact absurd hlt (List.lt_asymm hbehind)

theorem outcome_of_rewritten {v : Visit}
    (h : vs.Pairwise fun v v' => v.target = v'.target → v'.isRewritten = true) (hv : v ∈ vs)
    (hrewritten : v.isRewritten = true) :
    ∃ contents x, Visit.outcome v.target vs = some (.file contents x) := by
  rw [Visit.outcome_eq_mirrored h, Visit.mirrored]
  cases hlast : Visit.lastTo v.target vs with
  | none =>
    rw [Visit.lastTo_eq_none.mp hlast v hv rfl] at hrewritten
    cases hrewritten
  | some u =>
    obtain ⟨-, -, hu⟩ := Visit.lastTo_eq_some hlast
    obtain ⟨p, deed⟩ := u
    cases deed with
    | rewritten k answers x => exact ⟨_, x, rfl⟩
    | _ => cases hu

theorem Trail.fits_target (h : Trail t d li lo s vs s₁) :
    ∀ v ∈ vs, v.isRewritten = true → Fits (d.dest.descend v.target) := by
  induction h with
  | nil s => exact nofun
  | @cons s s₁ s' v vs first rest ih =>
    refine List.forall_mem_cons.mpr ⟨fun hrewritten => ?_, ih⟩
    obtain ⟨p, deed⟩ := v
    cases deed with
    | rewritten k answers x =>
      obtain ⟨l, y, hfind⟩ := FileSystem.read_eq_ok.mp (first.laid.read _ x rfl)
      exact FileSystem.fits_of_resolve (FileSystem.find_eq_ok.mp hfind).1
    | _ => cases hrewritten

theorem Beside.intact (hb : Beside fs d li lo) (hlasts : fs.Lasts s.files) (hm : Fills lo fs s.files) :
    Intact fs li s :=
  ⟨hlasts, fun r hdir => hb.entryAt_source hm r ▸ hdir⟩

/-- A run that has made its first visits, in an output that was empty. -/
structure Underway (t : Transformer σ) (fs : FileSystem) (d : DirPair) (li lo : Location)
    (s : TransformState σ) (vs : List Visit) (s₁ : TransformState σ) (rest : List Spot) : Prop
    extends Beside fs d li lo where
  files : s.files = fs
  empty : ∀ r, r ≠ [] → fs.entryAt (lo ++ r) = none
  trail : Trail t d li lo s vs s₁
  tour : fs.tour li [] = vs.map Visit.spot ++ rest

namespace Underway

variable (h : Underway t fs d li lo s vs s₁ rest)

include h

theorem lasts : fs.Lasts s₁.files := h.files ▸ h.trail.lasts (h.files ▸ h.sound)

theorem fills : Fills lo fs s₁.files := by
  have hplain : s.files.Plain lo := h.files ▸ h.toBeside.plain
  exact h.files ▸ h.trail.fills hplain

theorem ascending : (vs.map Visit.spot ++ rest).Pairwise
    fun p p' => p.above = p'.above → p.name < p'.name :=
  h.tour ▸ FileSystem.tour_ascending h.sound h.distinct []

theorem mem_tour : p ∈ vs.map Visit.spot ++ rest ↔ fs.entryAt (li ++ p.names) ≠ none := by
  rw [← h.tour, FileSystem.mem_tour h.sound]
  exact and_iff_right List.nil_prefix

theorem mem_tour_of_entryAt {e : Entry} (he : fs.entryAt (li ++ p.names) = some e) :
    p ∈ vs.map Visit.spot ++ rest :=
  h.mem_tour.mpr fun hnone => nomatch hnone.symm.trans he

theorem made_iff : ∀ v ∈ vs, v.isMade = fs.isDirectoryAt (li ++ v.spot.names) :=
  h.trail.made_iff (by rw [h.files]; exact .refl h.sound) (h.toBeside.intact h.lasts h.fills)

theorem entryAt {r : List Name} (hr : r ≠ []) :
    s₁.files.entryAt (lo ++ r) = Visit.outcome r vs := by
  rw [h.trail.entryAt (h.files ▸ h.toBeside.plain), h.files, h.empty r hr, Option.or_none]

theorem directoryAt_iff {q : Spot} : s₁.files.entryAt (lo ++ q.names) = some .directory ↔
    q ∈ vs.map Visit.spot ∧ fs.entryAt (li ++ q.names) = some .directory := by
  constructor
  · intro hdir
    rw [h.entryAt q.names_ne_nil] at hdir
    obtain ⟨v, hv, htarget, hentry⟩ := Visit.mem_of_outcome hdir
    obtain ⟨hmade, hnames⟩ := Visit.isMade_of_directory hentry
    obtain rfl := Spot.names_injective (hnames.symm.trans htarget)
    rw [h.made_iff v hv, FileSystem.isDirectoryAt_iff] at hmade
    exact ⟨List.mem_map_of_mem hv, hmade⟩
  · rintro ⟨hq, hdir⟩
    obtain ⟨v, hv, rfl⟩ := List.mem_map.mp hq
    refine h.trail.made (h.files ▸ h.toBeside.plain) v hv ?_
    rwa [h.made_iff v hv, FileSystem.isDirectoryAt_iff]

theorem rewritten_apart {v : Visit} (hv : v ∈ vs) (hrewritten : v.isRewritten = true) {n : Name}
    (htarget : v.target = v.spot.above ++ [n]) (hlt : n < v.spot.name) :
    n.Proper ∧ fs.entryAt (li ++ (v.spot.above ++ [n])) ≠ some .directory := by
  have hascending := (List.pairwise_append.mp h.ascending).1
  obtain ⟨contents, x, houtcome⟩ :=
    outcome_of_rewritten (h.trail.succession hascending) hv hrewritten
  rw [← h.entryAt v.target_ne_nil, htarget] at houtcome
  refine ⟨?_, fun hdir => ?_⟩
  · rw [← List.append_assoc] at houtcome
    exact h.lasts.sound.proper _ _ _ houtcome
  · obtain ⟨before, after, hvs⟩ := List.append_of_mem (List.mem_map_of_mem (f := Visit.spot) hv)
    have hall := h.ascending
    have hthere := h.mem_tour_of_entryAt (p := ⟨v.spot.above, n⟩) hdir
    rw [hvs, List.append_assoc, List.cons_append] at hall hthere
    have hbefore := mem_before hall hthere rfl hlt
    have hseen : (⟨v.spot.above, n⟩ : Spot) ∈ vs.map Visit.spot := by
      rw [hvs]
      exact List.mem_append_left _ hbefore
    have hmade := h.directoryAt_iff.mpr ⟨hseen, hdir⟩
    cases houtcome.symm.trans hmade

end Underway

section Next

variable (h : Underway t fs d li lo s vs s₁ (p :: rest))

include h

namespace Underway

theorem next_there : fs.entryAt (li ++ p.names) ≠ none :=
  h.mem_tour.mp (List.mem_append_right _ List.mem_cons_self)

theorem next_above : fs.entryAt (li ++ p.above) = some .directory := by
  obtain ⟨e, he⟩ := Option.ne_none_iff_exists'.mp h.next_there
  rw [← append_names] at he
  exact h.sound.parents _ _ _ he

theorem next_proper : p.name.Proper := by
  obtain ⟨e, he⟩ := Option.ne_none_iff_exists'.mp h.next_there
  rw [← append_names] at he
  exact h.sound.proper _ _ _ he

theorem next_mirrored : s₁.files.entryAt (lo ++ p.above) = some .directory := by
  have hdir := h.next_above
  rcases List.eq_nil_or_concat p.above with hnil | ⟨r, n, habove⟩
  · rw [hnil, List.append_nil]
    exact h.lasts.keeps _ _ (FileSystem.find_eq_ok.mp h.dest).2 rfl
  · have hq : (⟨r, n⟩ : Spot).names = p.above := by rw [habove, List.concat_eq_append]; rfl
    generalize (⟨r, n⟩ : Spot) = q at hq
    rw [← hq] at hdir ⊢
    refine h.directoryAt_iff.mpr ⟨?_, hdir⟩
    refine (List.mem_append.mp (h.mem_tour_of_entryAt hdir)).resolve_right fun hbehind => ?_
    rcases List.mem_cons.mp hbehind with rfl | hbehind
    · simpa [Spot.names] using congrArg List.length hq
    · have hdescending : (fs.tour li []).Pairwise fun p p' => ¬ p'.names <+: p.above :=
        FileSystem.tour_descending h.sound h.distinct []
      rw [h.tour] at hdescending
      have hnot := (List.pairwise_cons.mp (List.pairwise_append.mp hdescending).2.1).1 _ hbehind
      exact hnot (hq ▸ List.prefix_rfl)

theorem next_paired : Paired d li lo s₁ p.above := by
  obtain ⟨hsource, hsourceLeads⟩ := h.source_leads h.lasts h.next_above
  obtain ⟨hdest, hdestLeads⟩ := h.dest_leads h.lasts h.next_mirrored
  exact ⟨h.lasts.sound, hsource, hsourceLeads, hdest, hdestLeads⟩

theorem next_free : s₁.files.entryAt (lo ++ p.names) = none := by
  rw [h.entryAt p.names_ne_nil]
  refine Option.eq_none_iff_forall_ne_some.mpr fun e he => ?_
  obtain ⟨v, hv, htarget, -⟩ := Visit.mem_of_outcome he
  obtain ⟨n, hn, hle⟩ := h.trail.target_le v hv
  obtain ⟨habove, hname⟩ := List.append_inj' (hn.symm.trans htarget) rfl
  cases hname
  have hbefore := (List.pairwise_append.mp h.ascending).2.2 _ (List.mem_map_of_mem hv) p
    List.mem_cons_self habove
  rcases hle with hless | heq
  · exact List.lt_asymm hbefore hless
  · rw [heq] at hbefore
    exact List.lt_irrefl _ hbefore

theorem next_unlinked (n : Name) (target : Path) :
    s₁.files.entryAt (lo ++ p.above ++ [n]) ≠ some (.link target) :=
  h.fills.plain.bare _ _ (by rw [List.append_assoc]; exact List.prefix_append _ _)

theorem next_hindrance (q : Path) {n : Name} (hlt : n < p.name) :
    s₁.files.hindrance? (lo ++ p.above) q n = fs.hindrance? (li ++ p.above) q n := by
  have hdir : s₁.files.isDirectoryAt (lo ++ p.above ++ [n]) =
      fs.isDirectoryAt (li ++ p.above ++ [n]) := by
    rw [Bool.eq_iff_iff, FileSystem.isDirectoryAt_iff, FileSystem.isDirectoryAt_iff,
      append_names lo ⟨p.above, n⟩, append_names li ⟨p.above, n⟩, h.directoryAt_iff]
    exact and_iff_right_of_imp fun hdir =>
      mem_before h.ascending (h.mem_tour_of_entryAt hdir) rfl hlt
  unfold FileSystem.hindrance?
  rw [hdir]

end Underway

end Next

end FunctionPairs.Transformer
