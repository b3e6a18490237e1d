import FunctionPairs.Proofs.Transformation.Course

/-!
The order of a run, and what the cap chooses. The files are visited in the order of the tour;
those that are rewritten are the first that can be, as many as the cap allows, and the translator
gets their bodies in that order.
-/
namespace FunctionPairs

namespace Visit

def isMade (v : Visit) : Bool := v.deed matches .made

def isRewritten (v : Visit) : Bool := v.deed matches .rewritten ..

def contents? (v : Visit) : Option Bytes :=
  match v.deed with
  | .copied contents _ => some contents
  | .rewritten k _ _ => some k.contents
  | _ => none

theorem copied_of_contents {v : Visit} {contents : Bytes} (hnot : v.isRewritten = false)
    (h : v.contents? = some contents) :
    v.target = v.spot.names ∧ ∃ x, v.entry? = some (.file contents x) := by
  obtain ⟨p, deed⟩ := v
  cases deed with
  | made => cases h
  | skipped => cases h
  | rewritten => cases hnot
  | copied c x =>
    cases h
    exact ⟨rfl, x, rfl⟩

end Visit

namespace Transformer

open FileSystem (Fills)

variable {σ : Type} {t : Transformer σ} {fs : FileSystem} {d : DirPair} {li lo : Location}
  {s s' : TransformState σ} {v : Visit} {vs : List Visit}

def able (t : Transformer σ) (v : Visit) : Bool :=
  (v.contents?.bind (t.task? v.spot.name)).isSome

theorem Trail.noted {note : σ → List String}
    (hnote : ∀ body state, note (t.translator body state).state = note state ++ [body])
    (h : Trail t d li lo s vs s') :
    note s'.translator = note s.translator ++ vs.flatMap Visit.bodies := by
  induction h with
  | nil s => simp
  | @cons s s₁ s' v vs first rest ih =>
    have hfirst : note s₁.translator = note s.translator ++ v.bodies := by
      obtain ⟨p, deed⟩ := v
      have hdue : Due t d li lo s p s₁.translator deed := first.due
      cases hdue with
      | made _ _ hquiet => simp [hquiet, Visit.bodies]
      | skipped _ _ _ hquiet => simp [hquiet, Visit.bodies]
      | copied _ _ hquiet => simp [hquiet, Visit.bodies]
      | rewritten _ _ _ hasked => exact hasked.noted hnote
    rw [ih, hfirst, List.flatMap_cons, List.append_assoc]

theorem Trail.chosen (h : Trail t d li lo s vs s') :
    vs.filter Visit.isRewritten = if t.maxCount = 0 then vs.filter t.able
      else (vs.filter t.able).take (t.maxCount - s.stats.filesTransformed) := by
  induction h with
  | nil s => simp
  | @cons s s₁ s' v vs first rest ih =>
    obtain ⟨p, deed⟩ := v
    have hstats := first.stats
    have hdue : Due t d li lo s p s₁.translator deed := first.due
    cases hdue with
    | made | skipped =>
      rw [List.filter_cons_of_neg (by simp [Visit.isRewritten]),
        List.filter_cons_of_neg (by simp [able, Visit.contents?]), ih, hstats]
      rfl
    | @copied contents x hfound hwhy hquiet =>
      have hcount : s₁.stats.filesTransformed = s.stats.filesTransformed := by rw [hstats]; rfl
      rw [List.filter_cons_of_neg (by simp [Visit.isRewritten]), ih, hcount]
      by_cases hable : t.task? p.name contents = none
      · rw [List.filter_cons_of_neg (by simp [able, Visit.contents?, hable])]
      · -- a file that could be rewritten is only copied once the cap is reached
        have hfull := hwhy.resolve_left hable
        simp only [isCapped, Bool.and_eq_true, decide_eq_true_eq] at hfull
        rw [if_neg (by omega), if_neg (by omega), Nat.sub_eq_zero_of_le hfull.2, List.take_zero,
          List.take_zero]
    | rewritten hfound htask hroom hasked =>
      have hcount : s₁.stats.filesTransformed = s.stats.filesTransformed + 1 := by rw [hstats]; rfl
      have hcontents := (task?_eq_some.mp htask).2.2.2.2
      rw [List.filter_cons_of_pos (by simp [Visit.isRewritten]),
        List.filter_cons_of_pos (by simp [able, Visit.contents?, hcontents, htask]), ih, hcount]
      split_ifs with hcap
      · rfl
      · simp only [isCapped, Bool.and_eq_false_iff, decide_eq_false_iff_not] at hroom
        rw [← List.take_succ_cons]
        congr 1
        omega

theorem Trail.made_iff (h : Trail t d li lo s vs s') (hlasts : fs.Lasts s.files)
    (hi : Intact fs li s') : ∀ v ∈ vs, v.isMade = fs.isDirectoryAt (li ++ v.spot.names) := by
  induction h with
  | nil s => exact nofun
  | @cons s s₁ s' v vs first rest ih =>
    have hafter := hlasts.trans first.laid.lasts
    refine List.forall_mem_cons.mpr ⟨?_, ih hafter hi⟩
    have hdue := first.due
    obtain ⟨p, deed⟩ := v
    have hother : ∀ e, s.files.entryAt (li ++ p.names) = some e → e ≠ .directory →
        false = fs.isDirectoryAt (li ++ p.names) := by
      intro e he hne
      rw [eq_comm, Bool.eq_false_iff, ne_eq, FileSystem.isDirectoryAt_iff]
      exact fun hdir => hne (Option.some.inj (he.symm.trans (hlasts.keeps _ _ hdir rfl)))
    cases hdue with
    | made hdir =>
      have hkeeps := (first.laid.lasts.trans (rest.lasts first.laid.lasts.sound)).keeps
      exact (FileSystem.isDirectoryAt_iff.mpr (hi.directories _ (hkeeps _ _ hdir rfl))).symm
    | skipped he hne => exact hother _ he hne
    | copied hfound =>
      obtain ⟨e, he, hne⟩ := hfound.entry
      exact hother e he hne
    | rewritten hfound =>
      obtain ⟨e, he, hne⟩ := hfound.entry
      exact hother e he hne

section Contents

variable (hb : Beside fs d li lo)

include hb

theorem Visited.contents {k : Location} {contents : Bytes} {x : Bool} (hm : Fills lo fs s.files)
    (h : Visited t d li lo s v s')
    (hfind : fs.find true (d.source.descend v.spot.names) = .ok (k, .file contents x))
    (hk : ¬ lo <+: k) : v.contents? = some contents := by
  have hfind' := hm.find hfind fun _ => hk
  obtain ⟨p, deed⟩ := v
  have hdue : Due t d li lo s p s'.translator deed := h.due
  cases hdue with
  | made hdir =>
    -- the path of a directory leads to no file
    rw [hb.entryAt_source hm, ← append_names] at hdir
    obtain ⟨hnonempty, hleads⟩ := hb.source_leads (.refl hb.sound) (hb.sound.parents _ _ _ hdir)
    rw [← child_descend] at hfind
    have hfits := FileSystem.fits_of_resolve (FileSystem.find_eq_ok.mp hfind).1
    have hfound := FileSystem.find_child hleads hnonempty (hb.sound.proper _ _ _ hdir) hfits hdir
      (fun _ => nofun)
    cases hfind.symm.trans hfound
  | skipped _ _ hfile =>
    rw [FileSystem.isFile_iff.mpr ⟨k, contents, x, hfind'⟩] at hfile
    cases hfile
  | copied hfound =>
    obtain ⟨l, hfile⟩ := hfound.file
    cases hfile.symm.trans hfind'
    rfl
  | rewritten hfound htask =>
    obtain ⟨l, hfile⟩ := hfound.file
    cases hfile.symm.trans hfind'
    exact congrArg some (task?_eq_some.mp htask).2.2.2.2

theorem Trail.contents (hm : Fills lo fs s.files) (h : Trail t d li lo s vs s') :
    ∀ v ∈ vs, ∀ k contents x,
      fs.find true (d.source.descend v.spot.names) = .ok (k, .file contents x) → ¬ lo <+: k →
        v.contents? = some contents := by
  induction h with
  | nil s => exact nofun
  | cons first rest ih =>
    rw [List.forall_mem_cons]
    exact ⟨fun k contents x hfind hk => first.contents hb hm hfind hk,
      ih (hm.trans (first.fills hm.plain))⟩

end Contents

section Run

variable {input output : Path} {force : Bool}

theorem Cause.noted {note : σ → List String}
    (hnote : ∀ body state, note (t.translator body state).state = note state ++ [body]) {p : Spot}
    {e : Failure} {asked : List String} {final : σ} (h : Cause t d li s p e asked final) :
    note final = note s.translator ++ asked := by
  cases h with
  | interrupted => exact (List.append_nil _).symm
  | refused _ _ hrefused => exact hrefused.noted hnote
  | unwritten _ _ hasked => exact hasked.noted hnote
  | system => exact (List.append_nil _).symm

theorem Cause.asked {p : Spot} {e : Failure} {asked : List String} {final : σ}
    (h : Cause t d li s p e asked final) :
    asked = [] ∨ ∃ contents k, t.task? p.name contents = some k ∧ asked <+: k.bodies := by
  cases h with
  | interrupted => exact .inl rfl
  | refused _ htask _ hasked => exact .inr ⟨_, _, htask, hasked⟩
  | unwritten _ htask => exact .inr ⟨_, _, htask, List.prefix_rfl⟩
  | system => exact .inl rfl

theorem Course.asked {α : Type} {spots : List Spot} {res : Except Failure α}
    (h : Course t fs d li lo s spots res s') :
    ∃ visits rest s₁ asked,
      Trail t d li lo s visits s₁ ∧ s'.files = s₁.files ∧
      spots = (visits.map Visit.spot).filter (fs.holds li) ++ rest ∧
      (∀ a, res = .ok a → rest = [] ∧ s' = s₁ ∧ asked = []) ∧
      (∀ e, res = .error e → ∃ p behind, rest = [p].filter (fs.holds li) ++ behind ∧
        (transformEntry t (d.descend p.above) p.name s₁).value = (.error e, s') ∧
        (asked = [] ∨ ∃ contents k, t.task? p.name contents = some k ∧ asked <+: k.bodies)) ∧
      ∀ note : σ → List String,
        (∀ body state, note (t.translator body state).state = note state ++ [body]) →
          note s'.translator = note s.translator ++ visits.flatMap Visit.bodies ++ asked := by
  cases h with
  | @finished visits s' a trail hspots =>
    refine ⟨visits, [], s', [], trail, rfl, by simpa using hspots, fun _ _ => ⟨rfl, rfl, rfl⟩,
      fun e he => ?_, fun note hnote => ?_⟩
    · cases he
    · rw [List.append_nil, trail.noted hnote]
  | @stopped visits s₁ s' p behind e trail hthere hspots hstop =>
    obtain ⟨asked, hcause⟩ := hstop.cause
    rw [List.filter_append, List.append_assoc] at hspots
    refine ⟨visits, _, s₁, asked, trail, hstop.files, hspots, fun a ha => ?_, fun e' he => ?_,
      fun note hnote => ?_⟩
    · cases ha
    · cases he
      exact ⟨p, behind, rfl, hstop.run, hcause.asked⟩
    · rw [hcause.noted hnote, trail.noted hnote]

end Run

end Transformer
end FunctionPairs
