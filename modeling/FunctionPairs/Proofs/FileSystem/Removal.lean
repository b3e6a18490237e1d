import FunctionPairs.Proofs.FileSystem.Creation

/-!
Removing what a path names. Nothing changes but at the place removed and below it, and of these
at most the directory itself is left.
-/
namespace FunctionPairs.FileSystem

open FunctionPairs.Path (moving)

variable {fs fs' : FileSystem} {p : Path} {k l : Location} {e : Entry}

/-- The entry at a location has been removed with all below it; of a directory itself this is
said only for what is in it. -/
structure Removed (l : Location) (e : Entry) (fs fs' : FileSystem) : Prop where
  working : fs'.working = fs.working
  outside : ∀ k, ¬ l <+: k → fs'.entryAt k = fs.entryAt k
  inside : ∀ k f, l <+: k → fs'.entryAt k = some f → k = l ∧ e = .directory ∧ f = .directory

namespace Removed

theorem kept (h : Removed l e fs fs') (he : fs.entryAt l = some e) {f : Entry}
    (hk : fs'.entryAt k = some f) : fs.entryAt k = some f := by
  by_cases hlk : l <+: k
  · obtain ⟨rfl, rfl, rfl⟩ := h.inside k f hlk hk
    exact he
  · rwa [h.outside k hlk] at hk

theorem sound (h : Removed l e fs fs') (hfs : fs.Sound) (he : fs.entryAt l = some e)
    (hworking : ¬ l <+: fs.working) : fs'.Sound := by
  refine ⟨fun k n f hf => hfs.proper k n f (h.kept he hf), fun k n f hf => ?_, ?_⟩
  · have hdir := hfs.parents k n f (h.kept he hf)
    have hlk : ¬ l <+: k := by
      intro hlk
      obtain ⟨heq, -⟩ := h.inside _ f (hlk.trans (List.prefix_append k [n])) hf
      have hlength := hlk.length_le
      rw [← heq, List.length_append, List.length_singleton] at hlength
      omega
    rw [h.outside k hlk, hdir]
  · rw [h.working, h.outside _ hworking]
    exact hfs.working

end Removed

theorem removed_dropTree (he : fs.entryAt l = some e) : Removed l e fs (fs.dropTree l) := by
  refine ⟨rfl, fun k hk => ?_, fun k f hlk hf => ?_⟩
  · by_cases hnil : k = []
    · rw [hnil, entryAt_nil, entryAt_nil]
    · rw [entryAt_dropTree hnil, if_neg hk]
  · by_cases hnil : k = []
    · rw [hnil] at hlk hf ⊢
      rw [List.prefix_nil.mp hlk] at he ⊢
      exact ⟨rfl, (Option.some.inj he).symm, (Option.some.inj hf).symm⟩
    · rw [entryAt_dropTree hnil, if_pos hlk] at hf
      cases hf

theorem removed_dropBelow (he : fs.entryAt l = some .directory) :
    Removed l .directory fs (fs.dropBelow l) := by
  refine ⟨rfl, fun k hk => ?_, fun k f hlk hf => ?_⟩
  · rw [entryAt_dropBelow, if_neg fun h => hk h.1]
  · rw [entryAt_dropBelow] at hf
    split_ifs at hf with hne
    have hkl : k = l := by_contra fun h => hne ⟨hlk, h⟩
    rw [hkl, he] at hf
    exact ⟨hkl, rfl, (Option.some.inj hf).symm⟩

theorem Removed.trans {fs'' : FileSystem} (h : Removed l e fs fs')
    (h' : Removed l .directory fs' fs'') (hdir : e = .directory) : Removed l e fs fs'' := by
  refine ⟨h'.working.trans h.working, fun k hk => (h'.outside k hk).trans (h.outside k hk), ?_⟩
  intro k f hlk hf
  obtain ⟨hkl, -, hf⟩ := h'.inside k f hlk hf
  exact ⟨hkl, hdir, hf⟩

theorem leads_of_find_false (h : fs.find false p = .ok (l, .directory)) : fs.Leads p l := by
  have hentry := (find_eq_ok.mp h).2
  cases designates_of_find h with
  | @inside m d hw =>
    rw [Path.moving_steps] at hw
    exact ⟨m, hw⟩
  | @name zs t m d hsteps hw ht =>
    have hroute : p.route = moving zs ++ [t] := by
      rw [← Path.moving_steps, hsteps, Path.moving_append, Path.moving_cons ht.1, Path.moving_nil]
    refine ⟨m, ?_⟩
    rw [hroute]
    exact (hw.append [t]).tail (.enter ht hentry)

theorem designates_of_find_false (hfs : fs.Sound) (h : fs.find false p = .ok (l, e))
    (he : e ≠ .directory) :
    ∃ zs t n d, p.steps = zs ++ [t] ∧ fs.Walks (fs.origin p (moving zs)) ⟨n, d, []⟩ ∧
      t.Ordinary ∧ l = d ++ [t] := by
  have hentry := (find_eq_ok.mp h).2
  cases designates_of_find h with
  | inside hw =>
    have hdir := hfs.directory_of_walks hw (hfs.start p)
    rw [hentry] at hdir
    exact absurd (Option.some.inj hdir) he
  | @name zs t m d hsteps hw ht => exact ⟨zs, t, m, d, hsteps, hw, ht, rfl⟩

theorem removeFile_removed (h : fs.removeFile p = .ok fs') :
    ∃ l e, fs.find false p = .ok (l, e) ∧ Removed l e fs fs' := by
  unfold removeFile at h
  cases hf : fs.find false p with
  | error e => simp [hf] at h
  | ok found =>
    obtain ⟨l, e⟩ := found
    have hentry := (find_eq_ok.mp hf).2
    rw [hf] at h
    cases e <;> cases h
    · exact ⟨l, _, rfl, removed_dropTree hentry⟩
    · exact ⟨l, _, rfl, removed_dropTree hentry⟩

theorem eq_of_find_emptied (hfs : fs.Sound) (hp : fs.Leads p l)
    (h : (fs.dropBelow l).find false (withoutFinalSlashes p) = .ok (k, .directory)) : k = l := by
  have hdir := hfs.directory_of_leads hp
  have hkeeps : (fs.dropBelow l).Keeps fs := fun j f hj _ => (removed_dropBelow hdir).kept hdir hj
  have hfits := fits_of_resolve (find_eq_ok.mp h).1
  obtain ⟨n, hw⟩ := leads_of_find_false h
  have hroute : (withoutFinalSlashes p).route = p.route :=
    Path.route_congr (Path.names_withoutFinalSlashes p)
  have horigin : (fs.dropBelow l).origin (withoutFinalSlashes p) (withoutFinalSlashes p).route =
      fs.origin p p.route := by
    unfold origin start
    rw [hroute, Path.isAbsolute_withoutFinalSlashes hfits.1]
    rfl
  rw [horigin] at hw
  exact Leads.unique ⟨n, hw.keeps hkeeps⟩ hp

theorem removeEmptied_removed (hfs : fs.Sound) (hp : fs.Leads p l)
    (h : (fs.dropBelow l).removeEmptied (withoutFinalSlashes p) = .ok fs') :
    Removed l .directory fs fs' := by
  have hdir := hfs.directory_of_leads hp
  have hbelow := removed_dropBelow hdir
  unfold removeEmptied at h
  cases hf : (fs.dropBelow l).find false (withoutFinalSlashes p) with
  | error e =>
    rw [hf] at h
    cases e <;> cases h
    exact hbelow
  | ok found =>
    obtain ⟨k, e⟩ := found
    rw [hf] at h
    cases e with
    | file => cases h
    | link => cases h
    | directory =>
      have hleft := (find_eq_ok.mp hf).2
      rw [eq_of_find_emptied hfs hp hf] at h hleft
      have htree : Removed l .directory fs ((fs.dropBelow l).dropTree l) :=
        hbelow.trans (removed_dropTree hleft) rfl
      dsimp only at h
      split at h
      · split_ifs at h
        cases h
        exact htree
      · cases h

theorem removeTree_removed (hfs : fs.Sound) {r : Except SystemError Unit}
    (h : fs.removeTree p = (r, fs')) :
    (fs' = fs ∧ r ≠ .ok ()) ∨ ∃ l e, fs.find false p = .ok (l, e) ∧ Removed l e fs fs' := by
  unfold removeTree at h
  cases hf : fs.find false p with
  | error e =>
    rw [hf] at h
    cases h
    exact .inl ⟨rfl, nofun⟩
  | ok found =>
    obtain ⟨l, e⟩ := found
    have hentry := (find_eq_ok.mp hf).2
    rw [hf] at h
    cases e with
    | file =>
      cases h
      exact .inl ⟨rfl, nofun⟩
    | link t =>
      cases h
      exact .inr ⟨l, _, rfl, removed_dropTree hentry⟩
    | directory =>
      dsimp only at h
      cases hr : (fs.dropBelow l).removeEmptied (withoutFinalSlashes p) with
      | error e =>
        rw [hr] at h
        cases h
        exact .inr ⟨l, _, rfl, removed_dropBelow hentry⟩
      | ok left =>
        rw [hr] at h
        cases h
        exact .inr ⟨l, _, rfl, removeEmptied_removed hfs (leads_of_find_false hf) hr⟩

end FunctionPairs.FileSystem
