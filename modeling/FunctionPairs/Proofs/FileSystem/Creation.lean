import FunctionPairs.Proofs.FileSystem.Finding

/-!
Making directories. Nothing that exists is changed, whether the making succeeds or not: what is
new are directories, each of them where one of the paths leads. Unless all of it is there
already, the first directory made says where the others go.
-/
namespace FunctionPairs.FileSystem

variable {fs fs' fs'' : FileSystem} {p q : Path} {ps qs : List Path} {k l : Location} {e : Entry}

structure Grows (fs fs' : FileSystem) : Prop where
  working : fs'.working = fs.working
  old : ∀ l e, fs.entryAt l = some e → fs'.entryAt l = some e

namespace Grows

theorem refl (fs : FileSystem) : fs.Grows fs := ⟨rfl, fun _ _ h => h⟩

theorem trans (h : fs.Grows fs') (h' : fs'.Grows fs'') : fs.Grows fs'' :=
  ⟨h'.working.trans h.working, fun l e he => h'.old l e (h.old l e he)⟩

theorem keeps (h : fs.Grows fs') : fs.Keeps fs' := fun l e he _ => h.old l e he

theorem leads (h : fs.Grows fs') (hp : fs.Leads p l) : fs'.Leads p l :=
  hp.keeps h.keeps h.working

theorem find (h : fs.Grows fs') (hp : fs.find true p = .ok (l, e)) :
    fs'.find true p = .ok (l, e) := by
  obtain ⟨hr, he⟩ := find_eq_ok.mp hp
  have he' := h.old l e he
  refine find_eq_ok.mpr ⟨resolve_keeps h.keeps h.working hr fun f hf => .inr ?_, he'⟩
  rw [he, ← hf, he']

end Grows

/-- The file system has grown by directories to which some of the paths lead. -/
structure Built (ps : List Path) (fs fs' : FileSystem) : Prop extends Grows fs fs' where
  sound : fs'.Sound
  new : ∀ l e, fs'.entryAt l = some e → fs.entryAt l = some e ∨
    fs.entryAt l = none ∧ e = .directory ∧ ∃ q ∈ ps, fs'.Leads q l

theorem Built.refl (hfs : fs.Sound) : Built ps fs fs := ⟨.refl fs, hfs, fun _ _ h => .inl h⟩

theorem Built.trans (h : Built ps fs fs') (h' : Built ps fs' fs'') : Built ps fs fs'' := by
  refine ⟨h.toGrows.trans h'.toGrows, h'.sound, fun l e he => ?_⟩
  rcases h'.new l e he with he' | ⟨hnone, hdir, hq⟩
  · rcases h.new l e he' with he | ⟨hnone, hdir, q, hq, hleads⟩
    · exact .inl he
    · exact .inr ⟨hnone, hdir, q, hq, h'.toGrows.leads hleads⟩
  · refine .inr ⟨?_, hdir, hq⟩
    by_contra hne
    obtain ⟨f, hf⟩ := Option.ne_none_iff_exists'.mp hne
    rw [h.old l f hf] at hnone
    cases hnone

theorem Built.mono (h : Built ps fs fs') (hsub : ps ⊆ qs) : Built qs fs fs' := by
  refine ⟨h.toGrows, h.sound, fun l e he => ?_⟩
  rcases h.new l e he with he | ⟨hnone, hdir, q, hq, hleads⟩
  · exact .inl he
  · exact .inr ⟨hnone, hdir, q, hsub hq, hleads⟩

theorem createDirectory_built (hfs : fs.Sound) (h : fs.createDirectory p = .ok fs') :
    Built [p] fs fs' ∧ ∃ l, fs'.Leads p l := by
  obtain ⟨ys, s, n, d, hroute, hw, hs, hnone, rfl⟩ := createDirectory_eq_ok hfs h
  have hne : d ++ [s] ≠ [] := by simp
  have hdir := hfs.directory_of_walks hw (hfs.start p)
  have hgrows : fs.Grows (fs.put (d ++ [s]) .directory) := by
    refine ⟨rfl, fun k f hf => ?_⟩
    rw [entryAt_put_cases hne]
    split_ifs with hk
    · rw [hk, hnone] at hf
      cases hf
    · exact hf
  have hleads : (fs.put (d ++ [s]) .directory).Leads p (d ++ [s]) := by
    have hstep : (fs.put (d ++ [s]) .directory).Step ⟨n, d, [s]⟩ ⟨n, d ++ [s], []⟩ :=
      .enter hs.2 (fs.entryAt_put hne _)
    refine ⟨n, ?_⟩
    rw [hroute]
    exact ((hw.append [s]).keeps hgrows.keeps).tail hstep
  refine ⟨⟨hgrows, hfs.put hdir hs (.inr rfl), fun k f hf => ?_⟩, d ++ [s], hleads⟩
  rw [entryAt_put_cases hne] at hf
  split_ifs at hf with hk
  · exact .inr ⟨hk ▸ hnone, (Option.some.inj hf).symm, p, by simp, hk ▸ hleads⟩
  · exact .inl hf

theorem exists_leads_of_isDirectory (hfs : fs.Sound) (hp : fs.isDirectory p = true) :
    ∃ l, fs.Leads p l := by
  obtain ⟨l, hl⟩ := isDirectory_iff.mp hp
  exact ⟨l, (hfs.find_iff_leads (fits_of_resolve (find_eq_ok.mp hl).1)).mp hl⟩

theorem createChain_cons {r : Except SystemError Unit} (h : fs.createChain (p :: ps) = (r, fs')) :
    (fs' = fs ∧ (r = .ok () → p.isEmpty = true ∨ fs.isDirectory p = true)) ∨
      fs.createDirectory p = .ok fs' ∨
      ∃ r₁ fs₁, fs.createChain ps = (r₁, fs₁) ∧
        ((fs' = fs₁ ∧ (r = .ok () → fs₁.isDirectory p = true)) ∨
          fs₁.createDirectory p = .ok fs') := by
  unfold createChain at h
  split_ifs at h with hthere
  · cases h
    rw [Bool.or_eq_true] at hthere
    exact .inl ⟨rfl, fun _ => hthere⟩
  · split at h
    · next fs₁ hmade =>
      cases h
      exact .inr (.inl hmade)
    · -- the parent is missing: once the others are made, the path is tried again
      cases habove : fs.createChain ps with
      | mk r₁ fs₁ =>
        refine .inr (.inr ⟨r₁, fs₁, rfl, ?_⟩)
        rw [habove] at h
        cases r₁ with
        | error e =>
          cases h
          exact .inl ⟨rfl, nofun⟩
        | ok u =>
          dsimp only at h
          split at h
          · next fs₂ hmade =>
            cases h
            exact .inr hmade
          · split_ifs at h with hdir
            · cases h
              exact .inl ⟨rfl, fun _ => hdir⟩
            · cases h
              exact .inl ⟨rfl, nofun⟩
    · cases h
      exact .inl ⟨rfl, nofun⟩

theorem createChain_built (hfs : fs.Sound) {r : Except SystemError Unit}
    (h : fs.createChain ps = (r, fs')) :
    Built ps fs fs' ∧ (r = .ok () → ∀ p ∈ ps.head?, p.isEmpty = true ∨ ∃ l, fs'.Leads p l) ∧
      (fs' = fs ∨ ∃ q ∈ ps, ∃ fs₁, fs.createDirectory q = .ok fs₁) := by
  induction ps generalizing fs' r with
  | nil =>
    cases h
    exact ⟨.refl hfs, by simp, .inl rfl⟩
  | cons p above ih =>
    simp only [List.head?_cons, Option.mem_some_iff, forall_eq']
    rcases createChain_cons h with ⟨rfl, hthere⟩ | hmade | ⟨r₁, fs₁, habove, hrest⟩
    · exact ⟨.refl hfs, fun hr => (hthere hr).imp_right (exists_leads_of_isDirectory hfs), .inl rfl⟩
    · obtain ⟨hbuilt, hleads⟩ := createDirectory_built hfs hmade
      exact ⟨hbuilt.mono (by simp), fun _ => .inr hleads, .inr ⟨p, by simp, fs', hmade⟩⟩
    · obtain ⟨hbuilt, -, hfirst⟩ := ih habove
      have hfirst : fs₁ = fs ∨ ∃ q ∈ p :: above, ∃ fs₁, fs.createDirectory q = .ok fs₁ :=
        hfirst.imp_right fun ⟨q, hq, h⟩ => ⟨q, List.mem_cons_of_mem p hq, h⟩
      have hbuilt : Built (p :: above) fs fs₁ := hbuilt.mono (List.subset_cons_self p above)
      rcases hrest with ⟨rfl, hthere⟩ | hmade
      · exact ⟨hbuilt, fun hr => .inr (exists_leads_of_isDirectory hbuilt.sound (hthere hr)), hfirst⟩
      · obtain ⟨hmore, hleads⟩ := createDirectory_built hbuilt.sound hmade
        refine ⟨hbuilt.trans (hmore.mono (by simp)), fun _ => .inr hleads, .inr ?_⟩
        rcases hfirst with rfl | hfirst
        · exact ⟨p, by simp, fs', hmade⟩
        · exact hfirst

end FunctionPairs.FileSystem
