import FunctionPairs.Proofs.FileSystem.Creation
import FunctionPairs.Proofs.FileSystem.Listing

/-!
Putting files and directories into a tree. Nothing goes that is there, and if the tree has no links,
what is put behind a path that leads into it stays inside, and nothing outside changes.
-/
namespace FunctionPairs.FileSystem

variable {fs fs' fs'' : FileSystem} {top d l : Location} {p source : Path} {n : Name}

/-- Nothing has gone: directories and links are as they were, and files are still there. -/
structure Lasts (fs fs' : FileSystem) : Prop where
  sound : fs'.Sound
  distinct : fs.Distinct → fs'.Distinct
  working : fs'.working = fs.working
  keeps : fs.Keeps fs'
  there : ∀ k, fs.entryAt k ≠ none → fs'.entryAt k ≠ none

theorem Lasts.refl (h : fs.Sound) : fs.Lasts fs := ⟨h, id, rfl, .refl fs, fun _ => id⟩

theorem Lasts.trans (h : fs.Lasts fs') (h' : fs'.Lasts fs'') : fs.Lasts fs'' :=
  ⟨h'.sound, h'.distinct ∘ h.distinct, h'.working.trans h.working, h.keeps.trans h'.keeps,
    fun k => h'.there k ∘ h.there k⟩

theorem Lasts.put {e : Entry} (hfs : fs.Sound) (hd : fs.entryAt d = some .directory)
    (hn : n.Proper) (hold : ∀ f, fs.entryAt (d ++ [n]) = some f → f.isFile = true) :
    fs.Lasts (fs.put (d ++ [n]) e) := by
  have hne : d ++ [n] ≠ [] := by simp
  have hnot : fs.entryAt (d ++ [n]) ≠ some .directory := by
    intro hdir
    exact absurd (hold _ hdir) (by simp [Entry.isFile])
  refine ⟨hfs.put hd hn (.inl hnot), fun h => h.put _ e, rfl, keeps_put hne hold, fun k hk => ?_⟩
  rw [entryAt_put_cases hne]
  split_ifs
  · exact Option.some_ne_none e
  · exact hk

theorem Lasts.put_writable (hfs : fs.Sound) (hw : fs.writable p = .ok l) (contents : Bytes)
    (x : Bool) :
    fs.Lasts (fs.put l (.file contents x)) ∧ ∀ k,
      (fs.put l (.file contents x)).entryAt k = some .directory → fs.entryAt k = some .directory := by
  obtain ⟨-, -, m, d, s, hwalks, hs, rfl, hold⟩ := writable_eq_ok hfs hw
  refine ⟨.put hfs (hfs.directory_of_walks hwalks (hfs.start p)) hs hold, fun k hk => ?_⟩
  rw [entryAt_put_cases (by simp)] at hk
  split_ifs at hk
  · cases hk
  · exact hk

theorem read_put_writable (hfs : fs.Sound) (hw : fs.writable p = .ok l) (contents : Bytes)
    (x : Bool) : (fs.put l (.file contents x)).read p = .ok contents := by
  obtain ⟨hresolve, -, m, d, s, -, -, rfl, hold⟩ := writable_eq_ok hfs hw
  have hne : d ++ [s] ≠ [] := by simp
  have hthere := fs.entryAt_put hne (.file contents x)
  refine read_eq_ok.mpr ⟨_, x, find_eq_ok.mpr ⟨?_, hthere⟩⟩
  refine resolve_keeps (keeps_put hne hold) rfl hresolve fun e he => .inl ?_
  rw [← Option.some.inj (hthere.symm.trans he)]
  rfl

theorem copy_eq_ok (h : fs.copy source p = .ok fs') :
    ∃ k contents x l, fs.find true source = .ok (k, .file contents x) ∧ fs.writable p = .ok l ∧
      fs' = fs.put l (.file contents x) := by
  unfold copy entry at h
  cases he : fs.find true source with
  | error e =>
    rw [he] at h
    cases h
  | ok found =>
    obtain ⟨k, e⟩ := found
    rw [he] at h
    cases e with
    | directory => cases h
    | link => cases h
    | file contents x =>
      dsimp only [Except.map] at h
      cases hl : fs.writable p with
      | error e =>
        rw [hl] at h
        cases h
      | ok l =>
        rw [hl] at h
        cases h
        exact ⟨k, contents, x, l, rfl, rfl, rfl⟩

theorem put_of_write {contents : Bytes} (h : fs.write p contents = .ok fs') :
    ∃ l, fs.writable p = .ok l ∧ fs' = fs.put l (.file contents (fs.executableAt l)) := by
  unfold write at h
  cases hl : fs.writable p with
  | error e =>
    rw [hl] at h
    cases h
  | ok l =>
    rw [hl] at h
    cases h
    exact ⟨l, rfl, rfl⟩

structure Plain (fs : FileSystem) (top : Location) : Prop where
  sound : fs.Sound
  bare : ∀ k t, top <+: k → fs.entryAt k ≠ some (.link t)

/-- Only the tree at `top` has changed, and there neither directories nor links. -/
structure Fills (top : Location) (fs fs' : FileSystem) : Prop where
  plain : fs'.Plain top
  working : fs'.working = fs.working
  outside : ∀ k, ¬ top <+: k → fs'.entryAt k = fs.entryAt k
  keeps : fs.Keeps fs'

theorem Fills.refl (h : fs.Plain top) : Fills top fs fs := ⟨h, rfl, fun _ _ => rfl, .refl fs⟩

theorem Fills.trans (h : Fills top fs fs') (h' : Fills top fs' fs'') : Fills top fs fs'' :=
  ⟨h'.plain, h'.working.trans h.working,
    fun k hk => (h'.outside k hk).trans (h.outside k hk), h.keeps.trans h'.keeps⟩

theorem Fills.find {q : Path} {k : Location} {e : Entry} (h : Fills top fs fs')
    (hfind : fs.find true q = .ok (k, e)) (hk : e.isFile = true → ¬ top <+: k) :
    fs'.find true q = .ok (k, e) := by
  obtain ⟨hresolve, he⟩ := find_eq_ok.mp hfind
  have hthere : fs'.entryAt k = some e := by
    cases hfile : e.isFile with
    | false => exact h.keeps k e he hfile
    | true => rw [h.outside k (hk hfile), he]
  refine find_eq_ok.mpr ⟨?_, hthere⟩
  refine resolve_keeps h.keeps h.working hresolve fun f hf => .inr ?_
  rw [he, ← hthere, hf]

structure LeadsInto (fs : FileSystem) (top : Location) (p : Path) : Prop where
  nonempty : p.isEmpty = false
  leads : ∃ d, top <+: d ∧ fs.Leads p d

theorem LeadsInto.fills (h : fs.LeadsInto top p) (hfs : Fills top fs fs') :
    fs'.LeadsInto top p := by
  obtain ⟨d, hd, hleads⟩ := h.leads
  exact ⟨h.nonempty, d, hd, hleads.keeps hfs.keeps hfs.working⟩

theorem origin_child (hp : p.isEmpty = false) (hn : n.Moves) (xs : List Name) :
    fs.origin (p.child n) xs = fs.origin p xs := by
  simp [origin, start, Path.isAbsolute_child hn hp]

theorem Leads.child (h : fs.Leads p d) (hp : p.isEmpty = false) (hn : n.Moves) :
    ∃ m, fs.Walks (fs.origin (p.child n) (p.child n).route) ⟨m, d, [n]⟩ := by
  obtain ⟨m, hw⟩ := h
  refine ⟨m, ?_⟩
  rw [origin_child hp hn, Path.route_child hn]
  exact hw.append [n]

theorem Leads.enter (h : fs.Leads p d) (hp : p.isEmpty = false) (hn : n.Proper)
    (hdir : fs.entryAt (d ++ [n]) = some .directory) : fs.Leads (p.child n) (d ++ [n]) := by
  obtain ⟨m, hw⟩ := h.child hp hn.1
  exact ⟨m, hw.tail (.enter hn.2 hdir)⟩

theorem createDirectory_eq_put (hfs : fs.Sound) (hd : fs.Leads p d) (hp : p.isEmpty = false)
    (hn : n.Moves) (hc : fs.createDirectory (p.child n) = .ok fs') :
    n.Proper ∧ fs.entryAt (d ++ [n]) = none ∧ fs' = fs.put (d ++ [n]) .directory := by
  obtain ⟨ys, s, m', d', hroute, hw, hs, hnone, rfl⟩ := createDirectory_eq_ok hfs hc
  rw [Path.route_child hn] at hroute
  obtain ⟨rfl, hns⟩ := List.append_inj' hroute rfl
  cases hns
  rw [origin_child hp hn] at hw
  cases hd.unique ⟨m', hw⟩
  exact ⟨hs, hnone, rfl⟩

namespace Plain

theorem put (h : fs.Plain top) {e : Entry} (htop : top <+: d) (hd : fs.entryAt d = some .directory)
    (hn : n.Proper) (hold : ∀ f, fs.entryAt (d ++ [n]) = some f → f.isFile = true)
    (he : ∀ t, e ≠ .link t) : Fills top fs (fs.put (d ++ [n]) e) := by
  have hlasts : fs.Lasts (fs.put (d ++ [n]) e) := .put h.sound hd hn hold
  refine ⟨⟨hlasts.sound, fun k t hk hlink => ?_⟩, rfl, fun k hk => ?_, hlasts.keeps⟩
  · rw [entryAt_put_cases (by simp)] at hlink
    split_ifs at hlink
    · exact he t (Option.some.inj hlink)
    · exact h.bare k t hk hlink
  · refine entryAt_put_other ?_
    rintro rfl
    exact hk (htop.trans (List.prefix_append d [n]))

theorem createDirectory_put (h : fs.Plain top) (htop : top <+: d) (hd : fs.Leads p d)
    (hp : p.isEmpty = false) (hn : n.Moves) (hc : fs.createDirectory (p.child n) = .ok fs') :
    n.Proper ∧ fs.entryAt (d ++ [n]) = none ∧ fs' = fs.put (d ++ [n]) .directory ∧
      Fills top fs fs' := by
  obtain ⟨hs, hnone, rfl⟩ := createDirectory_eq_put h.sound hd hp hn hc
  refine ⟨hs, hnone, rfl,
    h.put htop (h.sound.directory_of_leads hd) hs (fun f hf => ?_) (fun t => nofun)⟩
  rw [hnone] at hf
  cases hf

theorem createDirectory_child (h : fs.Plain top) (hp : fs.LeadsInto top p) (hn : n.Moves)
    (hc : fs.createDirectory (p.child n) = .ok fs') :
    Fills top fs fs' ∧ fs'.LeadsInto top (p.child n) := by
  obtain ⟨d, htop, hd⟩ := hp.leads
  obtain ⟨hs, -, rfl, hfills⟩ := h.createDirectory_put htop hd hp.nonempty hn hc
  refine ⟨hfills, Path.isEmpty_child hn p, d ++ [n], htop.trans (List.prefix_append d [n]), ?_⟩
  exact (hd.keeps hfills.keeps hfills.working).enter hp.nonempty hs (fs.entryAt_put (by simp) _)

theorem writable_child (h : fs.Plain top) (htop : top <+: d) (hd : fs.Leads p d)
    (hp : p.isEmpty = false) (hn : n.Moves) (hw : fs.writable (p.child n) = .ok l) :
    l = d ++ [n] ∧ n.Proper ∧ ∀ f, fs.entryAt (d ++ [n]) = some f → f.isFile = true := by
  obtain ⟨m, hway⟩ := hd.child hp hn
  obtain ⟨-, -, m', d', s, hwalk, hs, rfl, hfile⟩ := writable_eq_ok h.sound hw
  have hstuck : fs.Stuck ⟨m', d', [s]⟩ := stuck_of_entryAt hs.2.2.1 hfile
  have heq : (⟨m, d, [n]⟩ : Lookup) = ⟨m', d', [s]⟩ := by
    rcases Walks.comparable hway hwalk with hto | hback
    · rcases Relation.ReflTransGen.cases_head hto with heq | ⟨b, hstep, hrest⟩
      · exact heq
      · -- one step on there is nothing left to go, but the file is still ahead
        cases hstep with
        | up => cases Walks.eq_of_stuck hrest stuck_nil
        | enter => cases Walks.eq_of_stuck hrest stuck_nil
        | follow _ hlink => exact absurd hlink (h.bare _ _ (htop.trans (List.prefix_append d [n])))
    · exact (hback.eq_of_stuck hstuck).symm
  cases heq
  exact ⟨rfl, hs, hfile⟩

theorem write_eq_put (h : fs.Plain top) (htop : top <+: d) (hd : fs.Leads p d)
    (hp : p.isEmpty = false) (hn : n.Moves) {contents : Bytes}
    (hw : fs.write (p.child n) contents = .ok fs') :
    fs' = fs.put (d ++ [n]) (.file contents (fs.executableAt (d ++ [n]))) ∧ Fills top fs fs' := by
  obtain ⟨l, hl, rfl⟩ := put_of_write hw
  obtain ⟨rfl, hs, hfile⟩ := h.writable_child htop hd hp hn hl
  exact ⟨rfl, h.put htop (h.sound.directory_of_leads hd) hs hfile (fun t => nofun)⟩

theorem copy_eq_put (h : fs.Plain top) (htop : top <+: d) (hd : fs.Leads p d)
    (hp : p.isEmpty = false) (hn : n.Moves) (hc : fs.copy source (p.child n) = .ok fs') :
    ∃ l contents x, fs.find true source = .ok (l, .file contents x) ∧
      fs' = fs.put (d ++ [n]) (.file contents x) ∧ Fills top fs fs' := by
  obtain ⟨k, contents, x, l, hfind, hl, rfl⟩ := copy_eq_ok hc
  obtain ⟨rfl, hs, hfile⟩ := h.writable_child htop hd hp hn hl
  exact ⟨k, contents, x, hfind, rfl,
    h.put htop (h.sound.directory_of_leads hd) hs hfile (fun t => nofun)⟩

theorem write_child (h : fs.Plain top) (hp : fs.LeadsInto top p) (hn : n.Moves) {contents : Bytes}
    (hw : fs.write (p.child n) contents = .ok fs') : Fills top fs fs' := by
  obtain ⟨d, htop, hd⟩ := hp.leads
  exact (h.write_eq_put htop hd hp.nonempty hn hw).2

theorem copy_child (h : fs.Plain top) (hp : fs.LeadsInto top p) (hn : n.Moves)
    (hc : fs.copy source (p.child n) = .ok fs') : Fills top fs fs' := by
  obtain ⟨d, htop, hd⟩ := hp.leads
  obtain ⟨l, contents, x, -, -, hfills⟩ := h.copy_eq_put htop hd hp.nonempty hn hc
  exact hfills

end Plain

end FunctionPairs.FileSystem
