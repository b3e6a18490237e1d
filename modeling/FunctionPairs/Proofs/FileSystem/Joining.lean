import FunctionPairs.Proofs.FileSystem.Removal

/-!
Paths joined to the path of a directory. The lookup of such a path gets to the directory and goes
on from there, with the links that are left to it, as the second path does when it starts in the
directory; so what the joined path leads to is what the second one leads to from there. A path to
what is no directory has a parent that leads to the directory where the entry is.
-/
namespace FunctionPairs.FileSystem

open FunctionPairs.Path (moving)

variable {fs : FileSystem} {p q : Path} {a b : Lookup} {d k l : Location} {e : Entry} {s : Name}
  {follow : Bool} {m n : Nat}

theorem resolveSteps_more_links {xs : List Name} (h : fs.resolveSteps follow m l xs = .ok k)
    (more : Nat) : fs.resolveSteps follow (m + more) l xs = .ok k := by
  rw [resolveSteps_eq_ok] at h ⊢
  induction h with
  | done => exact .done
  | here _ ih => exact .here ih
  | up _ ih => exact .up ih
  | enter hs he _ ih => exact .enter hs he ih
  | last hs he => exact .last hs he
  | link hs he hleft => exact .link hs he hleft
  | through hs he hfollowed _ ih =>
    rw [Nat.succ_add]
    exact .through hs he hfollowed ih

theorem Walks.links_le (h : fs.Walks a b) : b.links ≤ a.links := by
  induction h with
  | refl => exact Nat.le_refl _
  | tail _ hstep ih =>
    cases hstep with
    | up => exact ih
    | enter => exact ih
    | follow => exact (Nat.le_succ _).trans ih

theorem length_le_join (hrel : q.isAbsolute = false) (p : Path) :
    q.bytes.length ≤ (p.join q).bytes.length := by
  rw [Path.join_eq hrel]
  split_ifs
  · simp
  · simp only [List.length_append, List.length_cons]
    omega

theorem Sound.nonempty_of_join (hfs : fs.Sound) (hp : p.isEmpty = false)
    (hrel : q.isAbsolute = false) (h : fs.find true (p.join q) = .ok (l, e))
    (he : e.isFile = true) : q.isEmpty = false := by
  by_contra hq
  have hnil : q.bytes = [] := by simpa [Path.isEmpty] using hq
  have hends : (p.join q).endsInSlash = true := by
    rw [Path.join_eq hrel, hp, hnil, Bool.false_or]
    split_ifs with hslash
    · rwa [List.append_nil]
    · simp [Path.endsInSlash]
  rw [hfs.endsInSlash_of_file h he] at hends
  cases hends

theorem Sound.find_of_join (hfs : fs.Sound) (hd : fs.Leads p d) (hp : p.isEmpty = false)
    (hrel : q.isAbsolute = false) (h : fs.find true (p.join q) = .ok (l, e))
    (he : e.isFile = true) : find { fs with working := d } true q = .ok (l, e) := by
  have hq := hfs.nonempty_of_join hp hrel h he
  obtain ⟨hr, hentry⟩ := find_eq_ok.mp h
  have hfits := fits_of_resolve hr
  obtain ⟨m, hw⟩ := hd
  rw [resolve_join hw hp hrel hq hfits] at hr
  have hall : fs.resolveSteps true maxLinks d q.steps = .ok l := by
    obtain ⟨more, hmore⟩ := Nat.exists_eq_add_of_le hw.links_le
    have hmaxLinks : maxLinks = m + more := hmore
    rw [hmaxLinks]
    exact resolveSteps_more_links hr more
  have hkeeps : fs.Keeps { fs with working := d } := fun _ _ hf _ => hf
  have hstart : FileSystem.start { fs with working := d } q = d := by simp [FileSystem.start, hrel]
  refine find_eq_ok.mpr ⟨?_, hentry⟩
  rw [resolve_of_fits ⟨hq, (length_le_join hrel p).trans hfits.2⟩, hstart]
  exact resolveSteps_keeps hkeeps hall fun f hf => .inr hf

theorem Sound.not_directory_of_file (hfs : fs.Sound) (hfile : fs.isFile p = true)
    (h : fs.find false p = .ok (l, e)) : e ≠ .directory := by
  rintro rfl
  obtain ⟨k, contents, x, hfind⟩ := isFile_iff.mp hfile
  have hfits := fits_of_resolve (find_eq_ok.mp hfind).1
  have hdir := (hfs.find_iff_leads hfits).mpr (leads_of_find_false h)
  rw [hfind] at hdir
  cases hdir

theorem Sound.leads_parent (hfs : fs.Sound) (h : fs.find false p = .ok (d ++ [s], e))
    (he : e ≠ .directory) (hq : p.parent = some q) : fs.Leads q d := by
  obtain ⟨zs, t, m, k, hsteps, hw, ht, hk⟩ := designates_of_find_false hfs h he
  obtain ⟨rfl, -⟩ := List.append_inj' hk rfl
  obtain ⟨hroute, habs, -⟩ := Path.parent_eq_some hq
  have hzs : q.route = moving zs := by
    rw [hroute, ← Path.moving_steps, hsteps, Path.moving_append, Path.moving_cons ht.1,
      Path.moving_nil, List.dropLast_concat]
  have horigin : fs.origin q q.route = fs.origin p (moving zs) := by
    simp [origin, FileSystem.start, habs, hzs]
  exact ⟨m, horigin ▸ hw⟩

end FunctionPairs.FileSystem
