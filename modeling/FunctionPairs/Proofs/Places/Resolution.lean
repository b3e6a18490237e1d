import FunctionPairs.Places
import FunctionPairs.Proofs.FileSystem.Frontier
import FunctionPairs.Proofs.FileSystem.Removal

/-!
What the absolute form of a path spells. If the path leads to something, it spells the place of
that; if the path has a frontier, it spells the place that the path will lead to once its
directories have been made.
-/
namespace FunctionPairs

open FileSystem (Fits maxPathLength maxLinks find_eq_ok)

variable {fs : FileSystem} {p q : Path} {d l : Location} {e : Entry} {s : Name}
  {ys rest : List Name}

theorem filterMap_components {f : Component → Option Name} (hname : ∀ n, f (.name n) = some n)
    (hup : f .up = some Name.up) (hroot : f .root = none) (hhere : f .here = none) (p : Path) :
    p.components.filterMap f = p.route := by
  have hinner : ∀ ns : List Name, (ns.map Path.component).filterMap f = ns := by
    intro ns
    induction ns with
    | nil => rfl
    | cons n ns ih =>
      have hn : f (Path.component n) = some n := by
        unfold Path.component
        split_ifs with h
        · rw [hup, h]
        · exact hname n
      rw [List.map_cons, List.filterMap_cons_some hn, ih]
  cases hp : p.isAbsolute with
  | true => rw [Path.components_of_isAbsolute hp, List.filterMap_cons_none hroot, hinner]
  | false =>
    rw [Path.components_of_not_isAbsolute hp, List.filterMap_append, hinner]
    split_ifs
    · rw [List.filterMap_cons_none hhere]
      rfl
    · rfl

theorem join_empty {l : Location} (hl : ∀ m ∈ l, Name.Moves m) :
    (l.path.join .empty).isAbsolute = true ∧ (l.path.join .empty).isEmpty = false ∧
      (l.path.join .empty).route = l := by
  have hkeep : ∀ bs, Path.isAbsolute ⟨l.path.bytes ++ bs⟩ = true ∧
      Path.isEmpty ⟨l.path.bytes ++ bs⟩ = false := by
    intro bs
    have hempty := Path.isEmpty_path l
    refine ⟨(Path.isAbsolute_append hempty bs).trans (Path.isAbsolute_path l), ?_⟩
    have hne : l.path.bytes ≠ [] := by simpa [Path.isEmpty] using hempty
    simp [Path.isEmpty, hne]
  have hnot : Path.empty.isAbsolute = false := rfl
  unfold Path.join
  rw [hnot, if_neg Bool.false_ne_true]
  split_ifs
  · refine ⟨(hkeep _).1, (hkeep _).2, ?_⟩
    show Path.route ⟨l.path.bytes ++ []⟩ = l
    rw [List.append_nil]
    exact Path.route_path hl
  · refine ⟨(hkeep _).1, (hkeep _).2, ?_⟩
    exact (Path.route_congr (Path.names_mk_concat_slash l.path.bytes)).trans (Path.route_path hl)

namespace FileSystem

theorem absolute_of_sound (hfs : fs.Sound) (hp : p.isEmpty = false) :
    ∃ full, fs.absolute p = .ok full ∧ full.isAbsolute = true ∧ full.isEmpty = false ∧
      full.route = fs.start p ++ p.route ∧
      (p.endsInSlash = false → full = Location.path (fs.start p ++ p.route)) := by
  have hstart := hfs.moves_of_mem (hfs.start p)
  have hroute : ∀ m ∈ p.route, Name.Moves m := fun m hm => Path.moves_of_mem_route hm
  have hall : ∀ m ∈ fs.start p ++ p.route, Name.Moves m := by
    intro m hm
    rcases List.mem_append.mp hm with hm | hm
    · exact hstart m hm
    · exact hroute m hm
  have hspelled : p.route.foldl Path.child (if p.isAbsolute then Location.path [] else fs.working.path) =
      Location.path (fs.start p ++ p.route) := by
    rw [← Path.path_foldl_child hstart hroute]
    unfold start
    split_ifs <;> rfl
  unfold absolute
  rw [hp, if_neg Bool.false_ne_true]
  dsimp only
  rw [filterMap_components (fun _ => rfl) rfl rfl rfl, hspelled]
  cases hslash : p.endsInSlash with
  | false =>
    exact ⟨_, rfl, Path.isAbsolute_path _, Path.isEmpty_path _, Path.route_path hall, fun _ => rfl⟩
  | true =>
    obtain ⟨habs, hempty, hjroute⟩ := join_empty hall
    exact ⟨_, rfl, habs, hempty, hjroute, nofun⟩

/-- Both the path and its absolute form are short enough to be looked up. -/
def Short (fs : FileSystem) (p : Path) : Prop :=
  p.bytes.length ≤ maxPathLength ∧ ∀ full, fs.absolute p = .ok full → full.bytes.length ≤ maxPathLength

theorem Short.congr {fs' : FileSystem} (h : fs.Short p) (hworking : fs'.working = fs.working) :
    fs'.Short p := by
  have habsolute : fs'.absolute p = fs.absolute p := by simp [absolute, hworking]
  exact ⟨h.1, habsolute ▸ h.2⟩

end FileSystem

namespace Places

open FileSystem (Short Frontier)

variable {n : Nat} {xs zs missing : List Name}

theorem origin_of_isAbsolute (habs : q.isAbsolute = true) :
    fs.origin q xs = ⟨maxLinks, [], xs⟩ := by
  simp [FileSystem.origin, FileSystem.start, habs]

theorem not_find_behind {found : Location × Entry} (habs : q.isAbsolute = true)
    (hroute : q.route = xs ++ zs) (hw : fs.Walks ⟨maxLinks, [], xs⟩ ⟨n, d, []⟩) (hzs : zs ≠ [])
    (hup : Name.up ∉ zs) (hmissing : ∀ s ∈ zs.head?, fs.entryAt (d ++ [s]) = none) :
    fs.find true q ≠ .ok found := by
  obtain ⟨s, rest, rfl⟩ := List.exists_cons_of_ne_nil hzs
  have hway : fs.Walks (fs.origin q q.route) ⟨n, d, s :: rest⟩ := by
    rw [origin_of_isAbsolute habs, hroute]
    exact hw.append (s :: rest)
  exact FileSystem.not_find_of_missing hway (fun hs => hup (by simp [hs])) (hmissing s rfl)

theorem resolveFrom_of_walks (hfs : fs.Sound) (full : Path) {fuel : Nat} (hfuel : zs.length < fuel)
    (habs : q.isAbsolute = true) (hq : Fits q) (hroute : q.route = xs ++ zs)
    (hw : fs.Walks ⟨maxLinks, [], xs⟩ ⟨n, d, []⟩) (hup : Name.up ∉ zs)
    (hmissing : ∀ s ∈ zs.head?, fs.entryAt (d ++ [s]) = none) :
    resolveFrom fs full fuel q missing = (zs ++ missing).foldl Path.child d.path := by
  -- each step up takes the last of the missing names from the route and puts it before those taken
  induction fuel generalizing q zs missing with
  | zero => exact absurd hfuel (Nat.not_lt_zero _)
  | succ fuel ih =>
    unfold resolveFrom FileSystem.canonical
    rcases List.eq_nil_or_concat zs with rfl | ⟨zs, z, rfl⟩
    · have hleads : fs.Leads q d := by
        refine ⟨n, ?_⟩
        rw [origin_of_isAbsolute habs, hroute, List.append_nil]
        exact hw
      rw [(hfs.find_iff_leads hq).mpr hleads]
      rfl
    · rw [List.concat_eq_append] at hfuel hroute hup hmissing ⊢
      have hbehind := hroute
      rw [← List.append_assoc] at hroute
      obtain ⟨above, hparent, haroute⟩ := Path.exists_parent hroute
      obtain ⟨-, haabs, halen⟩ := Path.parent_eq_some hparent
      rw [habs] at haabs
      have hz : z ≠ Name.up := fun hz => hup (by simp [hz])
      have ha : Fits above := ⟨Path.isEmpty_of_isAbsolute haabs, halen.trans hq.2⟩
      cases hfind : fs.find true q with
      | ok found => exact absurd hfind (not_find_behind habs hbehind hw (by simp) hup hmissing)
      | error e =>
        dsimp only [Except.map]
        rw [hparent, Path.fileName_of_route hroute hz]
        dsimp only
        rw [List.length_append, List.length_singleton] at hfuel
        rw [ih (by omega) haabs ha haroute (fun h => hup (by simp [h])) ?_, List.append_assoc]
        · rfl
        · intro s hs
          refine hmissing s ?_
          rw [List.head?_append_of_ne_nil]
          · exact hs
          · rintro rfl
            cases hs

theorem resolve_of_walks (hfs : fs.Sound) (hp : p.isEmpty = false) (hshort : fs.Short p)
    (hroute : p.route = ys ++ zs) (hw : fs.Walks (fs.origin p ys) ⟨n, d, []⟩) (hup : Name.up ∉ zs)
    (hmissing : ∀ s ∈ zs.head?, fs.entryAt (d ++ [s]) = none) :
    resolve fs p = .ok (Location.path (d ++ zs)) := by
  obtain ⟨full, habsolute, habs, hempty, hfroute, -⟩ := FileSystem.absolute_of_sound hfs hp
  rw [hroute, ← List.append_assoc] at hfroute
  have hfull : Fits full := ⟨hempty, hshort.2 full habsolute⟩
  have hstart := hfs.start p
  have hdown : fs.Walks ⟨maxLinks, [], fs.start p ++ ys⟩ ⟨maxLinks, fs.start p, ys⟩ :=
    hfs.walks_down (l := []) hstart
  have hd := hfs.directory_of_walks hw hstart
  have hzs : ∀ m ∈ zs, Name.Moves m := fun m hm =>
    Path.moves_of_mem_route (p := p) (by rw [hroute]; exact List.mem_append_right ys hm)
  have hfuel : zs.length < full.components.length + 1 := by
    have hlength := congrArg List.length hfroute
    have hle := FileSystem.length_route_le full
    rw [List.length_append] at hlength
    omega
  unfold resolve
  rw [habsolute]
  dsimp only
  rw [resolveFrom_of_walks hfs full hfuel habs hfull hfroute (hdown.trans hw) hup hmissing,
    List.append_nil, Path.path_foldl_child (hfs.moves_of_mem hd) hzs]

theorem resolve_of_leads (hfs : fs.Sound) (hp : p.isEmpty = false) (hshort : fs.Short p)
    (h : fs.Leads p l) : resolve fs p = .ok l.path := by
  obtain ⟨n, hw⟩ := h
  have hroute : p.route = p.route ++ [] := (List.append_nil _).symm
  have h := resolve_of_walks hfs hp hshort hroute hw (by simp) (by simp)
  rwa [List.append_nil] at h

theorem resolve_of_frontier (hfs : fs.Sound) (hp : p.isEmpty = false) (hshort : fs.Short p)
    (h : fs.Frontier p ys d s rest) : resolve fs p = .ok (Location.path (d ++ s :: rest)) := by
  obtain ⟨n, hw⟩ := h.way
  refine resolve_of_walks hfs hp hshort h.route hw h.falls fun m hm => ?_
  rw [← Option.some.inj hm]
  exact h.missing

theorem exists_way_to_file (hfs : fs.Sound) (h : fs.find false p = .ok (l, e))
    (he : e.isFile = true) :
    ∃ xs t n d, p.endsInSlash = false ∧ p.route = xs ++ [t] ∧
      fs.Walks (fs.origin p xs) ⟨n, d, []⟩ ∧ t.Ordinary ∧ l = d ++ [t] := by
  have hne : e ≠ .directory := by
    rintro rfl
    cases he
  obtain ⟨zs, t, n, d, hsteps, hw, ht, hl⟩ := FileSystem.designates_of_find_false hfs h hne
  have hslash : p.endsInSlash = false := by
    by_contra hnot
    have hlast := Path.getLast?_steps (p := p) (by simpa using hnot)
    rw [hsteps, List.getLast?_concat] at hlast
    rcases hlast with hlast | hlast
    · exact absurd hlast (by simp)
    · exact ht.1 (Option.some.inj hlast)
  have hroute : p.route = Path.moving zs ++ [t] := by
    rw [← Path.moving_steps, hsteps, Path.moving_append, Path.moving_cons ht.1, Path.moving_nil]
  exact ⟨Path.moving zs, t, n, d, hslash, hroute, hw, ht, hl⟩

theorem resolve_of_file (hfs : fs.Sound) (hshort : fs.Short p)
    (h : fs.find false p = .ok (l, e)) (he : e.isFile = true) : resolve fs p = .ok l.path := by
  obtain ⟨hr, hentry⟩ := find_eq_ok.mp h
  obtain ⟨xs, t, n, d, hslash, hroute, hw, ht, rfl⟩ := exists_way_to_file hfs h he
  obtain ⟨full, habsolute, habs, hempty, hfroute, hspelled⟩ :=
    FileSystem.absolute_of_sound hfs (FileSystem.fits_of_resolve hr).1
  have hfull : Fits full := ⟨hempty, hshort.2 full habsolute⟩
  have hmoves : ∀ m ∈ (fs.start p ++ xs) ++ [t], Name.Moves m := by
    intro m hm
    rw [List.append_assoc, ← hroute, ← hfroute] at hm
    exact Path.moves_of_mem_route hm
  have hsteps : full.steps = (fs.start p ++ xs) ++ [t] := by
    rw [hspelled hslash, hroute, ← List.append_assoc, Path.steps_eq, Path.endsInSlash_path hmoves,
      Path.names_path hmoves]
    rfl
  have hdown : fs.Walks ⟨maxLinks, [], fs.start p ++ xs⟩ ⟨n, d, []⟩ :=
    (hfs.walks_down (l := []) (hfs.start p)).trans hw
  have hmoving : Path.moving (fs.start p ++ xs) = fs.start p ++ xs := by
    refine List.filter_eq_self.mpr fun m hm => ?_
    simpa using (hmoves m (List.mem_append_left _ hm)).2.2
  have hresolve : fs.resolve true full = .ok (d ++ [t]) := by
    have hstart : fs.start full = [] := by simp [FileSystem.start, habs]
    rw [FileSystem.resolve_of_fits hfull, hstart, hsteps]
    refine (FileSystem.resolveSteps_of_walks hdown rfl hmoving (.inl rfl)).trans ?_
    refine FileSystem.resolveSteps_last ht fun f hf => ?_
    rw [hentry] at hf
    rwa [← Option.some.inj hf]
  have hfind : fs.find true full = .ok (d ++ [t], e) := find_eq_ok.mpr ⟨hresolve, hentry⟩
  unfold resolve
  rw [habsolute]
  dsimp only
  unfold resolveFrom FileSystem.canonical
  rw [hfind]
  rfl

end Places
end FunctionPairs
