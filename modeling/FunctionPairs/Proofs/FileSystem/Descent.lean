import FunctionPairs.Proofs.FileSystem.Placement

/-!
Paths that go on from a directory down into the tree below it. They lead where their names spell,
and at the last of these names, if no link is followed there, is the entry of that name.
-/
namespace FunctionPairs

namespace Path

def descend (p : Path) (r : List Name) : Path := r.foldl child p

variable {p : Path} {r : List Name}

@[simp] theorem descend_nil (p : Path) : p.descend [] = p := rfl

theorem descend_concat (p : Path) (r : List Name) (n : Name) :
    p.descend (r ++ [n]) = (p.descend r).child n := by
  simp [descend, List.foldl_append]

theorem isEmpty_descend (hp : p.isEmpty = false) (hr : ∀ n ∈ r, Name.Moves n) :
    (p.descend r).isEmpty = false := by
  rcases List.eq_nil_or_concat r with rfl | ⟨r, n, rfl⟩
  · exact hp
  · rw [List.concat_eq_append] at hr ⊢
    rw [descend_concat]
    exact isEmpty_child (hr n (by simp)) _

theorem steps_of_moves {n : Name} (hn : n.Moves) : steps ⟨n⟩ = [n] := by
  rw [steps_eq, names_of_moves hn, endsInSlash_of_moves hn]
  rfl

end Path

namespace FileSystem

variable {fs fs' : FileSystem} {p : Path} {d l k : Location} {n : Name} {e : Entry} {r : List Name}

theorem Sound.moves_of_append (hfs : fs.Sound) (h : fs.entryAt (l ++ r) = some e) :
    ∀ n ∈ r, Name.Moves n := fun n hn => hfs.moves_of_mem h n (List.mem_append_right l hn)

theorem Leads.descend (hfs : fs.Sound) (h : fs.Leads p l) (hp : p.isEmpty = false)
    (hdir : fs.entryAt (l ++ r) = some .directory) : fs.Leads (p.descend r) (l ++ r) := by
  induction r using List.reverseRecOn with
  | nil => simpa using h
  | append_singleton r n ih =>
    rw [← List.append_assoc] at hdir ⊢
    have habove := hfs.parents _ n _ hdir
    have hn := hfs.proper _ n _ hdir
    rw [Path.descend_concat]
    exact (ih habove).enter (Path.isEmpty_descend hp (hfs.moves_of_append habove)) hn hdir

section Child

variable (hd : fs.Leads p d) (hp : p.isEmpty = false) (hn : n.Proper)

include hd hp hn

theorem resolve_child (follow : Bool) (hfits : Fits (p.child n))
    (hnot : follow = true → ∀ t, fs.entryAt (d ++ [n]) ≠ some (.link t)) :
    fs.resolve follow (p.child n) = .ok (d ++ [n]) := by
  obtain ⟨m, hw⟩ := hd
  have hne : Path.isEmpty ⟨n⟩ = false := by simpa [Path.isEmpty] using hn.1.1
  rw [Path.child, resolve_join hw hp (Path.isAbsolute_of_moves hn.1) hne hfits,
    Path.steps_of_moves hn.1, resolveSteps_ordinary follow hn.2]
  cases he : fs.entryAt (d ++ [n]) with
  | none => rfl
  | some e =>
    cases e with
    | directory => exact resolveSteps_nil follow
    | file => rfl
    | link t =>
      cases follow with
      | false => rfl
      | true => exact absurd he (hnot rfl t)

theorem linkEntry_child (h : fs.linkEntry (p.child n) = .ok e) :
    Fits (p.child n) ∧ fs.entryAt (d ++ [n]) = some e := by
  unfold linkEntry at h
  cases hfind : fs.find false (p.child n) with
  | error e => simp [hfind, Except.map] at h
  | ok found =>
    obtain ⟨k, f⟩ := found
    obtain ⟨hr, hf⟩ := find_eq_ok.mp hfind
    have hfits := fits_of_resolve hr
    rw [resolve_child hd hp hn false hfits nofun] at hr
    rw [hfind] at h
    cases h
    cases hr
    exact ⟨hfits, hf⟩

theorem find_child (hfits : Fits (p.child n)) (he : fs.entryAt (d ++ [n]) = some e)
    (hlink : ∀ t, e ≠ .link t) : fs.find true (p.child n) = .ok (d ++ [n], e) := by
  refine find_eq_ok.mpr ⟨resolve_child hd hp hn true hfits fun _ t ht => ?_, he⟩
  rw [he] at ht
  exact hlink t (Option.some.inj ht)

end Child

theorem list_of_find (h : fs.find true p = .ok (l, .directory)) :
    fs.list p = .ok ((fs.namesIn l).map p.child) := by
  simp [list, h]

theorem Sound.proper_of_listed (hfs : fs.Sound) (hn : n ∈ fs.namesIn l) : n.Proper := by
  obtain ⟨e, he⟩ := Option.ne_none_iff_exists'.mp (mem_namesIn.mp hn)
  exact hfs.proper l n e he

theorem Sound.fileNames (hfs : fs.Sound) (p : Path) (l : Location) :
    ((fs.namesIn l).map p.child).filterMap Path.fileName = fs.namesIn l := by
  rw [List.filterMap_map]
  refine (List.filterMap_congr fun n hn => ?_).trans List.filterMap_some
  have hproper := hfs.proper_of_listed hn
  exact Path.fileName_of_route (Path.route_child hproper.1 p) hproper.2.2.1

end FileSystem
end FunctionPairs
