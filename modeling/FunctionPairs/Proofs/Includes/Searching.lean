import Mathlib
import FunctionPairs.Config
import FunctionPairs.Include

-- The whole library, since the evaluation of fixed inputs unfolds functions on text from all of it.

/-!
The search for the file that an include names. One list has all the paths that are tried, in their
order, and the first of them that is a file is the answer. More system directories make the list
longer at its end; a greater depth puts further paths behind the directories above the including
file. So neither loses an answer, and none that was found in a directory above is given up. Of the
system directories those that are configured come first, all of them exist, and none is there twice,
however it is spelled.
-/
namespace FunctionPairs

namespace FileSystem

theorem walkBelow_sublist (fs : FileSystem) {depth deeper : Nat} (h : depth ≤ deeper) (p : Path)
    (l : Location) : (fs.walkBelow depth p l).Sublist (fs.walkBelow deeper p l) := by
  induction depth generalizing deeper p l with
  | zero => exact List.nil_sublist _
  | succ depth ih =>
    obtain ⟨deeper, rfl⟩ := Nat.exists_eq_add_of_lt h
    rw [walkBelow, walkBelow]
    refine List.Sublist.flatMap_right _ fun n _ => ?_
    cases fs.entryAt (l ++ [n]) with
    | none => exact List.Sublist.refl _
    | some e =>
      cases e with
      | directory => exact (ih (Nat.le_of_succ_le_succ h) _ _).cons_cons _
      | file => exact List.Sublist.refl _
      | link => exact List.Sublist.refl _

theorem directoriesBelow_sublist (fs : FileSystem) {depth deeper : Nat} (h : depth ≤ deeper)
    (p : Path) : (fs.directoriesBelow p depth).Sublist (fs.directoriesBelow p deeper) := by
  have hmin : min depth fs.depth ≤ min deeper fs.depth := by omega
  unfold directoriesBelow
  split
  · exact (fs.walkBelow_sublist hmin _ _).filterMap _
  · exact List.Sublist.refl _

theorem directoriesBelow_zero (fs : FileSystem) (p : Path) : fs.directoriesBelow p 0 = [] := by
  unfold directoriesBelow
  split
  · rw [Nat.zero_min, walkBelow, List.filterMap_nil]
  · rfl

end FileSystem

namespace Config

variable {seen ps : List Path} {p : Path}

theorem dropSame_append (qs : List Path) :
    dropSame seen (ps ++ qs) = dropSame (dropSame seen ps) qs := by
  induction ps generalizing seen with
  | nil => rfl
  | cons p ps ih => exact ih

theorem prefix_dropSame : seen <+: dropSame seen ps := by
  induction ps generalizing seen with
  | nil => exact List.prefix_refl seen
  | cons p ps ih =>
    refine List.IsPrefix.trans ?_ ih
    split
    · exact List.prefix_refl seen
    · exact List.prefix_append seen [p]

theorem mem_of_mem_dropSame (h : p ∈ dropSame seen ps) : p ∈ seen ∨ p ∈ ps := by
  induction ps generalizing seen with
  | nil => exact .inl h
  | cons q ps ih =>
    rcases ih h with hseen | hlater
    · split at hseen
      · exact .inl hseen
      · rcases List.mem_append.mp hseen with hseen | hq
        · exact .inl hseen
        · exact .inr (List.mem_cons.mpr (.inl (List.mem_singleton.mp hq)))
    · exact .inr (List.mem_cons_of_mem q hlater)

theorem exists_same_of_mem (h : p ∈ ps) : ∃ q ∈ dropSame seen ps, p.same q = true := by
  induction ps generalizing seen with
  | nil => cases h
  | cons q ps ih =>
    rcases List.mem_cons.mp h with rfl | hlater
    · rw [dropSame]
      split
      · next hsame =>
        obtain ⟨q, hq, hpq⟩ := List.any_eq_true.mp hsame
        exact ⟨q, prefix_dropSame.subset hq, hpq⟩
      · exact ⟨p, prefix_dropSame.subset (by simp), by simp [Path.same]⟩
    · exact ih hlater

theorem distinct_dropSame (h : seen.Pairwise fun p q => q.same p = false) :
    (dropSame seen ps).Pairwise fun p q => q.same p = false := by
  induction ps generalizing seen with
  | nil => exact h
  | cons p ps ih =>
    refine ih ?_
    split
    · exact h
    · next hnew =>
      refine List.pairwise_append.mpr ⟨h, List.pairwise_singleton _ p, fun q hq r hr => ?_⟩
      rw [List.mem_singleton.mp hr]
      exact Bool.eq_false_iff.mpr fun hsame => hnew (List.any_eq_true.mpr ⟨q, hq, hsame⟩)

theorem includeDirs_spec (c : Config) (fs : FileSystem) (home : Path) :
    let configured := (c.libraryDirs.map (expandTilde home)).filter fs.isDirectory
    let dirs := c.includeDirs fs home
    dropSame [] configured <+: dirs ∧
      (∀ d ∈ dirs, fs.isDirectory d = true ∧ d ∈ configured ++ Places.defaultIncludeDirs fs) ∧
      (∀ d ∈ configured ++ Places.defaultIncludeDirs fs, ∃ e ∈ dirs, d.same e = true) ∧
      dirs.Pairwise fun p q => q.same p = false := by
  intro configured dirs
  refine ⟨?_, fun d hd => ?_, fun d hd => exists_same_of_mem hd, distinct_dropSame .nil⟩
  · rw [show dirs = _ from dropSame_append _]
    exact prefix_dropSame
  · have hmem := (mem_of_mem_dropSame hd).resolve_left List.not_mem_nil
    refine ⟨?_, hmem⟩
    rcases List.mem_append.mp hmem with h | h
    · exact (List.mem_filter.mp h).2
    · exact (List.mem_filter.mp h).2

example :
    let place := fun s => (Path.ofString s).steps
    let fs : FileSystem :=
      ⟨[(place "/usr", .directory), (place "/usr/include", .directory),
        (place "/usr/lib", .directory), (place "/usr/lib/clang", .directory),
        (place "/usr/lib/clang/9", .directory), (place "/usr/lib/clang/9/include", .directory),
        (place "/usr/lib/clang/README", .file [] false),
        (place "/usr/lib/clang/18", .directory), (place "/usr/lib/clang/18/include", .directory),
        (place "/inc", .directory)], []⟩
    ({ Config.standard with libraryDirs := ["/none", "/usr//include", "~"] }.includeDirs fs
        (.ofString "/inc")).map Path.display =
      ["/usr//include", "/inc", "/usr/lib/clang/18/include", "/usr/lib/clang/9/include"] := by
  cbv

end Config

namespace IncludeResolver

def searched (r : IncludeResolver) (fs : FileSystem) (source : Path) (system : Bool) : List Path :=
  let parents := searchedParents source
  (if system then [] else parents ++ parents.flatMap fun p => fs.directoriesBelow p r.childDepth) ++
    r.systemDirs

def candidates (r : IncludeResolver) (fs : FileSystem) (source : Path) (i : Include) : List Path :=
  let target := Path.ofString i.target
  if target.isAbsolute then [target] else (r.searched fs source i.system).map (·.join target)

variable {r : IncludeResolver} {fs : FileSystem} {source p : Path} {i : Include}
  {dirs more : List Path} {depth deeper : Nat}

theorem findLocal_eq (r : IncludeResolver) (fs : FileSystem) (source target : Path) :
    r.findLocal fs source target =
      fileIn fs (searchedParents source ++
        (searchedParents source).flatMap fun p => fs.directoriesBelow p r.childDepth) target := by
  unfold findLocal fileIn
  rw [List.map_append, List.find?_append]
  dsimp only
  cases ((searchedParents source).map (·.join target)).find? fs.isFile with
  | some found => rfl
  | none =>
    dsimp only
    rw [Option.none_or]
    split_ifs with h
    · have hbelow : ((searchedParents source).flatMap fun p => fs.directoriesBelow p 0) = [] :=
        List.flatMap_eq_nil_iff.mpr fun p _ => fs.directoriesBelow_zero p
      rw [h, hbelow]
      rfl
    · rfl

theorem resolve_eq_find? (r : IncludeResolver) (fs : FileSystem) (source : Path) (i : Include) :
    r.resolve fs source i = (r.candidates fs source i).find? fs.isFile := by
  unfold resolve candidates searched
  dsimp only
  by_cases habs : (Path.ofString i.target).isAbsolute = true
  · rw [if_pos habs, if_pos habs, List.find?_singleton]
  · rw [if_neg habs, if_neg habs, List.map_append, List.find?_append]
    cases i.system with
    | true => rfl
    | false =>
      rw [if_neg Bool.false_ne_true, if_neg Bool.false_ne_true, findLocal_eq]
      unfold fileIn
      cases List.find? fs.isFile _ <;> rfl

theorem isFile_of_resolve (h : r.resolve fs source i = some p) : fs.isFile p = true := by
  rw [resolve_eq_find?] at h
  exact List.find?_some h

theorem candidates_append (dirs more : List Path) (depth : Nat) (fs : FileSystem) (source : Path)
    (i : Include) :
    candidates ⟨dirs, depth⟩ fs source i <+: candidates ⟨dirs ++ more, depth⟩ fs source i := by
  unfold candidates searched
  dsimp only
  split_ifs
  · exact List.prefix_rfl
  all_goals exact (List.prefix_append_right_inj _ |>.mpr (List.prefix_append _ _)).map _

theorem candidates_sublist (h : depth ≤ deeper) (dirs : List Path) (fs : FileSystem)
    (source : Path) (i : Include) :
    (candidates ⟨dirs, depth⟩ fs source i).Sublist (candidates ⟨dirs, deeper⟩ fs source i) := by
  unfold candidates searched
  dsimp only
  split_ifs
  · exact List.Sublist.refl _
  · exact List.Sublist.refl _
  · have hbelow := List.Sublist.flatMap_right (searchedParents source) fun p _ =>
      fs.directoriesBelow_sublist h p
    exact (((List.Sublist.refl _).append hbelow).append (List.Sublist.refl _)).map _

theorem resolve_of_near (hquoted : i.system = false)
    (hrel : (Path.ofString i.target).isAbsolute = false)
    (h : fileIn fs (searchedParents source) (Path.ofString i.target) = some p)
    (r : IncludeResolver) : r.resolve fs source i = some p := by
  unfold resolve findLocal
  simp [hquoted, hrel, h]

theorem near_of_resolve (hquoted : i.system = false)
    (hrel : (Path.ofString i.target).isAbsolute = false) (h : r.resolve fs source i = some p)
    (hnear : ∃ a ∈ searchedParents source, p = a.join (Path.ofString i.target)) :
    fileIn fs (searchedParents source) (Path.ofString i.target) = some p := by
  obtain ⟨a, ha, rfl⟩ := hnear
  have hsome : (fileIn fs (searchedParents source) (Path.ofString i.target)).isSome = true :=
    List.find?_isSome.mpr ⟨_, List.mem_map_of_mem ha, isFile_of_resolve h⟩
  obtain ⟨q, hq⟩ := Option.isSome_iff_exists.mp hsome
  rw [hq, ← resolve_of_near hquoted hrel hq r, h]

theorem nearest_of_fileIn {target : Path} (h : fileIn fs dirs target = some p) :
    ∃ near a far, dirs = near ++ a :: far ∧ p = a.join target ∧
      ∀ b ∈ near, fs.isFile (b.join target) = false := by
  obtain ⟨-, before, after, hsplit, hbefore⟩ := List.find?_eq_some_iff_append.mp h
  obtain ⟨near, rest, rfl, rfl, hrest⟩ := List.map_eq_append_iff.mp hsplit
  obtain ⟨a, far, rfl, rfl, -⟩ := List.map_eq_cons_iff.mp hrest
  refine ⟨near, a, far, rfl, rfl, fun b hb => ?_⟩
  simpa using hbefore _ (List.mem_map_of_mem hb)

/-- What an include leads to is a file, and stays the answer with further system directories. With
a greater depth there is still an answer, and the same one if the include has only one place or
the file is in a directory above the including file; then it is in the nearest one that has it. -/
theorem resolve_deepened (fs : FileSystem) (source : Path) (i : Include) (dirs more : List Path)
    (hdepth : depth ≤ deeper) (h : resolve ⟨dirs, depth⟩ fs source i = some p) :
    let target := Path.ofString i.target
    fs.isFile p = true ∧
    resolve ⟨dirs ++ more, depth⟩ fs source i = some p ∧
    (∃ q, resolve ⟨dirs, deeper⟩ fs source i = some q) ∧
    ((∃ a ∈ searchedParents source, p = a.join target) ∨ i.system = true ∨
      target.isAbsolute = true → resolve ⟨dirs, deeper⟩ fs source i = some p) ∧
    (i.system = false → target.isAbsolute = false →
      (∃ a ∈ searchedParents source, p = a.join target) →
      ∃ near a far, searchedParents source = near ++ a :: far ∧ p = a.join target ∧
        ∀ b ∈ near, fs.isFile (b.join target) = false) := by
  intro target
  have hfind := h
  rw [resolve_eq_find?] at hfind
  refine ⟨isFile_of_resolve h, ?_, ?_, fun hwhere => ?_, fun hquoted hrel hnear => ?_⟩
  · obtain ⟨rest, hrest⟩ := candidates_append dirs more depth fs source i
    rw [resolve_eq_find?, ← hrest, List.find?_append, hfind, Option.some_or]
  · have hsome := (candidates_sublist hdepth dirs fs source i).find?_isSome (by rw [hfind]; rfl)
    rw [← resolve_eq_find?] at hsome
    exact Option.isSome_iff_exists.mp hsome
  · by_cases hplain : i.system = true ∨ target.isAbsolute = true
    · have hsame : candidates ⟨dirs, deeper⟩ fs source i = candidates ⟨dirs, depth⟩ fs source i := by
        rcases hplain with hsystem | habs
        · simp [candidates, searched, hsystem]
        · unfold candidates
          rw [if_pos habs, if_pos habs]
      rw [resolve_eq_find?, hsame, hfind]
    · rw [not_or, Bool.not_eq_true, Bool.not_eq_true] at hplain
      have hnear := hwhere.resolve_right (by simp [hplain])
      exact resolve_of_near hplain.1 hplain.2 (near_of_resolve hplain.1 hplain.2 h hnear) _
  · exact nearest_of_fileIn (near_of_resolve hquoted hrel h hnear)

def cousins : FileSystem :=
  ⟨[([Utf8.encode "d"], .directory), ([Utf8.encode "d", Utf8.encode "h"], .file [] false),
    ([Utf8.encode "d", Utf8.encode "a"], .directory),
    ([Utf8.encode "d", Utf8.encode "a", Utf8.encode "z"], .directory),
    ([Utf8.encode "d", Utf8.encode "a", Utf8.encode "z", Utf8.encode "x"], .file [] false),
    ([Utf8.encode "d", Utf8.encode "b"], .directory),
    ([Utf8.encode "d", Utf8.encode "b", Utf8.encode "x"], .file [] false)], []⟩

theorem resolve_deepened_cousins :
    (resolve ⟨[] ++ [.ofString "/d/a/z"], 1⟩ cousins (.ofString "/d/c") ⟨"x", false⟩ =
        some (.ofString "/d/b/x") ∧
      ∃ q, resolve ⟨[], 2⟩ cousins (.ofString "/d/c") ⟨"x", false⟩ = some q) ∧
    resolve ⟨[], 2⟩ cousins (.ofString "/d/c") ⟨"h", false⟩ = some (.ofString "/d/h") := by
  have hfar : resolve ⟨[], 1⟩ cousins (.ofString "/d/c") ⟨"x", false⟩ =
      some (.ofString "/d/b/x") := by cbv
  have hnear : resolve ⟨[], 1⟩ cousins (.ofString "/d/c") ⟨"h", false⟩ =
      some (.ofString "/d/h") := by cbv
  have hparents : searchedParents (.ofString "/d/c") = [.ofString "/d"] := by cbv
  have hd : ∃ a ∈ searchedParents (.ofString "/d/c"),
      Path.ofString "/d/h" = a.join (.ofString "h") :=
    ⟨.ofString "/d", by simp [hparents], by cbv⟩
  obtain ⟨-, hmore, hdeeper, -⟩ := resolve_deepened cousins (.ofString "/d/c") ⟨"x", false⟩ []
    [.ofString "/d/a/z"] (by decide : 1 ≤ 2) hfar
  obtain ⟨-, -, -, hsame, -⟩ := resolve_deepened cousins (.ofString "/d/c") ⟨"h", false⟩ []
    [.ofString "/d/a/z"] (by decide : 1 ≤ 2) hnear
  exact ⟨⟨hmore, hdeeper⟩, hsame (.inl hd)⟩

example : resolve ⟨[], 2⟩ cousins (.ofString "/d/c") ⟨"x", false⟩ =
    some (.ofString "/d/a/z/x") := by cbv

end IncludeResolver
end FunctionPairs
