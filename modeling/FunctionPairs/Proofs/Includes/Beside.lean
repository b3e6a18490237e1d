import FunctionPairs.Proofs.FileSystem.Joining
import FunctionPairs.Proofs.Includes.Searching

/-!
Includes beside the including file. The directory that a file lies in is searched first, whatever
the path to the file looks like and whatever links it goes through, unless it is the root; a target
that names a file there leads to this file. A path that is a bare name has the empty path above it,
and that one is left out of the search as if it were the root.
-/
namespace FunctionPairs.IncludeResolver

open FileSystem (Leads)

variable {fs : FileSystem} {source dir : Path} {d : Location} {n : Name} {e : Entry} {i : Include}

theorem searchedParents_of_parent (hdir : source.parent = some dir)
    (hup : dir.parent.isSome = true) : ∃ far, searchedParents source = dir :: far := by
  unfold searchedParents Path.ancestors Path.ancestorsFrom
  simp [hdir, hup]

theorem resolve_of_bare (hdir : source.parent = some .empty)
    (hrel : (Path.ofString i.target).isAbsolute = false) (r : IncludeResolver) :
    r.resolve fs source i = fileIn fs r.systemDirs (.ofString i.target) := by
  have hparents : searchedParents source = [] := by
    have hup : Path.empty.parent = none := rfl
    unfold searchedParents Path.ancestors Path.ancestorsFrom
    rw [hdir]
    cases source.components.length <;> simp [Path.ancestorsFrom, hup]
  unfold resolve
  simp [hrel, findLocal_eq, hparents, fileIn]

theorem isSome_parent_of_leads (hd : fs.Leads dir d) (hroot : d ≠ [])
    (hbare : dir.isEmpty = false) : dir.parent.isSome = true := by
  refine Path.isSome_parent hbare fun habs hroute => hroot ?_
  obtain ⟨m, hw⟩ := hd
  have horigin : fs.origin dir dir.route = ⟨FileSystem.maxLinks, [], []⟩ := by
    simp [FileSystem.origin, FileSystem.start, habs, hroute]
  rw [horigin] at hw
  cases hw.eq_of_stuck FileSystem.stuck_nil
  rfl

/-- A quoted include of a file that lies in a directory other than the root, and is not given by
its bare name, leads to the file that the target names in that directory, if it names one. -/
theorem resolve_beside (hfs : fs.Sound) (hsource : fs.isFile source = true)
    (hplace : fs.find false source = .ok (d ++ [n], e)) (hroot : d ≠ [])
    (hdir : source.parent = some dir) (hbare : dir.isEmpty = false)
    (hquoted : i.system = false) (hrel : (Path.ofString i.target).isAbsolute = false)
    (htarget : fs.isFile (dir.join (.ofString i.target)) = true) (r : IncludeResolver) :
    r.resolve fs source i = some (dir.join (.ofString i.target)) ∧
      ∃ l contents x,
        fs.find true (dir.join (.ofString i.target)) = .ok (l, .file contents x) ∧
        FileSystem.find { fs with working := d } true (.ofString i.target) =
          .ok (l, .file contents x) := by
  have hleads : fs.Leads dir d :=
    hfs.leads_parent hplace (hfs.not_directory_of_file hsource hplace) hdir
  have hup := isSome_parent_of_leads hleads hroot hbare
  obtain ⟨far, hparents⟩ := searchedParents_of_parent hdir hup
  have hnear : fileIn fs (searchedParents source) (.ofString i.target) =
      some (dir.join (.ofString i.target)) := by
    rw [hparents]
    exact List.find?_cons_of_pos htarget
  obtain ⟨l, contents, x, hfind⟩ := FileSystem.isFile_iff.mp htarget
  exact ⟨resolve_of_near hquoted hrel hnear r, l, contents, x, hfind,
    hfs.find_of_join hleads hbare hrel hfind rfl⟩

def workplace : FileSystem :=
  ⟨[([Utf8.encode "w"], .directory), ([Utf8.encode "w", Utf8.encode "main.c"], .file [] false),
    ([Utf8.encode "w", Utf8.encode "util.h"], .file [] false),
    ([Utf8.encode "w", Utf8.encode "src"], .directory),
    ([Utf8.encode "w", Utf8.encode "src", Utf8.encode "deep.c"], .file [] false),
    ([Utf8.encode "s"], .link (.ofString "w/src"))], [Utf8.encode "w"]⟩

theorem resolve_beside_linked :
    resolve ⟨[], 0⟩ workplace (.ofString "../s/deep.c") ⟨"../util.h", false⟩ =
        some (.ofString "../s/../util.h") ∧
      ∃ l contents x,
        workplace.find true (.ofString "../s/../util.h") = .ok (l, .file contents x) ∧
        FileSystem.find { workplace with working := [Utf8.encode "w", Utf8.encode "src"] } true
          (.ofString "../util.h") = .ok (l, .file contents x) := by
  have hsound : workplace.Sound := by
    refine FileSystem.sound_of_entries (fun x hx n hn => ?_) rfl
    revert x n
    decide
  have hsource : workplace.isFile (.ofString "../s/deep.c") = true := by cbv
  have hplace : workplace.find false (.ofString "../s/deep.c") =
      .ok ([Utf8.encode "w", Utf8.encode "src"] ++ [Utf8.encode "deep.c"], .file [] false) := by cbv
  have hdir : Path.parent (.ofString "../s/deep.c") = some (.ofString "../s") := by cbv
  have htarget : workplace.isFile ((Path.ofString "../s").join (.ofString "../util.h")) = true := by
    cbv
  exact resolve_beside (i := ⟨"../util.h", false⟩) hsound hsource hplace (by decide) hdir
    (by decide) rfl (by decide) htarget ⟨[], 0⟩

/-- The header is where the target says, next to the including file, and yet it is not found. -/
theorem resolve_bare :
    workplace.isFile (.ofString "main.c") = true ∧
      workplace.find false (.ofString "main.c") =
        .ok ([Utf8.encode "w"] ++ [Utf8.encode "main.c"], .file [] false) ∧
      Path.parent (.ofString "main.c") = some .empty ∧
      workplace.isFile (Path.empty.join (.ofString "util.h")) = true ∧
      resolve ⟨[], 0⟩ workplace (.ofString "main.c") ⟨"util.h", false⟩ = none := by
  have hbare : Path.parent (.ofString "main.c") = some .empty := by cbv
  refine ⟨by cbv, by cbv, hbare, by cbv, ?_⟩
  rw [resolve_of_bare hbare (by decide)]
  rfl

end FunctionPairs.IncludeResolver
