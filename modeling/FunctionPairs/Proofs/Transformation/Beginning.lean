import FunctionPairs.Proofs.FileSystem.Making
import FunctionPairs.Proofs.Transformation.Course

/-!
How a run begins. An output that is absent and lies outside the input passes the checks and is made
as an empty directory, while the tree that is read stays as it was.
-/
namespace FunctionPairs

open FileSystem (find_eq_ok)

namespace Places

variable {fs : FileSystem} {p : Path}

theorem requireDirectory_of_find {l : Location} (h : fs.find true p = .ok (l, .directory)) :
    requireDirectory fs p = .ok () := by
  have hthere := FileSystem.isDirectory_iff.mpr ⟨l, h⟩
  have hcontains := FileSystem.contains_iff.mpr ⟨l, _, h⟩
  simp [requireDirectory, hthere, hcontains]

section Absent

variable {outer : Path} {l lo : Location} (h : fs.Absent p l) (hfs : fs.Sound)

include h hfs

theorem requireOutside_of_absent (hshort : fs.Short p)
    (ho : fs.find true outer = .ok (lo, .directory)) (hoshort : fs.Short outer)
    (hout : ¬ lo <+: l) : requireOutside fs p outer = .ok () := by
  obtain ⟨ys, d, s, rest, hf, rfl⟩ := h.frontier
  have hofits := FileSystem.fits_of_resolve (find_eq_ok.mp ho).1
  have hores := resolve_of_leads hfs hofits.1 hoshort ((hfs.find_iff_leads hofits).mp ho)
  have hres := resolve_of_frontier hfs h.fits.1 hshort hf
  have hmoves : ∀ m ∈ d ++ s :: rest, Name.Moves m := fun m hm => (h.proper m hm).1
  unfold requireOutside
  rw [hres, hores]
  dsimp only
  rw [if_neg]
  rwa [Path.startsWith_path hmoves (hfs.moves_of_mem (find_eq_ok.mp ho).2)]

theorem makeEmptyDirectory_of_absent (force : Bool) :
    ∃ fs', makeEmptyDirectory fs p force = (.ok (), fs') ∧ fs'.Sound ∧ fs.Grows fs' ∧
      fs'.find true p = .ok (l, .directory) ∧
      ∀ k e, fs'.entryAt k = some e → fs.entryAt k = some e ∨ k <+: l := by
  obtain ⟨fs', hmade, hsound, hgrows, hleads, hnew⟩ := h.createDirectories hfs
  obtain ⟨ys, d, s, rest, hf, -⟩ := h.frontier
  refine ⟨fs', ?_, hsound, hgrows, (hsound.find_iff_leads h.fits).mpr hleads, hnew⟩
  unfold makeEmptyDirectory create
  rw [hf.not_contains, Bool.not_false, if_pos rfl, hmade]
  rfl

end Absent

end Places

namespace Transformer

variable {σ : Type} {t : Transformer σ} {input output : Path} {force : Bool} {fs : FileSystem}
  {li : Location} {s : TransformState σ}

theorem begun_of_absent (hfs : s.files.Sound) (hdistinct : s.files.Distinct)
    (hin : s.files.find true input = .ok (li, .directory)) (hinshort : s.files.Short input)
    {lo : Location} (habsent : s.files.Absent output lo) (hshort : s.files.Short output)
    (hout : ¬ li <+: lo) (force : Bool) :
    ∃ fs, Begun s input output force fs li lo ∧ (∀ r, r ≠ [] → fs.entryAt (lo ++ r) = none) ∧
      ∀ r, fs.entryAt (li ++ r) = s.files.entryAt (li ++ r) := by
  obtain ⟨fs, hmade, hsound, hgrows, hfind, hnew⟩ :=
    Places.makeEmptyDirectory_of_absent habsent hfs force
  obtain ⟨n, -, hedited⟩ := Places.makeEmptyDirectory_edited s.files output force
  rw [hmade] at hedited
  have hallowed := Places.requireOutside_of_absent habsent hfs hshort hin hinshort hout
  have hgone : ∀ r, s.files.entryAt (lo ++ r) = none := by
    obtain ⟨ys, d, m, rest, hf, rfl⟩ := habsent.frontier
    exact fun r => hf.missing_below hfs ⟨rest ++ r, by simp⟩
  refine ⟨fs, ⟨⟨hsound, hedited.distinct hdistinct, hgrows.find hin, hfind, hout⟩,
    Places.requireDirectory_of_find hin, hallowed, hmade⟩, fun r hr => ?_, fun r => ?_⟩
  · by_contra hne
    obtain ⟨e, he⟩ := Option.ne_none_iff_exists'.mp hne
    rcases hnew _ e he with hold | hbelow
    · exact absurd hold (by simp [hgone r])
    · exact hr (List.append_right_eq_self.mp (hbelow.eq_of_length_le (by simp)))
  · refine Option.ext fun e => ⟨fun he => ?_, hgrows.old _ e⟩
    rcases hnew _ e he with hold | hbelow
    · exact hold
    · exact absurd ((List.prefix_append li r).trans hbelow) hout

end Transformer
end FunctionPairs
