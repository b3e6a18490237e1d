import FunctionPairs.Proofs.FileSystem.Soundness
import Mathlib.Data.List.Infix
import Mathlib.Data.List.Nodup
import Mathlib.Data.List.Sort

/-!
Listings. Where no location has two entries, a listing names what is in a directory, each name
once and in ascending order, so that it depends on nothing but what is there. No location is
longer than there are entries, since all that lies above an entry has an entry of its own.
-/
namespace FunctionPairs.FileSystem

variable {fs fs' : FileSystem} {k l : Location} {e : Entry} {n : Name}

def Distinct (fs : FileSystem) : Prop := (fs.entries.map Prod.fst).Nodup

theorem Distinct.filter (h : fs.Distinct) (keep : Location × Entry → Bool) :
    Distinct { fs with entries := fs.entries.filter keep } :=
  h.sublist (List.filter_sublist.map Prod.fst)

theorem Distinct.put (h : fs.Distinct) (l : Location) (e : Entry) : (fs.put l e).Distinct := by
  have hold : ((fs.entries.filter (·.1 ≠ l)).map Prod.fst).Nodup := h.filter _
  unfold Distinct FileSystem.put
  rw [List.map_append, List.map_singleton, List.nodup_append]
  refine ⟨hold, List.nodup_singleton l, fun k hk m hm => ?_⟩
  obtain ⟨x, hx, rfl⟩ := List.mem_map.mp hk
  rw [List.mem_singleton.mp hm]
  simpa using (List.mem_filter.mp hx).2

def nameIn? (l k : Location) : Option Name :=
  match k.getLast? with
  | some n => if k.dropLast = l then some n else none
  | none => none

theorem nameIn?_eq_some : nameIn? l k = some n ↔ k = l ++ [n] := by
  rcases List.eq_nil_or_concat k with rfl | ⟨j, m, rfl⟩
  · simp [nameIn?]
  · by_cases h : j = l <;> simp [nameIn?, h]

theorem namesIn_eq (fs : FileSystem) (l : Location) :
    fs.namesIn l = ((fs.entries.map Prod.fst).filterMap (nameIn? l)).mergeSort Name.le := by
  rw [List.filterMap_map]
  rfl

theorem mem_keys (hl : l ≠ []) : l ∈ fs.entries.map Prod.fst ↔ fs.entryAt l ≠ none := by
  rw [entryAt_of_ne_nil hl, ne_eq, ← Option.not_isSome_iff_eq_none, not_not,
    List.lookup_isSome_iff, List.mem_map]
  simp only [beq_iff_eq, eq_comm (a := l)]

theorem mem_namesIn : n ∈ fs.namesIn l ↔ fs.entryAt (l ++ [n]) ≠ none := by
  rw [namesIn_eq, List.mem_mergeSort, List.mem_filterMap, ← mem_keys (by simp)]
  simp [nameIn?_eq_some]

theorem Distinct.nodup_namesIn (h : fs.Distinct) (l : Location) : (fs.namesIn l).Nodup := by
  rw [namesIn_eq, (List.mergeSort_perm _ _).nodup_iff]
  refine List.Nodup.filterMap (fun j k n hj hk => ?_) h
  rw [nameIn?_eq_some.mp hj, nameIn?_eq_some.mp hk]

theorem Distinct.namesIn_strict (h : fs.Distinct) (l : Location) :
    (fs.namesIn l).Pairwise (· < ·) :=
  (fs.namesIn_ascending l).imp₂ (fun _ _ hle hne => Std.lt_of_le_of_ne hle hne)
    (h.nodup_namesIn l)

theorem filter_namesIn (h : fs.Distinct) (h' : fs'.Distinct)
    (hsub : ∀ n, fs.entryAt (l ++ [n]) ≠ none → fs'.entryAt (l ++ [n]) ≠ none) :
    ((fs'.namesIn l).filter fun n => (fs.entryAt (l ++ [n])).isSome) = fs.namesIn l := by
  have hperm : ((fs'.namesIn l).filter fun n => (fs.entryAt (l ++ [n])).isSome).Perm
      (fs.namesIn l) := by
    rw [List.perm_ext_iff_of_nodup ((h'.nodup_namesIn l).filter _) (h.nodup_namesIn l)]
    intro n
    rw [List.mem_filter, mem_namesIn, mem_namesIn, Option.isSome_iff_ne_none]
    exact and_iff_right_of_imp (hsub n)
  exact hperm.eq_of_pairwise (fun _ _ _ _ hab hba => List.le_antisymm hab hba)
    ((fs'.namesIn_ascending l).filter _) (fs.namesIn_ascending l)

theorem length_le_of_nodup {ls : List Location} (hnodup : ls.Nodup)
    (hls : ∀ l ∈ ls, l ≠ [] ∧ fs.entryAt l ≠ none) : ls.length ≤ fs.entries.length := by
  have hsub : ls ⊆ fs.entries.map Prod.fst := fun l hl => (mem_keys (hls l hl).1).mpr (hls l hl).2
  simpa using (List.subperm_of_subset hnodup hsub).length_le

theorem Sound.length_le_entries (hfs : fs.Sound) (h : fs.entryAt l = some e) :
    l.length ≤ fs.entries.length := by
  let above := (List.range l.length).map fun i => l.take (i + 1)
  have hlength : ∀ i < l.length, (l.take (i + 1)).length = i + 1 := fun i hi => by simp; omega
  have hnodup : above.Nodup := by
    refine List.Nodup.map_on (fun i hi j hj hij => ?_) List.nodup_range
    have hsame := congrArg List.length hij
    rw [hlength i (List.mem_range.mp hi), hlength j (List.mem_range.mp hj)] at hsame
    omega
  have hthere : ∀ k ∈ above, k ≠ [] ∧ fs.entryAt k ≠ none := by
    intro k hk
    obtain ⟨i, hi, rfl⟩ := List.mem_map.mp hk
    refine ⟨fun hnil => ?_, fun hnone => ?_⟩
    · have hzero := hlength i (List.mem_range.mp hi)
      rw [hnil] at hzero
      cases hzero
    · rw [hfs.missing_below hnone (List.take_prefix _ l)] at h
      cases h
  simpa [above] using length_le_of_nodup hnodup hthere

end FunctionPairs.FileSystem
