import FunctionPairs.Places
import FunctionPairs.Proofs.FileSystem.Listing
import FunctionPairs.Proofs.Path.Route

/-!
How much making an output can add. Every directory made is one on the way of its path, and a path
that can be looked up has no more than half as many names as it has bytes.
-/
namespace FunctionPairs

namespace Path

theorem length_names_le (p : Path) : 2 * p.names.length ≤ p.bytes.length + 1 := by
  have h : ∀ bs : Bytes, 2 * (pieces bs).countP (!·.isEmpty) ≤ bs.length + 1 ∧
      2 * (pieces bs).tail.countP (!·.isEmpty) ≤ bs.length := by
    intro bs
    induction bs with
    | nil => decide
    | cons b bs ih =>
      by_cases hb : b = slash
      · rw [hb, pieces_slash, List.countP_cons, List.tail_cons, List.length_cons]
        simp only [List.isEmpty_nil, Bool.not_true, Bool.false_eq_true, if_false]
        omega
      · obtain ⟨x, xs, hxs, hcons⟩ := pieces_cons_ne hb bs
        rw [hxs, List.countP_cons, List.tail_cons] at ih
        rw [hcons, List.countP_cons, List.tail_cons, List.length_cons]
        simp only [List.isEmpty_cons, Bool.not_false, if_true]
        omega
  rw [names, ← List.countP_eq_length_filter]
  exact (h p.bytes).1

theorem length_ancestorsFrom_le (fuel : Nat) (p : Path) : (ancestorsFrom fuel p).length ≤ fuel := by
  induction fuel generalizing p with
  | zero => rfl
  | succ fuel ih =>
    unfold ancestorsFrom
    split
    · exact Nat.zero_le _
    · exact Nat.succ_le_succ (ih _)

theorem length_components_le (p : Path) : p.components.length ≤ p.names.length + 1 := by
  have hroute : p.route.length ≤ p.names.length := List.length_filter_le _ _
  cases hp : p.isAbsolute with
  | true =>
    rw [components_of_isAbsolute hp, List.length_cons, List.length_map]
    omega
  | false =>
    rw [components_of_not_isAbsolute hp, List.length_append, List.length_map]
    split_ifs <;> simp <;> omega

theorem length_ancestors_le (p : Path) : 2 * p.ancestors.length ≤ p.bytes.length + 5 := by
  have hancestors := length_ancestorsFrom_le (p.components.length + 1) p
  have hcomponents := length_components_le p
  have hnames := length_names_le p
  unfold ancestors
  omega

end Path

namespace FileSystem

/-- A file system to which entries have been added, a number of times, and from which others have
been taken away. -/
inductive Edited (fs : FileSystem) : Nat → FileSystem → Prop
  | refl : Edited fs 0 fs
  | put {n : Nat} {fs' : FileSystem} (h : Edited fs n fs') (l : Location) (e : Entry) :
      Edited fs (n + 1) (fs'.put l e)
  | filter {n : Nat} {fs' : FileSystem} (h : Edited fs n fs') (keep : Location × Entry → Bool) :
      Edited fs n { fs' with entries := fs'.entries.filter keep }

namespace Edited

variable {fs fs' fs'' : FileSystem} {n m : Nat}

theorem trans (h : fs.Edited n fs') (h' : fs'.Edited m fs'') : fs.Edited (n + m) fs'' := by
  induction h' with
  | refl => exact h
  | put _ l e ih => exact ih.put l e
  | filter _ keep ih => exact ih.filter keep

theorem length_le (h : fs.Edited n fs') : fs'.entries.length ≤ fs.entries.length + n := by
  induction h with
  | refl => exact Nat.le_refl _
  | @put n fs' _ l e ih =>
    have hfilter := List.length_filter_le (·.1 ≠ l) fs'.entries
    show (fs'.entries.filter (·.1 ≠ l) ++ [(l, e)]).length ≤ _
    rw [List.length_append, List.length_singleton]
    omega
  | filter _ keep ih => exact (List.length_filter_le _ _).trans ih

theorem distinct (h : fs.Edited n fs') (hfs : fs.Distinct) : fs'.Distinct := by
  induction h with
  | refl => exact hfs
  | put _ l e ih => exact ih.put l e
  | filter _ keep ih => exact ih.filter keep

end Edited

variable {fs fs' : FileSystem} {p : Path}

theorem createDirectory_edited (h : fs.createDirectory p = .ok fs') : fs.Edited 1 fs' := by
  unfold createDirectory at h
  dsimp only at h
  split_ifs at h
  split at h
  · cases h
  · split at h
    · cases h
    · cases h
      exact .put .refl _ _

theorem createChain_edited (fs : FileSystem) (ps : List Path) :
    ∃ n ≤ ps.length, fs.Edited n (fs.createChain ps).2 := by
  induction ps with
  | nil => exact ⟨0, Nat.le_refl 0, .refl⟩
  | cons p above ih =>
    obtain ⟨n, hn, habove⟩ := ih
    unfold createChain
    split_ifs
    · exact ⟨0, Nat.zero_le _, .refl⟩
    · split
      · next hmade => exact ⟨1, by simp, createDirectory_edited hmade⟩
      · split
        · next heq =>
          rw [heq] at habove
          exact ⟨n, Nat.le_succ_of_le hn, habove⟩
        · next heq =>
          rw [heq] at habove
          split
          · next hmade =>
            exact ⟨n + 1, Nat.succ_le_succ hn, habove.trans (createDirectory_edited hmade)⟩
          · split_ifs <;> exact ⟨n, Nat.le_succ_of_le hn, habove⟩
      · exact ⟨0, Nat.zero_le _, .refl⟩

theorem removeFile_edited (h : fs.removeFile p = .ok fs') : fs.Edited 0 fs' := by
  unfold removeFile at h
  split at h <;> cases h
  exact .filter .refl _

theorem removeEmptied_edited (h : fs.removeEmptied p = .ok fs') : fs.Edited 0 fs' := by
  unfold removeEmptied at h
  split at h
  · cases h
    exact .refl
  · cases h
  · split at h
    · split_ifs at h
      cases h
      exact .filter .refl _
    · cases h
  · cases h

theorem removeTree_edited (fs : FileSystem) (p : Path) : fs.Edited 0 (fs.removeTree p).2 := by
  unfold removeTree
  split
  · exact .refl
  · exact .refl
  · exact .filter .refl _
  · have hbelow : ∀ l, fs.Edited 0 (fs.dropBelow l) := fun l => .filter .refl _
    dsimp only
    split
    · next hleft => exact (hbelow _).trans (removeEmptied_edited hleft)
    · exact hbelow _

end FileSystem

namespace Places

open FileSystem (Edited)

theorem clear_edited (fs : FileSystem) (p : Path) : fs.Edited 0 (clear fs p).2 := by
  unfold clear
  split_ifs
  · exact fs.removeTree_edited p
  · split
    · next hremoved => exact FileSystem.removeFile_edited hremoved
    · exact .refl

theorem makeEmptyDirectory_edited (fs : FileSystem) (p : Path) (force : Bool) :
    ∃ n ≤ p.ancestors.length + 1, fs.Edited n (makeEmptyDirectory fs p force).2 := by
  have hcreate : ∀ fs : FileSystem, ∃ n ≤ p.ancestors.length + 1, fs.Edited n (create fs p).2 :=
    fun fs => fs.createChain_edited (p :: p.ancestors)
  have hclear := clear_edited fs p
  unfold makeEmptyDirectory
  split_ifs
  · exact hcreate fs
  · exact ⟨0, Nat.zero_le _, .refl⟩
  · split
    · next heq =>
      rw [heq] at hclear
      exact ⟨0, Nat.zero_le _, hclear⟩
    · next fs' heq =>
      rw [heq] at hclear
      obtain ⟨n, hn, hmade⟩ := hcreate fs'
      exact ⟨n, hn, by simpa using hclear.trans hmade⟩

end Places
end FunctionPairs
