import FunctionPairs.Proofs.FileSystem.Lookup
import FunctionPairs.Proofs.FileSystem.Walks

/-!
Sound file systems: what exists lies in directories and has a proper name. Putting entries into
directories and removing whole trees keeps a file system sound, and a lookup that starts in a
directory of a sound one is always in a directory.
-/
namespace FunctionPairs

def Name.Proper (n : Name) : Prop := n.Moves ∧ n.Ordinary

instance (n : Name) : Decidable n.Proper := by
  unfold Name.Proper Name.Moves Name.Ordinary
  infer_instance

namespace FileSystem

structure Sound (fs : FileSystem) : Prop where
  proper : ∀ l n e, fs.entryAt (l ++ [n]) = some e → Name.Proper n
  parents : ∀ l n e, fs.entryAt (l ++ [n]) = some e → fs.entryAt l = some .directory
  working : fs.entryAt fs.working = some .directory

variable {fs fs' : FileSystem} {k l : Location} {e : Entry} {s : Name}

@[simp] theorem entryAt_nil : fs.entryAt [] = some .directory := rfl

theorem entryAt_of_ne_nil (hl : l ≠ []) : fs.entryAt l = fs.entries.lookup l := by
  cases l with
  | nil => exact absurd rfl hl
  | cons n l => rfl

theorem mem_entries (hl : l ≠ []) (h : fs.entryAt l = some e) : (l, e) ∈ fs.entries := by
  rw [entryAt_of_ne_nil hl] at h
  obtain ⟨es, es', hsplit, -⟩ := List.lookup_eq_some_iff.mp h
  simp [hsplit]

theorem lookup_filter (p : Location → Bool) (es : List (Location × Entry)) (l : Location) :
    (es.filter fun e => p e.1).lookup l = if p l then es.lookup l else none := by
  induction es with
  | nil => simp
  | cons e es ih =>
    obtain ⟨k, e⟩ := e
    by_cases hk : k = l
    · rw [hk]
      by_cases hp : p l = true <;> simp [hp, ih]
    · have hne : (l == k) = false := by simpa using Ne.symm hk
      by_cases hp : p k = true <;> simp [hp, ih, List.lookup_cons, hne]

theorem entryAt_put_other (hk : k ≠ l) : (fs.put l e).entryAt k = fs.entryAt k := by
  by_cases hnil : k = []
  · simp [hnil]
  · have hfilter := lookup_filter (fun m => m ≠ l) fs.entries k
    have hbeq : (k == l) = false := by simpa using hk
    have hother : List.lookup k [(l, e)] = none := by simp [List.lookup_cons, hbeq]
    rw [entryAt_of_ne_nil hnil, entryAt_of_ne_nil hnil]
    show (fs.entries.filter (fun x => x.1 ≠ l) ++ [(l, e)]).lookup k = _
    rw [List.lookup_append, hfilter, hother]
    simp [hk]

theorem entryAt_put_cases (hl : l ≠ []) (k : Location) :
    (fs.put l e).entryAt k = if k = l then some e else fs.entryAt k := by
  split_ifs with h
  · rw [h, fs.entryAt_put hl]
  · exact entryAt_put_other h

theorem entryAt_dropTree (hk : k ≠ []) :
    (fs.dropTree l).entryAt k = if l <+: k then none else fs.entryAt k := by
  have hfilter := lookup_filter (fun m => !l.isPrefixOf m) fs.entries k
  rw [entryAt_of_ne_nil hk, entryAt_of_ne_nil hk]
  refine hfilter.trans ?_
  simp only [← List.isPrefixOf_iff_prefix]
  cases l.isPrefixOf k <;> simp

theorem entryAt_dropBelow :
    (fs.dropBelow l).entryAt k = if l <+: k ∧ k ≠ l then none else fs.entryAt k := by
  by_cases hk : k = []
  · rw [hk, entryAt_nil, entryAt_nil, if_neg]
    rintro ⟨h, hne⟩
    exact hne (List.prefix_nil.mp h).symm
  have hfilter := lookup_filter (fun m => m = l || !l.isPrefixOf m) fs.entries k
  rw [entryAt_of_ne_nil hk, entryAt_of_ne_nil hk]
  refine hfilter.trans ?_
  simp only [← List.isPrefixOf_iff_prefix]
  cases l.isPrefixOf k <;> simp

theorem sound_of_entries
    (h : ∀ x ∈ fs.entries, ∀ n ∈ x.1.getLast?, Name.Proper n ∧
      fs.entryAt x.1.dropLast = some .directory)
    (hworking : fs.entryAt fs.working = some .directory) : fs.Sound := by
  refine ⟨fun l n e he => ?_, fun l n e he => ?_, hworking⟩
  · exact (h _ (mem_entries (by simp) he) n (by simp)).1
  · have hdir := (h _ (mem_entries (by simp) he) n (by simp)).2
    rwa [List.dropLast_concat] at hdir

namespace Sound

variable (hfs : fs.Sound)

include hfs

theorem directory_of_below (h : fs.entryAt l = some e) (hkl : k <+: l) (hne : k ≠ l) :
    fs.entryAt k = some .directory := by
  induction l using List.reverseRecOn generalizing e with
  | nil => exact absurd (List.prefix_nil.mp hkl) hne
  | append_singleton l n ih =>
    have hparent := hfs.parents l n e h
    rw [List.prefix_concat_iff] at hkl
    rcases hkl with rfl | hkl
    · exact absurd rfl hne
    · by_cases hk : k = l
      · rw [hk, hparent]
      · exact ih hparent hkl hk

theorem missing_below (h : fs.entryAt k = none) (hkl : k <+: l) : fs.entryAt l = none := by
  by_contra hne
  obtain ⟨e, he⟩ := Option.ne_none_iff_exists'.mp hne
  by_cases hkl' : k = l
  · rw [← hkl', h] at he
    cases he
  · rw [hfs.directory_of_below he hkl hkl'] at h
    cases h

theorem proper_of_mem (h : fs.entryAt l = some e) {n : Name} (hn : n ∈ l) : Name.Proper n := by
  obtain ⟨xs, ys, rfl⟩ := List.append_of_mem hn
  rw [List.append_cons] at h
  by_cases hys : ys = []
  · rw [hys, List.append_nil] at h
    exact hfs.proper xs n e h
  · refine hfs.proper xs n .directory (hfs.directory_of_below h ⟨ys, by simp⟩ ?_)
    intro heq
    exact hys (by simpa using heq)

theorem moves_of_mem (h : fs.entryAt l = some e) : ∀ n ∈ l, Name.Moves n :=
  fun _ hn => (hfs.proper_of_mem h hn).1

theorem entryAt_dropLast (h : fs.entryAt l = some .directory) :
    fs.entryAt l.dropLast = some .directory := by
  rcases List.eq_nil_or_concat l with rfl | ⟨k, n, rfl⟩
  · exact h
  · rw [List.concat_eq_append] at h ⊢
    rw [List.dropLast_concat]
    exact hfs.parents k n _ h

theorem directory_of_walks {a b : Lookup} (h : fs.Walks a b)
    (ha : fs.entryAt a.place = some .directory) : fs.entryAt b.place = some .directory := by
  induction h with
  | refl => exact ha
  | tail _ hstep ih =>
    cases hstep with
    | up => exact hfs.entryAt_dropLast ih
    | enter _ he => exact he
    | follow _ _ =>
      dsimp only
      split_ifs
      · rfl
      · exact ih

theorem walks_down {ns rest : List Name} {n : Nat} (h : fs.entryAt (l ++ ns) = some .directory) :
    fs.Walks ⟨n, l, ns ++ rest⟩ ⟨n, l ++ ns, rest⟩ := by
  induction ns generalizing l with
  | nil =>
    rw [List.nil_append, List.append_nil]
    exact .refl
  | cons m ns ih =>
    rw [List.append_cons] at h
    have hproper := hfs.proper_of_mem h (n := m) (by simp)
    have hdir : fs.entryAt (l ++ [m]) = some .directory := by
      by_cases hns : ns = []
      · rwa [hns, List.append_nil] at h
      · refine hfs.directory_of_below h (List.prefix_append _ _) ?_
        intro heq
        exact hns (by simpa using heq)
    have hrest := ih h
    rw [← List.append_cons] at hrest
    exact .head (.enter hproper.2 hdir) hrest

theorem put (hdir : fs.entryAt l = some .directory) (hs : s.Proper)
    (hnot : fs.entryAt (l ++ [s]) ≠ some .directory ∨ e = .directory) :
    (fs.put (l ++ [s]) e).Sound := by
  have hne : l ++ [s] ≠ [] := by simp
  -- a directory is not replaced by anything else
  have hkeep : ∀ k, fs.entryAt k = some .directory →
      (fs.put (l ++ [s]) e).entryAt k = some .directory := by
    intro k hk
    rw [entryAt_put_cases hne]
    split_ifs with h
    · rcases hnot with hnot | rfl
      · exact absurd (h ▸ hk) hnot
      · rfl
    · exact hk
  refine ⟨?_, ?_, hkeep _ hfs.working⟩
  · intro k n f hf
    rw [entryAt_put_cases hne] at hf
    split_ifs at hf with h
    · have hn := List.cons.inj (List.append_inj' h rfl).2
      rw [hn.1]
      exact hs
    · exact hfs.proper k n f hf
  · intro k n f hf
    rw [entryAt_put_cases hne] at hf
    split_ifs at hf with h
    · rw [(List.append_inj' h rfl).1]
      exact hkeep l hdir
    · exact hkeep k (hfs.parents k n f hf)

end Sound
end FileSystem
end FunctionPairs
