import FunctionPairs.Proofs.Store.Pending
import Mathlib.Algebra.GroupWithZero.Nat

/-!
The counts that a store returns. Each successful call returns the number of identities that are new
on its side, so the counts of a history add up to what the side has gained. A file that is added
again right away brings no new identity, and puts every text back where the first call left it,
also where several of its functions share an identity and only the last of them is kept.
-/
namespace FunctionPairs.ExampleStore

variable (s : ExampleStore) (which : Side) (path : Path) (f : Function) (fs : List Function)

def entriesOf : List (String × String) :=
  (fs.filter Function.hasBody).map fun f => (s.identityOf path f, bodyOf f)

theorem identityOf_congr {s t : ExampleStore} (hmodel : t.model = s.model) (hroot : t.root = s.root) :
    t.identityOf path f = s.identityOf path f := by
  rw [identityOf, identityOf, hmodel, hroot]

theorem insert_side : (s.insert which path fs).2.side which =
    (s.side which).insertAll (s.entriesOf path fs) := by
  rw [insert_eq_foldl, entriesOf]
  induction fs.filter Function.hasBody generalizing s with
  | nil => rfl
  | cons f fs ih =>
    have hid : ∀ g, (s.insertOne which path f).2.identityOf path g = s.identityOf path g :=
      fun g => identityOf_congr path g (s.insertOne_model which path f) (s.insertOne_root which path f)
    rw [List.foldl_cons, ih, insertOne_side, if_pos rfl, List.map_cons, Catalog.insertAll_cons]
    simp only [hid]

theorem insertOne_fst : (s.insertOne which path f).1 =
    !(s.side which).contains (s.identityOf path f) := by
  simp only [insertOne]
  split_ifs with h <;> simp [h]

theorem identities_insertOne : (s.insertOne which path f).2.identities which =
    Insert.insert (s.identityOf path f) (s.identities which) := by
  ext key
  simp [identities, insertOne_side, Catalog.mem_keys_insert]

theorem card_insertOne : ((s.insertOne which path f).2.identities which).card =
    (s.identities which).card + if (s.insertOne which path f).1 then 1 else 0 := by
  have hmem : s.identityOf path f ∈ s.identities which ↔
      (s.side which).contains (s.identityOf path f) = true := by
    rw [identities, List.mem_toFinset, Catalog.mem_keys_iff]
  rw [identities_insertOne, insertOne_fst]
  by_cases h : s.identityOf path f ∈ s.identities which
  · rw [Finset.insert_eq_of_mem h, hmem.mp h]
    rfl
  · rw [Finset.card_insert_of_notMem h, Bool.eq_false_iff.mpr (mt hmem.mpr h)]
    rfl

theorem card_insert : ((s.insert which path fs).2.identities which).card =
    (s.identities which).card + (s.insert which path fs).1 := by
  induction fs generalizing s with
  | nil => rfl
  | cons f fs ih =>
    unfold insert
    by_cases hb : f.hasBody = true
    · rw [if_pos hb]
      have hrest := ih (s.insertOne which path f).2
      rw [card_insertOne] at hrest
      exact hrest.trans (Nat.add_assoc ..)
    · rw [if_neg hb]
      exact ih s

theorem identities_le_insert : s.identities which ⊆ (s.insert which path fs).2.identities which := by
  intro key hkey
  rw [identities, List.mem_toFinset] at hkey ⊢
  rw [insert_side, Catalog.mem_keys_insertAll]
  exact .inr hkey

/-! Adding again. -/

theorem insert_of_known
    (h : ∀ f ∈ fs, f.hasBody = true → (s.side which).contains (s.identityOf path f) = true) :
    (s.insert which path fs).1 = 0 ∧ (s.insert which path fs).2.matched = s.matched := by
  induction fs generalizing s with
  | nil => exact ⟨rfl, rfl⟩
  | cons f fs ih =>
    unfold insert
    by_cases hb : f.hasBody = true
    · rw [if_pos hb]
      have hknown := h f List.mem_cons_self hb
      have hrest : ∀ g ∈ fs, g.hasBody = true →
          ((s.insertOne which path f).2.side which).contains
            ((s.insertOne which path f).2.identityOf path g) = true := by
        intro g hg hbody
        rw [identityOf_congr path g (s.insertOne_model which path f) (s.insertOne_root which path f),
          insertOne_side, if_pos rfl, Catalog.contains_insert, h g (List.mem_cons_of_mem f hg) hbody,
          Bool.or_true]
      obtain ⟨hcount, hmatched⟩ := ih _ hrest
      rw [insertOne_matched, if_pos hknown] at hmatched
      refine ⟨?_, hmatched⟩
      dsimp only
      rw [hcount, insertOne_fst, hknown]
      rfl
    · rw [if_neg hb]
      exact ih s fun g hg => h g (List.mem_cons_of_mem f hg)

theorem ext_side {s t : ExampleStore} (hmodel : s.model = t.model) (hroot : s.root = t.root)
    (hside : ∀ w, s.side w = t.side w) (hmatched : s.matched = t.matched) : s = t := by
  cases s
  cases t
  rw [mk.injEq]
  exact ⟨hmodel, hroot, hside .source, hside .decompiled, hmatched⟩

theorem insert_again : (s.insert which path fs).2.insert which path fs =
    (0, (s.insert which path fs).2) := by
  let t := (s.insert which path fs).2
  have hid : ∀ f, t.identityOf path f = s.identityOf path f := fun f =>
    identityOf_congr path f (s.insert_model which path fs) (s.insert_root which path fs)
  have hentries : t.entriesOf path fs = s.entriesOf path fs := by simp only [entriesOf, hid]
  have hknown : ∀ f ∈ fs, f.hasBody = true →
      (t.side which).contains (t.identityOf path f) = true := by
    intro f hf hb
    rw [← Catalog.mem_keys_iff, s.insert_side which path fs, Catalog.mem_keys_insertAll, hid]
    exact .inl (List.mem_map_of_mem (List.mem_map_of_mem (List.mem_filter.mpr ⟨hf, hb⟩)))
  obtain ⟨hcount, hmatched⟩ := t.insert_of_known which path fs hknown
  refine Prod.ext hcount (ext_side (t.insert_model which path fs) (t.insert_root which path fs)
    (fun w => ?_) hmatched)
  by_cases hw : w = which
  · rw [hw, t.insert_side which path fs, hentries, s.insert_side which path fs,
      Catalog.insertAll_insertAll]
  · exact t.insert_side_other hw path fs

theorem add_again (c : Call) : ((s.step c).add c.files c.side c.path).value =
    (s.add c.files c.side c.path).value.map fun r => (0, r.2) := by
  rw [add_value, add_value, step_model, step_eq]
  cases c.scraped s.model with
  | error e => rfl
  | ok fs => exact congrArg Except.ok (s.insert_again c.side c.path fs)

/-! Histories. -/

def counted (c : Call) : List Nat :=
  match (s.add c.files c.side c.path).value with
  | .ok (added, _) => if c.side = which then [added] else []
  | .error _ => []

def counts (which : Side) : ExampleStore → List Call → List Nat
  | _, [] => []
  | s, c :: calls => s.counted which c ++ counts which (s.step c) calls

theorem step_gains (c : Call) : s.identities which ⊆ (s.step c).identities which ∧
    ((s.step c).identities which).card = (s.identities which).card + (s.counted which c).sum := by
  rw [counted, add_value, step_eq]
  cases c.scraped s.model with
  | error e => exact ⟨Finset.Subset.refl _, rfl⟩
  | ok fs =>
    dsimp only [Except.map]
    by_cases hw : c.side = which
    · subst hw
      rw [if_pos rfl, List.sum_singleton]
      exact ⟨s.identities_le_insert c.side c.path fs, s.card_insert c.side c.path fs⟩
    · have hsame : (s.insert c.side c.path fs).2.identities which = s.identities which := by
        rw [identities, s.insert_side_other (Ne.symm hw), identities]
      rw [if_neg hw, hsame]
      exact ⟨Finset.Subset.refl _, rfl⟩

theorem run_gains (calls : List Call) : s.identities which ⊆ (s.run calls).identities which ∧
    ((s.run calls).identities which).card =
      (s.identities which).card + (counts which s calls).sum := by
  induction calls generalizing s with
  | nil => exact ⟨Finset.Subset.refl _, rfl⟩
  | cons c calls ih =>
    obtain ⟨hstep, hcard⟩ := s.step_gains which c
    obtain ⟨hrun, hrest⟩ := ih (s.step c)
    refine ⟨hstep.trans hrun, ?_⟩
    rw [run_cons, hrest, hcard, counts, List.sum_append, Nat.add_assoc]

/-- Whatever a store holds, the counts that the successful calls of a history return for a side add
up to the number of identities that the side gains; and a file that is added again at once gives
the count zero and the same store, or the same error. -/
theorem counts_run (calls : List Call) :
    (∀ which, s.identities which ⊆ (s.run calls).identities which ∧
      ((s.run calls).identities which \ s.identities which).card = (counts which s calls).sum) ∧
    ∀ c : Call, (((s.run calls).step c).add c.files c.side c.path).value =
      ((s.run calls).add c.files c.side c.path).value.map fun r => (0, r.2) := by
  refine ⟨fun which => ?_, (s.run calls).add_again⟩
  obtain ⟨hsubset, hcard⟩ := s.run_gains which calls
  refine ⟨hsubset, ?_⟩
  rw [Finset.card_sdiff_of_subset hsubset, hcard, Nat.add_sub_cancel_left]

end FunctionPairs.ExampleStore
