import FunctionPairs.ExampleStore.Basic
import FunctionPairs.Proofs.Store.Catalog

/-!
What putting functions into a store does. One insertion changes one side at one identity; from
that, the counter of a store is at all times the number of identities that both sides have, and
it never falls.
-/
namespace FunctionPairs.ExampleStore

def bodyOf (f : Function) : String := (BodySplit.ofText f.text).bracedBody

/-- Both sides ascend, and the counter is the number of identities they have in common. -/
structure Tallied (s : ExampleStore) : Prop where
  ascending : ∀ which, (s.side which).Ascending
  matched : s.matched = Catalog.shared s.sources s.decompileds

theorem tallied_empty (m : LanguageModel) (root : Path) : (empty m root).Tallied where
  ascending which := by cases which <;> exact List.Pairwise.nil
  matched := rfl

variable (s : ExampleStore) (which w : Side) (path : Path) (f : Function)

@[simp] theorem withSide_model (c : Catalog) : (s.withSide which c).model = s.model := by
  cases which <;> rfl

@[simp] theorem withSide_root (c : Catalog) : (s.withSide which c).root = s.root := by
  cases which <;> rfl

@[simp] theorem withSide_matched (c : Catalog) : (s.withSide which c).matched = s.matched := by
  cases which <;> rfl

theorem withSide_side (c : Catalog) :
    (s.withSide which c).side w = if w = which then c else s.side w := by
  cases which <;> cases w <;> rfl

theorem insertOne_model : (s.insertOne which path f).2.model = s.model := by
  simp only [insertOne]
  split_ifs <;> exact withSide_model ..

theorem insertOne_root : (s.insertOne which path f).2.root = s.root := by
  simp only [insertOne]
  split_ifs <;> exact withSide_root ..

theorem insertOne_side :
    (s.insertOne which path f).2.side w =
      if w = which then (s.side which).insert (s.identityOf path f) (bodyOf f)
      else s.side w := by
  have h := s.withSide_side which w ((s.side which).insert (s.identityOf path f) (bodyOf f))
  simp only [insertOne]
  split_ifs at h ⊢ <;> cases w <;> exact h

theorem insertOne_matched :
    (s.insertOne which path f).2.matched = s.matched +
      if (s.side which).contains (s.identityOf path f) then 0
      else if (s.side (other which)).contains (s.identityOf path f) then 1 else 0 := by
  simp only [insertOne]
  split_ifs <;> simp

theorem Tallied.matched_eq_shared {s : ExampleStore} (h : s.Tallied) (which : Side) :
    s.matched = Catalog.shared (s.side which) (s.side (other which)) := by
  rw [h.matched]
  cases which with
  | source => rfl
  | decompiled => exact Catalog.shared_comm (h.ascending .source) (h.ascending .decompiled)

theorem Tallied.insertOne {s : ExampleStore} (h : s.Tallied) :
    (s.insertOne which path f).2.Tallied := by
  have hw : (s.insertOne which path f).2.side which =
      (s.side which).insert (s.identityOf path f) (bodyOf f) := by
    rw [insertOne_side, if_pos rfl]
  have ho : (s.insertOne which path f).2.side (other which) = s.side (other which) := by
    rw [insertOne_side, if_neg (by cases which <;> decide)]
  have hasc : ∀ w, ((s.insertOne which path f).2.side w).Ascending := by
    intro w
    rw [insertOne_side]
    split_ifs
    · exact (h.ascending which).insert _ _
    · exact h.ascending w
  have hcount : (s.insertOne which path f).2.matched =
      Catalog.shared ((s.insertOne which path f).2.side which)
        ((s.insertOne which path f).2.side (other which)) := by
    rw [insertOne_matched, hw, ho, h.matched_eq_shared which]
    by_cases hc : (s.side which).contains (s.identityOf path f) = true
    · rw [if_pos hc, Catalog.shared_insert_of_contains (h.ascending which) hc]
      rfl
    · rw [if_neg hc, Catalog.shared_insert_of_not_contains _ (by simpa using hc)]
  refine ⟨hasc, ?_⟩
  cases which with
  | source => exact hcount
  | decompiled => exact hcount.trans (Catalog.shared_comm (hasc .decompiled) (hasc .source))

theorem insert_eq_foldl (fs : List Function) :
    (s.insert which path fs).2 =
      (fs.filter Function.hasBody).foldl (fun s f => (s.insertOne which path f).2) s := by
  induction fs generalizing s with
  | nil => rfl
  | cons f fs ih =>
    unfold insert
    by_cases hb : f.hasBody = true
    · rw [if_pos hb, List.filter_cons_of_pos hb, List.foldl_cons]
      exact ih _
    · rw [if_neg hb, List.filter_cons_of_neg hb]
      exact ih s

theorem insert_invariant {P : ExampleStore → Prop}
    (step : ∀ s f, P s → P (s.insertOne which path f).2) (fs : List Function) (h : P s) :
    P (s.insert which path fs).2 := by
  rw [insert_eq_foldl]
  induction fs.filter Function.hasBody generalizing s with
  | nil => exact h
  | cons f fs ih => exact ih _ (step s f h)

theorem insert_model (fs : List Function) : (s.insert which path fs).2.model = s.model :=
  s.insert_invariant which path (P := fun t => t.model = s.model)
    (fun t f ht => (t.insertOne_model which path f).trans ht) fs rfl

theorem insert_root (fs : List Function) : (s.insert which path fs).2.root = s.root :=
  s.insert_invariant which path (P := fun t => t.root = s.root)
    (fun t f ht => (t.insertOne_root which path f).trans ht) fs rfl

theorem Tallied.insert {s : ExampleStore} (h : s.Tallied) (fs : List Function) :
    (s.insert which path fs).2.Tallied :=
  s.insert_invariant which path (fun _ f ht => ht.insertOne which path f) fs h

theorem le_insert_matched (fs : List Function) : s.matched ≤ (s.insert which path fs).2.matched :=
  s.insert_invariant which path (P := fun t => s.matched ≤ t.matched)
    (fun t f ht => by rw [insertOne_matched]; exact Nat.le_add_right_of_le ht) fs le_rfl

theorem filterMap_partner (c d part : Catalog) (h : ∀ e ∈ part, d.get? e.1 = some e.2) :
    (part.filterMap fun e => (c.get? e.1).map fun t => (t, e.2)).map (Prod.map some some) =
      (part.keys.filter c.contains).map fun i => (c.get? i, d.get? i) := by
  induction part with
  | nil => rfl
  | cons e rest ih =>
    obtain ⟨k, text⟩ := e
    have hd : d.get? k = some text := h (k, text) List.mem_cons_self
    have hrest := ih fun e he => h e (List.mem_cons_of_mem _ he)
    have hk : Catalog.keys ((k, text) :: rest) = k :: Catalog.keys rest := rfl
    cases hg : c.get? k with
    | none =>
      have hn : ¬ c.contains k = true := by simp [Catalog.contains, hg]
      rw [hk, List.filter_cons_of_neg hn, List.filterMap_cons_none (by simp [hg])]
      exact hrest
    | some t =>
      have hy : c.contains k = true := by simp [Catalog.contains, hg]
      rw [hk, List.filter_cons_of_pos hy, List.filterMap_cons_some (b := (t, text)) (by simp [hg]),
        List.map_cons, List.map_cons, hrest, hg, hd]
      rfl

theorem pairs_eq {s : ExampleStore} (h : s.decompileds.Ascending) :
    s.built.pairs.map (Prod.map some some) =
      (s.decompileds.keys.filter s.sources.contains).map
        fun i => (s.sources.get? i, s.decompileds.get? i) :=
  filterMap_partner s.sources s.decompileds s.decompileds fun _ he => h.get?_of_mem he

theorem Tallied.length_pairs {s : ExampleStore} (h : s.Tallied) :
    s.built.pairs.length = s.pendingExamples := by
  have hlen := congrArg List.length (pairs_eq (h.ascending .decompiled))
  rw [List.length_map, List.length_map] at hlen
  exact hlen.trans (h.matched_eq_shared .decompiled).symm

end FunctionPairs.ExampleStore
