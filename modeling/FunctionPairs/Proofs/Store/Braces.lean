import FunctionPairs.Proofs.BodySplit
import FunctionPairs.Proofs.Store.History

/-!
The texts that a store keeps. A function enters a store as its body in braces, whatever its text
is, so every text in a store is one that the cut at the braces gives back unchanged, and so is
every text of the examples built from it.
-/
namespace FunctionPairs.Catalog

theorem forall_mem_insert {P : String × String → Prop} {c : Catalog} {key text : String}
    (hnew : P (key, text)) (h : ∀ e ∈ c, P e) : ∀ e ∈ c.insert key text, P e := by
  induction c with
  | nil => exact List.forall_mem_singleton.mpr hnew
  | cons first rest ih =>
    obtain ⟨hfirst, hrest⟩ := List.forall_mem_cons.mp h
    rw [insert]
    split_ifs
    · exact List.forall_mem_cons.mpr ⟨hnew, h⟩
    · exact List.forall_mem_cons.mpr ⟨hnew, hrest⟩
    · exact List.forall_mem_cons.mpr ⟨hfirst, ih hrest⟩

theorem mem_of_get? {c : Catalog} {key text : String} (h : c.get? key = some text) :
    (key, text) ∈ c := by
  induction c with
  | nil => cases h
  | cons first rest ih =>
    obtain ⟨k, t⟩ := first
    rw [get?_cons] at h
    split_ifs at h with hk
    · cases h
      exact hk ▸ List.mem_cons_self
    · exact List.mem_cons_of_mem _ (ih h)

end FunctionPairs.Catalog

namespace FunctionPairs.ExampleStore

def Braced (s : ExampleStore) : Prop := ∀ which, ∀ e ∈ s.side which, BodySplit.Braced e.2

theorem braced_empty (m : LanguageModel) (root : Path) : (empty m root).Braced := by
  intro which e he
  cases which <;> cases he

variable {s : ExampleStore}

theorem Braced.insertOne (h : s.Braced) (which : Side) (path : Path) (f : Function) :
    (s.insertOne which path f).2.Braced := by
  intro w
  rw [insertOne_side]
  split_ifs
  · exact Catalog.forall_mem_insert (BodySplit.braced_bracedBody _) (h which)
  · exact h w

theorem Braced.step (h : s.Braced) (c : Call) : (s.step c).Braced := by
  apply step_invariant c h
  intro fs
  exact s.insert_invariant c.side c.path (fun _ f ht => ht.insertOne c.side c.path f) fs h

theorem Braced.pairs (h : s.Braced) {p : String × String} (hp : p ∈ s.built.pairs) :
    BodySplit.Braced p.1 ∧ BodySplit.Braced p.2 := by
  obtain ⟨e, he, hpair⟩ := List.mem_filterMap.mp hp
  obtain ⟨text, htext, rfl⟩ := Option.map_eq_some_iff.mp hpair
  exact ⟨h .source _ (Catalog.mem_of_get? htext), h .decompiled e he⟩

end FunctionPairs.ExampleStore
