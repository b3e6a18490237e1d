import FunctionPairs.Proofs.Store.History
import Mathlib.Data.Finset.Card
import Mathlib.Data.Finset.Basic

/-!
The number of examples at hand. A store counts them as functions come in, from one look at the other
side when an identity is new. After any history, failed calls included, the count is the number of
identities that successful calls have brought to both sides, and so the number of examples that
would be built; and no call lowers it.
-/
namespace FunctionPairs.ExampleStore

def identities (s : ExampleStore) (which : Side) : Finset String := (s.side which).keys.toFinset

theorem Tallied.card_identities {s : ExampleStore} (h : s.Tallied) :
    (s.identities .source ∩ s.identities .decompiled).card = s.pendingExamples := by
  have hboth : s.identities .source ∩ s.identities .decompiled =
      (s.sources.keys.filter s.decompileds.contains).toFinset := by
    ext i
    simp [identities, side, Catalog.mem_keys_iff]
  have hnodup : (s.sources.keys.filter s.decompileds.contains).Nodup :=
    (h.ascending .source).nodup.filter _
  calc (s.identities .source ∩ s.identities .decompiled).card
      = (s.sources.keys.filter s.decompileds.contains).length := by
        rw [hboth, List.toFinset_card_of_nodup hnodup]
    _ = s.pendingExamples := h.matched.symm

theorem Tallied.length_orphans {s : ExampleStore} (h : s.Tallied) (which : Side) :
    ((s.side which).keys.filter (!(s.side (other which)).contains ·)).length =
      (s.identities which \ s.identities (other which)).card := by
  have halone : s.identities which \ s.identities (other which) =
      ((s.side which).keys.filter (!(s.side (other which)).contains ·)).toFinset := by
    ext i
    simp [identities, Catalog.mem_keys_iff]
  rw [halone, List.toFinset_card_of_nodup ((h.ascending which).nodup.filter _)]

theorem isSome_lastBody (m : LanguageModel) (root : Path) (ds : List (Path × Function))
    (key : String) :
    (lastBody m root ds key).isSome = true ↔
      ∃ d ∈ ds, d.2.hasBody = true ∧ m.identity.identity root d.1 d.2.name = key := by
  simp [lastBody]

theorem mem_identities_run (m : LanguageModel) (root : Path) (calls : List Call) (which : Side)
    (key : String) :
    key ∈ ((empty m root).run calls).identities which ↔
      ∃ d ∈ delivered m which calls,
        d.2.hasBody = true ∧ m.identity.identity root d.1 d.2.name = key := by
  have hempty : Catalog.get? ((empty m root).side which) key = none := by cases which <;> rfl
  rw [identities, List.mem_toFinset, Catalog.mem_keys_iff, Catalog.contains, get?_run_side, hempty,
    Option.or_none]
  exact isSome_lastBody m root _ key

/-- After any history the count of a store is the number of identities on both its sides, which are
those that successful calls have brought there with a body; as many examples would be built; and
whatever the next call is, the count does not fall. -/
theorem pendingExamples_run (m : LanguageModel) (root : Path) (calls : List Call) :
    let s := (empty m root).run calls
    s.pendingExamples = (s.identities .source ∩ s.identities .decompiled).card ∧
      (∀ which key, key ∈ s.identities which ↔
        ∃ d ∈ delivered m which calls,
          d.2.hasBody = true ∧ m.identity.identity root d.1 d.2.name = key) ∧
      s.pendingExamples = s.buildExamples.value.pairs.length ∧
      ∀ c, s.pendingExamples ≤ (s.step c).pendingExamples := by
  intro s
  have htallied : s.Tallied := (tallied_empty m root).run calls
  exact ⟨htallied.card_identities.symm, mem_identities_run m root calls, htallied.length_pairs.symm,
    s.le_step_matched⟩

end FunctionPairs.ExampleStore
