import Mathlib.Data.List.Nodup
import Mathlib.Data.List.Perm.Subperm

/-!
Searching depth first where nodes with one key count as one. A node is entered before those that
it leads to, these before the nodes behind it, and no key is entered twice.
-/
namespace FunctionPairs

variable {α κ : Type} {key : α → κ} {next : α → List α}

/-- The nodes that are entered for the pending ones, in order, when the keys in `seen` have been
entered before. -/
inductive DepthFirst (key : α → κ) (next : α → List α) : List κ → List α → List α → Prop
  | nil {seen : List κ} : DepthFirst key next seen [] []
  | again {seen : List κ} {p : α} {rest entered : List α} (h : key p ∈ seen)
    (behind : DepthFirst key next seen rest entered) : DepthFirst key next seen (p :: rest) entered
  | enter {seen : List κ} {p : α} {rest below others : List α} (h : key p ∉ seen)
    (inside : DepthFirst key next (key p :: seen) (next p) below)
    (behind : DepthFirst key next ((below.map key).reverse ++ key p :: seen) rest others) :
    DepthFirst key next seen (p :: rest) (p :: (below ++ others))

namespace DepthFirst

variable {seen : List κ} {pending entered other : List α}

theorem unique (h : DepthFirst key next seen pending entered)
    (h' : DepthFirst key next seen pending other) : other = entered := by
  induction h generalizing other with
  | nil =>
    cases h'
    rfl
  | again hp behind ih =>
    cases h' with
    | again _ behind' => exact ih behind'
    | enter hp' _ _ => exact absurd hp hp'
  | enter hp inside behind ihInside ihBehind =>
    cases h' with
    | again hp' _ => exact absurd hp' hp
    | enter _ inside' behind' =>
      cases ihInside inside'
      cases ihBehind behind'
      rfl

theorem nodup (h : DepthFirst key next seen pending entered) :
    (entered.map key).Nodup ∧ ∀ q ∈ entered, key q ∉ seen := by
  induction h with
  | nil => simp
  | again hp behind ih => exact ih
  | @enter seen p rest below others hp inside behind ihInside ihBehind =>
    obtain ⟨hbelow, hfresh⟩ := ihInside
    obtain ⟨hothers, hlater⟩ := ihBehind
    have hout : ∀ q ∈ others, key q ∉ below.map key ∧ key q ≠ key p ∧ key q ∉ seen := by
      intro q hq
      simpa using hlater q hq
    have hin : ∀ q ∈ below, key q ≠ key p ∧ key q ∉ seen := by
      intro q hq
      simpa using hfresh q hq
    refine ⟨?_, ?_⟩
    · rw [List.map_cons, List.map_append, List.nodup_cons, List.nodup_append]
      refine ⟨?_, hbelow, hothers, ?_⟩
      · simp only [List.mem_append, List.mem_map]
        rintro (⟨q, hq, heq⟩ | ⟨q, hq, heq⟩)
        · exact (hin q hq).1 heq
        · exact (hout q hq).2.1 heq
      · rintro k hk l hl rfl
        obtain ⟨q, hq, rfl⟩ := List.mem_map.mp hl
        exact (hout q hq).1 hk
    · intro q hq
      rcases List.mem_cons.mp hq with rfl | hq
      · exact hp
      rcases List.mem_append.mp hq with hq | hq
      · exact (hin q hq).2
      · exact (hout q hq).2.2

theorem closed (h : DepthFirst key next seen pending entered) :
    (∀ q ∈ pending, key q ∈ seen ∨ key q ∈ entered.map key) ∧
      ∀ q ∈ entered, ∀ r ∈ next q, key r ∈ seen ∨ key r ∈ entered.map key := by
  induction h with
  | nil => simp
  | again hp behind ih =>
    refine ⟨fun q hq => ?_, ih.2⟩
    rcases List.mem_cons.mp hq with rfl | hq
    · exact .inl hp
    · exact ih.1 q hq
  | @enter seen p rest below others hp inside behind ihInside ihBehind =>
    obtain ⟨hnext, hbelow⟩ := ihInside
    obtain ⟨hrest, hothers⟩ := ihBehind
    have hin : ∀ r, key r ∈ key p :: seen ∨ key r ∈ below.map key →
        key r ∈ seen ∨ key r ∈ (p :: (below ++ others)).map key := by
      intro r hr
      simp only [List.mem_cons, List.map_cons, List.map_append, List.mem_append] at hr ⊢
      tauto
    have hout : ∀ r, key r ∈ (below.map key).reverse ++ key p :: seen ∨ key r ∈ others.map key →
        key r ∈ seen ∨ key r ∈ (p :: (below ++ others)).map key := by
      intro r hr
      simp only [List.mem_cons, List.map_cons, List.map_append, List.mem_append,
        List.mem_reverse] at hr ⊢
      tauto
    refine ⟨fun q hq => ?_, fun q hq r hr => ?_⟩
    · rcases List.mem_cons.mp hq with rfl | hq
      · simp
      · exact hout q (hrest q hq)
    · rcases List.mem_cons.mp hq with rfl | hq
      · exact hin r (hnext r hr)
      rcases List.mem_append.mp hq with hq | hq
      · exact hin r (hbelow q hq r hr)
      · exact hout r (hothers q hq r hr)

theorem origin (h : DepthFirst key next seen pending entered) {q : α} (hq : q ∈ entered) :
    q ∈ pending ∨ ∃ r, q ∈ next r := by
  induction h with
  | nil => cases hq
  | again hp behind ih => exact (ih hq).imp_left (List.mem_cons_of_mem _)
  | @enter seen p rest below others hp inside behind ihInside ihBehind =>
    rcases List.mem_cons.mp hq with rfl | hq
    · exact .inl List.mem_cons_self
    rcases List.mem_append.mp hq with hq | hq
    · exact .inr ((ihInside hq).elim (fun h => ⟨p, h⟩) id)
    · exact (ihBehind hq).imp_left (List.mem_cons_of_mem _)

end DepthFirst

variable [DecidableEq κ]

end FunctionPairs
