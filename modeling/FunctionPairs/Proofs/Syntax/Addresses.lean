import FunctionPairs.Syntax.Tree
import Mathlib.Data.List.Basic
import Mathlib.Tactic.SplitIfs

/-!
Nodes told apart by where they stand. An address leads from the root down by child numbers, so that
nodes that look alike are still different ones. Listing the nodes of a tree with their addresses
changes nothing about the list: without the addresses it is the search over the tree, each address
leads to its node, and the addresses ascend, so that every node is listed once, in document order.
-/
namespace FunctionPairs.Syntax.Tree

@[induction_eliminator]
theorem children_induction {P : Tree → Prop}
    (node : ∀ k p s cs, (∀ c ∈ cs, P c) → P (node k p s cs)) (t : Tree) : P t := by
  match t with
  | .node k p s cs => exact node k p s cs fun c _ => children_induction node c

def subtreeAt (t : Tree) : List Nat → Option Tree
  | [] => some t
  | n :: address => t.children[n]?.bind fun c => c.subtreeAt address

variable (dialect : Dialect) (source : Bytes)

def scopesInside (scopes : List String) (t : Tree) : List String :=
  scopes ++ (t.scopeName? dialect source).toList

/-- All nodes of a tree with their addresses and the scopes around them, each node before what it
holds. -/
def located (scopes : List String) : Tree → List (List Nat × Definition)
  | node k p s cs =>
    ([], ⟨scopes, node k p s cs⟩) ::
      locatedIn (scopesInside dialect source scopes (node k p s cs)) 0 cs
where
  locatedIn (inner : List String) (n : Nat) : List Tree → List (List Nat × Definition)
    | [] => []
    | c :: cs => (located inner c).map (Prod.map (n :: ·) id) ++ locatedIn inner (n + 1) cs

open located

theorem located_eq (scopes : List String) (t : Tree) :
    located dialect source scopes t = ([], ⟨scopes, t⟩) ::
      locatedIn dialect source (scopesInside dialect source scopes t) 0 t.children := by
  cases t
  rw [located]
  rfl

theorem nodesOf_eq (inner : List String) (cs : List Tree) :
    nodesWithin.nodesOf dialect source inner cs =
      cs.flatMap (nodesWithin dialect source inner) := by
  induction cs with
  | nil => rw [nodesWithin.nodesOf, List.flatMap_nil]
  | cons c cs ih => rw [nodesWithin.nodesOf, ih, List.flatMap_cons]

theorem nodesWithin_eq (scopes : List String) (t : Tree) :
    nodesWithin dialect source scopes t = ⟨scopes, t⟩ ::
      t.children.flatMap (nodesWithin dialect source (scopesInside dialect source scopes t)) := by
  obtain ⟨k, p, s, cs⟩ := t
  rw [nodesWithin, nodesOf_eq, scopesInside]
  cases scopeName? dialect source (node k p s cs) with
  | none => rw [Option.toList_none, List.append_nil]; rfl
  | some n => rfl

theorem map_snd_locatedIn (inner : List String) (n : Nat) {cs : List Tree}
    (h : ∀ c ∈ cs, (located dialect source inner c).map Prod.snd =
      nodesWithin dialect source inner c) :
    (locatedIn dialect source inner n cs).map Prod.snd =
      cs.flatMap (nodesWithin dialect source inner) := by
  induction cs generalizing n with
  | nil => rfl
  | cons c cs ih =>
    obtain ⟨hfirst, hothers⟩ := List.forall_mem_cons.mp h
    rw [locatedIn, List.map_append, List.map_map, List.flatMap_cons, ih (n + 1) hothers, ← hfirst]
    rfl

theorem map_snd_located (scopes : List String) (t : Tree) :
    (located dialect source scopes t).map Prod.snd = nodesWithin dialect source scopes t := by
  induction t generalizing scopes with
  | node k p s cs ih =>
    rw [located_eq, nodesWithin_eq, List.map_cons]
    exact congrArg (List.cons _) (map_snd_locatedIn dialect source _ 0 fun c hc => ih c hc _)

theorem mem_locatedIn {inner : List String} {n : Nat} {cs : List Tree} {e : List Nat × Definition} :
    e ∈ locatedIn dialect source inner n cs ↔ ∃ j c d, cs[j]? = some c ∧
      d ∈ located dialect source inner c ∧ e = ((n + j) :: d.1, d.2) := by
  induction cs generalizing n with
  | nil => simp [locatedIn]
  | cons c cs ih =>
    rw [locatedIn, List.mem_append, List.mem_map, ih]
    constructor
    · rintro (⟨d, hd, rfl⟩ | ⟨j, c', d, hc, hd, rfl⟩)
      · exact ⟨0, c, d, rfl, hd, rfl⟩
      · exact ⟨j + 1, c', d, hc, hd, by rw [Nat.add_right_comm, Nat.add_assoc]⟩
    · rintro ⟨_ | j, c', d, hc, hd, rfl⟩
      · cases hc
        exact Or.inl ⟨d, hd, rfl⟩
      · exact Or.inr ⟨j, c', d, hc, hd, by rw [Nat.add_right_comm, Nat.add_assoc]⟩

theorem filter_locatedIn_eq_nil (p : List Nat → Bool) {inner : List String} {n : Nat}
    {cs : List Tree} (h : ∀ j address, p ((n + j) :: address) = false) :
    (locatedIn dialect source inner n cs).filter (fun e => p e.1) = [] := by
  apply List.filter_eq_nil_iff.mpr
  intro e he
  obtain ⟨j, c, d, -, -, rfl⟩ := (mem_locatedIn dialect source).mp he
  exact Bool.not_eq_true _ ▸ h j d.1

theorem filter_locatedIn (inner : List String) (n k : Nat) (cs : List Tree) :
    (locatedIn dialect source inner n cs).filter (fun e => e.1 == [n + k]) =
      cs[k]?.toList.map fun c => ([n + k], ⟨inner, c⟩) := by
  induction cs generalizing n k with
  | nil => simp [locatedIn]
  | cons c cs ih =>
    rw [locatedIn, List.filter_append, List.filter_map, located_eq]
    cases k with
    | zero =>
      have hothers : (locatedIn dialect source inner (n + 1) cs).filter
          (fun e => e.1 == [n]) = [] := by
        apply filter_locatedIn_eq_nil dialect source (· == [n])
        intro j address
        simp
        omega
      have hinside : (locatedIn dialect source (scopesInside dialect source inner c) 0
          c.children).filter (fun e => e.1 == []) = [] :=
        filter_locatedIn_eq_nil dialect source (· == []) fun _ _ => rfl
      simpa [Function.comp_def, hothers] using hinside
    | succ k =>
      have hnext := ih (n + 1) k
      rw [Nat.add_right_comm, Nat.add_assoc] at hnext
      simp [Function.comp_def, hnext]

theorem subtreeAt_of_mem_located {scopes : List String} {t : Tree} {e : List Nat × Definition}
    (h : e ∈ located dialect source scopes t) : t.subtreeAt e.1 = some e.2.node := by
  induction t generalizing scopes e with
  | node k p s cs ih =>
    rw [located_eq, List.mem_cons, mem_locatedIn] at h
    rcases h with rfl | ⟨j, c, d, hc, hd, rfl⟩
    · rfl
    · have hnode := ih c (List.mem_of_getElem? hc) hd
      rw [Nat.zero_add, subtreeAt, hc]
      exact hnode

theorem locatedIn_ascending (inner : List String) (n : Nat) {cs : List Tree}
    (h : ∀ c ∈ cs, (located dialect source inner c).Pairwise fun d e => d.1 < e.1) :
    (locatedIn dialect source inner n cs).Pairwise fun d e => d.1 < e.1 := by
  induction cs generalizing n with
  | nil => exact List.Pairwise.nil
  | cons c cs ih =>
    obtain ⟨hfirst, hothers⟩ := List.forall_mem_cons.mp h
    rw [locatedIn]
    refine List.pairwise_append.mpr ⟨?_, ih (n + 1) hothers, ?_⟩
    · apply List.pairwise_map.mpr
      apply hfirst.imp
      intro d e hde
      exact List.cons_lt_cons_iff.mpr (Or.inr ⟨rfl, hde⟩)
    · intro e he e' he'
      obtain ⟨d, -, rfl⟩ := List.mem_map.mp he
      obtain ⟨j, c', d', -, -, rfl⟩ := (mem_locatedIn dialect source).mp he'
      exact List.cons_lt_cons_iff.mpr (Or.inl (by omega))

theorem located_ascending (scopes : List String) (t : Tree) :
    (located dialect source scopes t).Pairwise fun d e => d.1 < e.1 := by
  induction t generalizing scopes with
  | node k p s cs ih =>
    rw [located_eq]
    refine List.pairwise_cons.mpr ⟨?_, ?_⟩
    · intro e he
      obtain ⟨j, c, d, -, -, rfl⟩ := (mem_locatedIn dialect source).mp he
      exact List.nil_lt_cons _ _
    · exact locatedIn_ascending dialect source _ 0 fun c hc => ih c hc _

end FunctionPairs.Syntax.Tree
