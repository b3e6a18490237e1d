import FunctionPairs.Proofs.Transformation.Course

/-!
What lies in the output after some visits, if it has no links: at every place what the last visit
that has put something there has put.
-/
namespace FunctionPairs

namespace Visit

def outcome (r : List Name) : List Visit → Option Entry
  | [] => none
  | v :: vs => (outcome r vs).or (if v.target = r then v.entry? else none)

variable {r : List Name} {v : Visit} {vs : List Visit} {e : Entry}

theorem target_ne_nil (v : Visit) : v.target ≠ [] := by
  obtain ⟨p, deed⟩ := v
  cases deed <;> simp [target]

theorem mem_of_outcome (h : outcome r vs = some e) :
    ∃ v ∈ vs, v.target = r ∧ v.entry? = some e := by
  induction vs with
  | nil => cases h
  | cons v vs ih =>
    rw [outcome, Option.or_eq_some_iff] at h
    rcases h with hlater | ⟨-, hfirst⟩
    · obtain ⟨v', hv', hput⟩ := ih hlater
      exact ⟨v', List.mem_cons_of_mem v hv', hput⟩
    · split_ifs at hfirst with htarget
      exact ⟨v, List.mem_cons_self, htarget, hfirst⟩

end Visit

namespace Transformer

variable {σ : Type} {t : Transformer σ} {d : DirPair} {li lo : Location} {s s' : TransformState σ}
  {v : Visit} {vs : List Visit}

theorem Visited.entryAt (h : Visited t d li lo s v s') (hplain : s.files.Plain lo) (r : List Name) :
    s'.files.entryAt (lo ++ r) =
      (if v.target = r then v.entry? else none).or (s.files.entryAt (lo ++ r)) := by
  have hne : lo ++ v.target ≠ [] := by simp [v.target_ne_nil]
  rw [(h.laid.plainly hplain).1, Visit.lay]
  cases v.entry? with
  | none => simp
  | some e =>
    dsimp only
    rw [FileSystem.entryAt_put_cases hne]
    by_cases htarget : v.target = r
    · simp [htarget]
    · simp [htarget, Ne.symm htarget]

theorem Trail.entryAt (h : Trail t d li lo s vs s') (hplain : s.files.Plain lo) (r : List Name) :
    s'.files.entryAt (lo ++ r) = (Visit.outcome r vs).or (s.files.entryAt (lo ++ r)) := by
  induction h with
  | nil s => rfl
  | cons first rest ih =>
    rw [ih (first.fills hplain).plain, first.entryAt hplain, Visit.outcome, Option.or_assoc]

structure Answered (t : Transformer σ) (p : Spot) (k : Task) (answers : List String) : Prop where
  task : t.task? p.name k.contents = some k
  asked : ∃ state final, Asked t.translator state k.bodies answers final

theorem Trail.answered (h : Trail t d li lo s vs s') :
    ∀ v ∈ vs, ∀ k answers x, v.deed = .rewritten k answers x → Answered t v.spot k answers := by
  induction h with
  | nil s => exact nofun
  | @cons s s₁ s' v vs first rest ih =>
    refine List.forall_mem_cons.mpr ⟨fun k answers x hdeed => ?_, ih⟩
    have hdue := first.due
    rw [hdeed] at hdue
    cases hdue with
    | rewritten hfound htask _ hasked =>
      have hcontents := (task?_eq_some.mp htask).2.2.2.2
      exact ⟨hcontents ▸ htask, _, _, hasked⟩

end Transformer
end FunctionPairs
