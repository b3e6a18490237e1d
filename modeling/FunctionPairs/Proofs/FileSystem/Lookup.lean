import FunctionPairs.FileSystem.Operations
import Mathlib.Data.List.Basic
import Mathlib.Tactic.SplitIfs

/-!
What lookups find. A listing has the names of a directory in the byte order of names; a written
file is found where it was written, and everything else is where it was.
-/
namespace FunctionPairs

theorem Name.le_iff (a b : Name) : Name.le a b = true ↔ a ≤ b := by
  unfold Name.le
  rw [Bool.not_eq_true', List.lex_eq_false_iff_ge]

namespace FileSystem

variable (fs : FileSystem)

theorem namesIn_ascending (l : Location) : (fs.namesIn l).Pairwise (· ≤ ·) := by
  have htrans : ∀ a b c : Name, Name.le a b = true → Name.le b c = true → Name.le a c = true := by
    intro a b c hab hbc
    rw [Name.le_iff] at *
    exact List.le_trans hab hbc
  have htotal : ∀ a b : Name, (Name.le a b || Name.le b a) = true := by
    intro a b
    rw [Bool.or_eq_true, Name.le_iff, Name.le_iff]
    exact List.le_total a b
  have hsorted := List.pairwise_mergeSort htrans htotal
  exact (hsorted _).imp fun h => (Name.le_iff _ _).mp h

theorem names_of_list {p : Path} {entries : List Path} (h : fs.list p = .ok entries) :
    ∃ l, fs.find true p = .ok (l, .directory) ∧ entries = (fs.namesIn l).map p.child := by
  unfold FileSystem.list at h
  cases hf : fs.find true p with
  | error e => simp [hf] at h
  | ok found =>
    obtain ⟨l, e⟩ := found
    cases e <;> simp [hf] at h
    exact ⟨l, rfl, h.symm⟩

theorem entry_of_list {p : Path} {entries : List Path} (h : fs.list p = .ok entries) :
    fs.entry p = .ok .directory := by
  obtain ⟨l, hf, -⟩ := fs.names_of_list h
  unfold FileSystem.entry
  rw [hf]
  rfl

theorem entryAt_put {l : Location} (hl : l ≠ []) (e : Entry) :
    (fs.put l e).entryAt l = some e := by
  have hfilter : ∀ es : List (Location × Entry), (es.filter (·.1 ≠ l)).lookup l = none := by
    intro es
    rw [List.lookup_eq_none_iff]
    intro x hx
    have hne := (List.mem_filter.mp hx).2
    simp only [ne_eq, decide_not, Bool.not_eq_true', decide_eq_false_iff_not] at hne
    simpa using fun h => hne h.symm
  cases l with
  | nil => exact absurd rfl hl
  | cons n l =>
    show ((fs.entries.filter (·.1 ≠ n :: l)) ++ [(n :: l, e)]).lookup (n :: l) = some e
    rw [List.lookup_append, hfilter]
    simp

theorem entryAt_write {fs' : FileSystem} {p : Path} {contents : Bytes}
    (h : fs.write p contents = .ok fs') :
    ∃ l, fs.writable p = .ok l ∧
      fs'.entryAt l = some (.file contents (fs.executableAt l)) := by
  unfold FileSystem.write at h
  cases hw : fs.writable p with
  | error e =>
    rw [hw] at h
    cases h
  | ok l =>
    rw [hw] at h
    cases h
    refine ⟨l, rfl, fs.entryAt_put ?_ _⟩
    -- the root is a directory, so no path to it can be written
    rintro rfl
    unfold FileSystem.writable at hw
    cases hr : fs.resolve true (if p.endsInSlash then ⟨p.bytes.dropLast⟩ else p) with
    | error e =>
      rw [hr] at hw
      cases hw
    | ok l =>
      rw [hr] at hw
      dsimp only at hw
      split_ifs at hw
      cases l with
      | nil => cases hw
      | cons n l =>
        cases he : fs.entryAt (n :: l) with
        | none =>
          rw [he] at hw
          cases hw
        | some e =>
          rw [he] at hw
          cases e <;> cases hw

end FileSystem
end FunctionPairs
