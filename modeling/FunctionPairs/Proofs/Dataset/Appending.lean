import FunctionPairs.Dataset.Basic

/-!
Adding rows to a dataset. Pairs go into the three columns as rows, in order, as many as the cap
leaves room for; what fits of one batch after another is what fits of both together.
-/
namespace FunctionPairs.Dataset

def append (d : Dataset) (rs : List Row) : Dataset :=
  { d with
    sources := d.sources ++ rs.map (·.source)
    decompileds := d.decompileds ++ rs.map (·.decompiled)
    langs := d.langs ++ rs.map (·.lang) }

def rowsOf (lang : Lang) (pairs : List (String × String)) : List Row :=
  pairs.map fun p => ⟨lang, p.1, p.2⟩

def fitting {α : Type} (room : Option Nat) (batch : List α) : List α :=
  match room with
  | none => batch
  | some n => batch.take n

variable (d : Dataset) (rs ts : List Row)

theorem append_nil : d.append [] = d := by simp [append]

theorem append_append : (d.append rs).append ts = d.append (rs ++ ts) := by simp [append]

@[simp] theorem maxLen_append : (d.append rs).maxLen = d.maxLen := rfl

@[simp] theorem length_append : (d.append rs).length = d.length + rs.length := by
  simp [append, length]

theorem aligned_empty (n : Nat) : (empty n).Aligned := ⟨rfl, rfl⟩

theorem Aligned.append {d : Dataset} (h : d.Aligned) : (d.append rs).Aligned := by
  obtain ⟨hd, hl⟩ := h
  constructor <;> simp [Dataset.append, hd, hl]

theorem rows_empty (n : Nat) : (empty n).rows = [] := rfl

theorem rows_append {d : Dataset} (h : d.Aligned) : (d.append rs).rows = d.rows ++ rs := by
  obtain ⟨hd, hl⟩ := h
  have hrs : (rs.map (·.lang)).zip ((rs.map (·.source)).zip (rs.map (·.decompiled))) =
      rs.map fun r => (r.lang, r.source, r.decompiled) := by
    induction rs with
    | nil => rfl
    | cons r rs ih => simp [ih]
  unfold rows append
  rw [List.zip_append hd.symm, List.zip_append (by simp [hd, hl]), List.map_append, hrs, List.map_map]
  congr 1
  exact List.map_id rs

theorem length_rows {d : Dataset} (h : d.Aligned) : d.rows.length = d.length := by
  obtain ⟨hd, hl⟩ := h
  simp [rows, length, hd, hl]

theorem remaining_append : (d.append rs).remaining = d.remaining.map (· - rs.length) := by
  unfold remaining
  rw [maxLen_append, length_append]
  by_cases h : d.maxLen = 0 <;> simp [h, Nat.sub_sub]

theorem isFull_iff : d.isFull = true ↔ d.remaining = some 0 := by
  unfold isFull remaining
  by_cases h : d.maxLen = 0
  · simp [h]
  · simp only [h, if_false, Bool.and_eq_true, decide_eq_true_eq, Option.some.injEq]
    omega

@[simp] theorem fitting_nil {α : Type} (room : Option Nat) :
    fitting room ([] : List α) = [] := by
  cases room <;> simp [fitting]

theorem mem_of_mem_fitting {α : Type} {room : Option Nat} {batch : List α} {a : α}
    (h : a ∈ fitting room batch) : a ∈ batch := by
  cases room with
  | none => exact h
  | some n => exact List.mem_of_mem_take h

theorem length_append_fitting {d : Dataset} (hcap : 0 < d.maxLen) (hfits : d.length ≤ d.maxLen)
    (rs : List Row) :
    (d.append (fitting d.remaining rs)).length = min d.maxLen (d.length + rs.length) := by
  rw [length_append, remaining, if_neg (Nat.pos_iff_ne_zero.mp hcap), fitting, List.length_take]
  omega

theorem fitting_append {α : Type} (room : Option Nat) (xs ys : List α) :
    fitting room (xs ++ ys) =
      fitting room xs ++ fitting (room.map (· - (fitting room xs).length)) ys := by
  cases room with
  | none => rfl
  | some n =>
    have hn : n - min n xs.length = n - xs.length := by omega
    simp only [fitting, Option.map_some, List.length_take, hn]
    exact List.take_append

theorem extend_eq (lang : Lang) (pairs : List (String × String)) :
    d.extend lang pairs =
      ((fitting d.remaining (rowsOf lang pairs)).length,
        d.append (fitting d.remaining (rowsOf lang pairs))) := by
  induction pairs generalizing d with
  | nil =>
    have hnil : fitting d.remaining (rowsOf lang []) = [] := fitting_nil _
    rw [hnil, append_nil]
    rfl
  | cons p pairs ih =>
    obtain ⟨source, decompiled⟩ := p
    by_cases hfull : d.isFull = true
    · have hr := (isFull_iff d).mp hfull
      have hnil : fitting d.remaining (rowsOf lang ((source, decompiled) :: pairs)) = [] := by
        rw [hr]
        rfl
      rw [hnil, append_nil]
      simp only [extend, push, hfull, if_true]
      rfl
    · -- the row fits: it is appended, and the rest sees one place less
      let r : Row := ⟨lang, source, decompiled⟩
      have hpush : d.push r = (true, d.append [r]) := by
        unfold push
        rw [if_neg hfull]
        rfl
      have hone : fitting d.remaining [r] = [r] := by
        cases hr : d.remaining with
        | none => rfl
        | some n =>
          cases n with
          | zero => exact absurd ((isFull_iff d).mpr hr) hfull
          | succ n => simp [fitting]
      have hrows : fitting d.remaining (rowsOf lang ((source, decompiled) :: pairs)) =
          r :: fitting (d.append [r]).remaining (rowsOf lang pairs) := by
        show fitting d.remaining ([r] ++ rowsOf lang pairs) = _
        rw [fitting_append, hone, remaining_append]
        rfl
      unfold extend
      rw [hpush, hrows]
      simp only [ih, append_append]
      rfl

end FunctionPairs.Dataset
