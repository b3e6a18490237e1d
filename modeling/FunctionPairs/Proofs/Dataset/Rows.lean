import FunctionPairs.Dataset.Shuffle
import FunctionPairs.Proofs.Dataset.Sorting
import Mathlib.Data.List.Range

/-!
What each change of a dataset does to its rows. The three columns are cut, masked and reordered
alike, so the rows are cut, filtered and reordered as rows: a mask of languages filters them, a
mask of places takes a window of them, and a shuffle puts them in another order.
-/
namespace FunctionPairs.Dataset

variable {d : Dataset} {rs : List Row}

theorem rows_of_append (maxLen : Nat) (rs : List Row) : ((empty maxLen).append rs).rows = rs := by
  rw [rows_append _ (aligned_empty _), rows_empty, List.nil_append]

theorem length_of_append (maxLen : Nat) (rs : List Row) :
    ((empty maxLen).append rs).length = rs.length := by
  rw [length_append]
  exact Nat.zero_add _

theorem push_of_full (h : d.isFull = true) (r : Row) : d.push r = (false, d) := by
  simp [push, h]

theorem push_of_not_full (h : d.isFull = false) (r : Row) : d.push r = (true, d.append [r]) := by
  simp [push, h, append]

theorem isFull_eq_true : d.isFull = true ↔ 0 < d.maxLen ∧ d.maxLen ≤ d.length := by
  simp [isFull]

/-! Cutting. -/

theorem rows_splitAt (d : Dataset) (n : Nat) :
    (d.splitAt n).1.rows = d.rows.take n ∧ (d.splitAt n).2.rows = d.rows.drop n := by
  simp [splitAt, rows, List.zip, List.take_zipWith, List.drop_zipWith]

theorem Aligned.splitAt (h : d.Aligned) (n : Nat) :
    (d.splitAt n).1.Aligned ∧ (d.splitAt n).2.Aligned := by
  obtain ⟨hd, hl⟩ := h
  simp [Dataset.splitAt, Aligned, hd, hl]

theorem splitOffEnd_eq_ok {fraction : Float} {parts : Dataset × Dataset} :
    d.splitOffEnd fraction = .ok parts ↔ (0.0 ≤ fraction ∧ fraction ≤ 1.0) ∧
      parts = d.splitAt (d.length - min (shareOf d.length fraction) d.length) := by
  by_cases h : 0.0 ≤ fraction ∧ fraction ≤ 1.0
  · simp [splitOffEnd, h, @eq_comm _ _ parts]
  · simp [splitOffEnd, h]

/-! Masks. -/

theorem keep_map {α β : Type} (f : α → β) (mask : List Bool) (column : List α) :
    keep mask (column.map f) = (keep mask column).map f := by
  induction mask generalizing column with
  | nil => simp [keep]
  | cons b mask ih =>
    cases column with
    | nil => simp [keep]
    | cons a as => cases b <;> simp [keep, ih]

theorem retain_append (maxLen : Nat) (rs : List Row) (mask : List Bool) :
    ((empty maxLen).append rs).retain mask = (empty maxLen).append (keep mask rs) := by
  simp [retain, append, empty, keep_map]

theorem keep_filter {α : Type} (p : α → Bool) (column : List α) :
    keep (column.map p) column = column.filter p := by
  induction column with
  | nil => rfl
  | cons a as ih => cases h : p a <;> simp [keep, h, ih]

theorem keep_window {α : Type} (skip stop first : Nat) (column : List α) :
    keep ((List.range' first column.length).map fun i => decide (skip ≤ i) && decide (i < stop))
      column = (column.take (stop - first)).drop (skip - first) := by
  induction column generalizing first with
  | nil => simp [keep]
  | cons a as ih =>
    rw [List.length_cons, List.range'_succ, List.map_cons]
    by_cases hstop : first < stop
    · obtain ⟨n, hn⟩ : ∃ n, stop - first = n + 1 := ⟨stop - first - 1, by omega⟩
      have hnext : stop - (first + 1) = n := by omega
      by_cases hskip : skip ≤ first
      · have hzero : skip - first = 0 ∧ skip - (first + 1) = 0 := by omega
        simp [keep, hskip, hstop, ih, hn, hnext, hzero]
      · obtain ⟨k, hk⟩ : ∃ k, skip - first = k + 1 := ⟨skip - first - 1, by omega⟩
        have hnextSkip : skip - (first + 1) = k := by omega
        simp [keep, hskip, ih, hn, hnext, hk, hnextSkip]
    · have hzero : stop - first = 0 ∧ stop - (first + 1) = 0 := by omega
      simp [keep, hstop, ih, hzero]

theorem limitLangs_append (maxLen : Nat) (rs : List Row) (langs : List Lang) :
    ((empty maxLen).append rs).limitLangs langs =
      (empty maxLen).append (rs.filter fun r => langs.contains r.lang) := by
  have hmask : ((empty maxLen).append rs).langs.map langs.contains =
      rs.map fun r => langs.contains r.lang := by
    simp [append, empty]
  rw [limitLangs, hmask, retain_append, keep_filter]

/-- The rows from `skip` on, and of these at most `count` unless `count` is 0. -/
def window {α : Type} (count skip : Nat) (column : List α) : List α :=
  if count = 0 then column.drop skip else (column.drop skip).take count

theorem limitCount_eq (maxLen : Nat) (rs : List Row) (count skip : Nat) :
    ((empty maxLen).append rs).limitCount count skip = (empty maxLen).append
      ((rs.take (if count = 0 then Decimal.maxCount else addCapped skip count)).drop skip) := by
  have hwindow := fun stop => keep_window skip stop 0 rs
  simp only [Nat.sub_zero] at hwindow
  rw [limitCount, length_of_append, retain_append, List.range_eq_range']
  exact congrArg _ (hwindow _)

theorem drop_take_window {α : Type} {column : List α} (h : column.length ≤ Decimal.maxCount)
    (count skip : Nat) :
    (column.take (if count = 0 then Decimal.maxCount else addCapped skip count)).drop skip =
      window count skip column := by
  have hall : column.take Decimal.maxCount = column := List.take_of_length_le h
  rw [window]
  by_cases hcount : count = 0
  · simp [hcount, hall]
  · by_cases hsum : skip + count ≤ Decimal.maxCount
    · have hlen : skip + count - skip = count := by omega
      simp [hcount, addCapped, Nat.min_eq_left hsum, List.drop_take, hlen]
    · -- the sum stops at the greatest count, which no row lies beyond
      have hrest : (column.drop skip).take count = column.drop skip := by
        apply List.take_of_length_le
        rw [List.length_drop]
        omega
      simp [hcount, addCapped, Nat.min_eq_right (Nat.le_of_not_le hsum), hall, hrest]

/-! Orders. -/

theorem pick_append {α : Type} (order : List Nat) (as bs : List α)
    (h : ∀ i ∈ order, i < as.length) : pick order (as ++ bs) = pick order as := by
  rw [pick, pick]
  apply List.filterMap_congr
  intro i hi
  exact List.getElem?_append_left (h i hi)

theorem pick_range {α : Type} (column : List α) :
    pick (List.range column.length) column = column := by
  induction column using List.reverseRecOn with
  | nil => rfl
  | append_singleton as a ih =>
    have hfirst := pick_append (List.range as.length) as [a] fun i hi => List.mem_range.mp hi
    rw [List.length_append, List.length_singleton, List.range_succ, pick, List.filterMap_append]
    rw [pick, pick] at hfirst
    rw [pick] at ih
    rw [hfirst, ih]
    simp

theorem pick_perm {α : Type} {order : List Nat} {column : List α}
    (h : order.Perm (List.range column.length)) : (pick order column).Perm column := by
  have hperm : (pick order column).Perm (pick (List.range column.length) column) :=
    h.filterMap (column[·]?)
  rwa [pick_range] at hperm

theorem draw_lt (g : Generator) : g.draw.1.toNat < Generator.wordSize := g.draw.1.toNat_lt

theorem belowFrom_lt {n : Nat} (hn : 0 < n) (least tries : Nat) (g : Generator) :
    (Generator.belowFrom n least tries g).1 < n := by
  induction tries generalizing g with
  | zero => exact hn
  | succ tries ih =>
    have hword := draw_lt g
    rw [Generator.belowFrom]
    dsimp only
    split_ifs
    · exact ih _
    · exact Nat.div_lt_of_lt_mul (Nat.mul_lt_mul_of_pos_right hword hn)

theorem below_lt (g : Generator) {n : Nat} (hn : 0 < n) : (g.below n).1 < n := by
  rw [Generator.below]
  -- no unification may count the tries down from the size of a word
  generalize Generator.wordSize = tries
  exact belowFrom_lt hn _ _ g

theorem shufflePlaces_perm (places : List Nat) (g : Generator) (order : Array Nat) :
    (shufflePlaces places g order).Perm order := by
  induction places generalizing g order with
  | nil => exact .refl order
  | cons i rest ih =>
    rw [shufflePlaces]
    refine (ih _ _).trans ?_
    rw [Array.swapIfInBounds_def]
    split_ifs with hi hj
    · exact Array.swap_perm hi hj
    · exact .refl order
    · exact .refl order

theorem shuffledOrder_perm (seed : UInt64) (length : Nat) :
    (shuffledOrder seed length).Perm (List.range length) := by
  have hperm := shufflePlaces_perm ((List.range length).drop 1) ⟨seed⟩ (Array.range length)
  rw [Array.perm_iff_toList_perm, Array.toList_range] at hperm
  exact hperm

theorem shuffle_append (maxLen : Nat) (rs : List Row) (seed : UInt64) :
    ∃ ts, ts.Perm rs ∧ ((empty maxLen).append rs).shuffle seed = (empty maxLen).append ts := by
  refine ⟨pick (shuffledOrder seed rs.length) rs, pick_perm (shuffledOrder_perm seed _), ?_⟩
  rw [shuffle, length_of_append, reorder_append]

end FunctionPairs.Dataset
