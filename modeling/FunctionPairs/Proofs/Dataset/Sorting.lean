import FunctionPairs.Proofs.Dataset.Appending
import Mathlib.Data.List.Zip

/-!
Sorting a dataset by the length of its sources. The three columns are put in the same order, so
that the rows are sorted as rows: ascending in length, and rows of one length as they stood.
-/
namespace FunctionPairs.Dataset

def shorter (r t : Row) : Bool := Text.byteLength r.source ≤ Text.byteLength t.source

/-- The stable ascending order: it leaves the rows of any one length as they stood. -/
structure SortedByLength (rs ts : List Row) : Prop where
  ascending : ts.Pairwise fun r t => Text.byteLength r.source ≤ Text.byteLength t.source
  stable : ∀ n, ts.filter (fun r => Text.byteLength r.source = n) =
    rs.filter fun r => Text.byteLength r.source = n

theorem SortedByLength.perm {rs ts : List Row} (h : SortedByLength rs ts) : ts.Perm rs := by
  rw [List.perm_iff_count]
  intro r
  let p : Row → Bool := fun t => Text.byteLength t.source = Text.byteLength r.source
  have hr : p r = true := decide_eq_true rfl
  calc ts.count r = (ts.filter p).count r := (List.count_filter hr).symm
    _ = (rs.filter p).count r := by rw [h.stable]
    _ = rs.count r := List.count_filter hr

theorem append_rows {d : Dataset} (h : d.Aligned) : (empty d.maxLen).append d.rows = d := by
  obtain ⟨hd, hl⟩ := h
  obtain ⟨maxLen, sources, decompileds, langs⟩ := d
  dsimp only at hd hl
  have hzip : (sources.zip decompileds).length = sources.length := by
    rw [List.length_zip, hd, Nat.min_self]
  unfold append rows empty
  simp only [List.nil_append, List.map_map]
  congr 1
  · calc (langs.zip (sources.zip decompileds)).map (fun x => x.2.1)
        = ((langs.zip (sources.zip decompileds)).map Prod.snd).map Prod.fst := by
          rw [List.map_map]; rfl
      _ = sources := by
          rw [List.map_snd_zip (by omega), List.map_fst_zip (by omega)]
  · calc (langs.zip (sources.zip decompileds)).map (fun x => x.2.2)
        = ((langs.zip (sources.zip decompileds)).map Prod.snd).map Prod.snd := by
          rw [List.map_map]; rfl
      _ = decompileds := by
          rw [List.map_snd_zip (by omega), List.map_snd_zip (by omega)]
  · exact List.map_fst_zip (by omega)

theorem pick_map {α β : Type} (order : List Nat) (f : α → β) (column : List α) :
    pick order (column.map f) = (pick order column).map f := by
  unfold pick
  rw [List.map_filterMap]
  congr 1
  funext i
  exact List.getElem?_map

theorem reorder_append (maxLen : Nat) (rs : List Row) (order : List Nat) :
    ((empty maxLen).append rs).reorder order = (empty maxLen).append (pick order rs) := by
  unfold reorder append empty
  simp only [List.nil_append, pick_map]

theorem orderByLength_append (maxLen : Nat) (rs : List Row) :
    ((empty maxLen).append rs).orderByLength =
      (rs.zipIdx.mergeSort fun x y => shorter x.1 y.1).map Prod.snd := by
  have hkeyed : (List.range ((empty maxLen).append rs).length).zip
      (((empty maxLen).append rs).sources.map Text.byteLength) =
      rs.zipIdx.map fun x => (x.2, Text.byteLength x.1.source) := by
    have hlengths : ((empty maxLen).append rs).sources.map Text.byteLength =
        rs.map fun r => Text.byteLength r.source := by
      simp only [append, empty, List.nil_append, List.map_map]
      rfl
    have hcount : ((empty maxLen).append rs).length = rs.length := by
      rw [length_append]
      exact Nat.zero_add _
    rw [hlengths, hcount, List.zipIdx_eq_zip_range', List.range_eq_range', List.zip_map_right,
      ← List.zip_swap rs, List.map_map]
    rfl
  have hsort : (rs.zipIdx.mergeSort fun x y => shorter x.1 y.1).map
      (fun x => (x.2, Text.byteLength x.1.source)) =
      (rs.zipIdx.map fun x => (x.2, Text.byteLength x.1.source)).mergeSort
        fun a b => decide (a.2 ≤ b.2) := List.map_mergeSort fun x _ y _ => rfl
  unfold orderByLength
  dsimp only
  rw [hkeyed, ← hsort, List.map_map]
  rfl

theorem pick_orderByLength (maxLen : Nat) (rs : List Row) :
    pick ((empty maxLen).append rs).orderByLength rs = rs.mergeSort shorter := by
  have hplaces : ∀ x ∈ rs.zipIdx.mergeSort fun x y => shorter x.1 y.1,
      rs[x.2]? = some x.1 := by
    intro x hx
    rw [List.mem_mergeSort] at hx
    exact List.mem_zipIdx_iff_getElem?.mp hx
  have hsort : (rs.zipIdx.mergeSort fun x y => shorter x.1 y.1).map Prod.fst =
      (rs.zipIdx.map Prod.fst).mergeSort shorter := List.map_mergeSort fun x _ y _ => rfl
  calc pick ((empty maxLen).append rs).orderByLength rs
      = (rs.zipIdx.mergeSort fun x y => shorter x.1 y.1).filterMap fun x => rs[x.2]? := by
        rw [orderByLength_append]
        exact List.filterMap_map
    _ = (rs.zipIdx.mergeSort fun x y => shorter x.1 y.1).filterMap fun x => some x.1 :=
        List.filterMap_congr hplaces
    _ = (rs.zipIdx.mergeSort fun x y => shorter x.1 y.1).map Prod.fst :=
        congrFun List.filterMap_eq_map' _
    _ = rs.mergeSort shorter := by rw [hsort, List.zipIdx_map_fst]

theorem sortBySourceLength_eq {d : Dataset} (h : d.Aligned) :
    d.sortBySourceLength = (empty d.maxLen).append (d.rows.mergeSort shorter) := by
  have hpick := pick_orderByLength d.maxLen d.rows
  have hreorder := reorder_append d.maxLen d.rows d.orderByLength
  rw [append_rows h] at hpick hreorder
  exact hreorder.trans (congrArg _ hpick)

theorem aligned_sortBySourceLength {d : Dataset} (h : d.Aligned) :
    d.sortBySourceLength.Aligned := by
  rw [sortBySourceLength_eq h]
  exact (aligned_empty _).append _

theorem rows_sortBySourceLength {d : Dataset} (h : d.Aligned) :
    d.sortBySourceLength.rows = d.rows.mergeSort shorter := by
  rw [sortBySourceLength_eq h, rows_append _ (aligned_empty _), rows_empty, List.nil_append]

theorem shorter_trans (r s t : Row) (hrs : shorter r s = true) (hst : shorter s t = true) :
    shorter r t = true :=
  decide_eq_true (Nat.le_trans (of_decide_eq_true hrs) (of_decide_eq_true hst))

theorem shorter_total (r s : Row) : (shorter r s || shorter s r) = true := by
  unfold shorter
  rw [Bool.or_eq_true, decide_eq_true_eq, decide_eq_true_eq]
  exact Nat.le_total _ _

theorem sortBySourceLength_idem {d : Dataset} (h : d.Aligned) :
    d.sortBySourceLength.sortBySourceLength = d.sortBySourceLength := by
  have hsorted := List.pairwise_mergeSort shorter_trans shorter_total d.rows
  rw [sortBySourceLength_eq (aligned_sortBySourceLength h), rows_sortBySourceLength h,
    List.mergeSort_of_pairwise hsorted, sortBySourceLength_eq h]
  rfl

theorem sortedByLength_mergeSort (rs : List Row) : SortedByLength rs (rs.mergeSort shorter) where
  ascending :=
    (List.pairwise_mergeSort shorter_trans shorter_total rs).imp fun h => of_decide_eq_true h
  stable := by
    intro n
    let p : Row → Bool := fun r => Text.byteLength r.source = n
    -- the rows of one length are in order already, so they are found in the sorted rows as they stand
    have hclass : (rs.filter p).Pairwise fun r t => shorter r t = true := by
      rw [List.pairwise_filter]
      apply List.pairwise_of_forall
      intro r t hr ht
      have hr : Text.byteLength r.source = n := of_decide_eq_true hr
      have ht : Text.byteLength t.source = n := of_decide_eq_true ht
      exact decide_eq_true (by omega)
    have hfound := List.sublist_mergeSort shorter_trans shorter_total hclass List.filter_sublist
    have hkept := hfound.filter p
    rw [List.filter_filter] at hkept
    simp only [Bool.and_self] at hkept
    have hcount := ((List.mergeSort_perm rs shorter).filter p).length_eq
    exact (hkept.eq_of_length hcount.symm).symm

end FunctionPairs.Dataset
