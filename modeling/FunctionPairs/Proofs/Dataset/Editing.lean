import FunctionPairs.Proofs.Dataset.Lookups
import FunctionPairs.Proofs.Dataset.Storage

/-!
Edits of a dataset, one after the other. Whatever they are, the three columns stay aligned and
the rows change as a list of rows under a cap does; no place is looked up outside of a column;
and a dataset that was made with a cap never has more rows than that.
-/
namespace FunctionPairs

inductive Part
  | kept
  | heldOut
deriving Repr, DecidableEq

inductive Edit
  | push (row : Row)
  | extend (lang : Lang) (pairs : List (String × String))
  | splitOffEnd (fraction : Float) (part : Part)
  | limitLangs (langs : List Lang)
  | limitCount (count skip : UInt64)
  | shuffle (seed : UInt64)
  | sort
  | save (fs : FileSystem) (p : Path)

inductive Answer
  | done
  | pushed (added : Bool)
  | extended (added : Nat)
  | split (kept heldOut : Dataset)
  | refused (failure : Failure)
  | saved (written : Except Failure FileSystem)

def Part.choose (part : Part) (kept heldOut : Dataset) : Dataset :=
  match part with
  | .kept => kept
  | .heldOut => heldOut

namespace Edit

def apply (d : Dataset) : Edit → Answer × Dataset
  | push r => (.pushed (d.push r).1, (d.push r).2)
  | extend lang pairs => (.extended (d.extend lang pairs).1, (d.extend lang pairs).2)
  | splitOffEnd fraction part =>
    match d.splitOffEnd fraction with
    | .ok (kept, heldOut) => (.split kept heldOut, part.choose kept heldOut)
    | .error failure => (.refused failure, d)
  | limitLangs langs => (.done, d.limitLangs langs)
  | limitCount count skip => (.done, d.limitCount count.toNat skip.toNat)
  | shuffle seed => (.done, d.shuffle seed)
  | sort => (.done, d.sortBySourceLength)
  | save fs p => (.saved (d.save fs p).2, (d.save fs p).1)

def applyAll (d : Dataset) : List Edit → List Answer × Dataset
  | [] => ([], d)
  | e :: es =>
    let rest := applyAll (e.apply d).2 es
    ((e.apply d).1 :: rest.1, rest.2)

/-- The edit with its places looked up: `none` where one lies outside of a column. -/
def attempt (d : Dataset) : Edit → Option (Answer × Dataset)
  | splitOffEnd fraction part =>
    match d.splitOffEnd fraction with
    | .ok _ => do
      let held := min (Dataset.shareOf d.length fraction) d.length
      let (kept, heldOut) ← d.splitAt? (d.length - held)
      return (.split kept heldOut, part.choose kept heldOut)
    | .error failure => some (.refused failure, d)
  | limitLangs langs => do return (.done, ← d.limitLangs? langs)
  | limitCount count skip => do return (.done, ← d.limitCount? count.toNat skip.toNat)
  | shuffle seed => do return (.done, ← d.shuffle? seed)
  | sort => do return (.done, ← d.sortBySourceLength?)
  | save fs p => do return (.saved (d.save fs p).2, ← d.sortBySourceLength?)
  -- what is added goes to the ends of the columns
  | e => some (e.apply d)

def attemptAll (d : Dataset) : List Edit → Option (List Answer × Dataset)
  | [] => some ([], d)
  | e :: es => do
    let (answer, next) ← e.attempt d
    let (answers, last) ← attemptAll next es
    return (answer :: answers, last)

end Edit

/-- Rows under a cap on their number; a cap of 0 is none. -/
structure CappedRows where
  cap : Nat
  rows : List Row

structure Dataset.Represents (d : Dataset) (s : CappedRows) : Prop where
  aligned : d.Aligned
  maxLen : d.maxLen = s.cap
  rows : d.rows = s.rows

namespace CappedRows

def Fits (s : CappedRows) (n : Nat) : Prop := s.cap = 0 ∨ s.rows.length + n ≤ s.cap

def sizeLeft (s : CappedRows) (fraction : Float) : Nat :=
  s.rows.length - min (Dataset.shareOf s.rows.length fraction) s.rows.length

/-- What each edit does to rows under a cap. -/
inductive Edited (s : CappedRows) : Edit → Answer → CappedRows → Prop
  | appended {r : Row} (h : s.Fits 1) : Edited s (.push r) (.pushed true) ⟨s.cap, s.rows ++ [r]⟩
  | full {r : Row} (h : ¬ s.Fits 1) : Edited s (.push r) (.pushed false) s
  | extended {lang : Lang} {pairs : List (String × String)} {n : Nat} (hn : n ≤ pairs.length)
    (hfits : n = 0 ∨ s.Fits n) (hlongest : ∀ k ≤ pairs.length, s.Fits k → k ≤ n) :
    Edited s (.extend lang pairs) (.extended n)
      ⟨s.cap, s.rows ++ (Dataset.rowsOf lang pairs).take n⟩
  | split {fraction : Float} {part : Part} {kept heldOut : Dataset} {t : CappedRows}
    (h : 0.0 ≤ fraction ∧ fraction ≤ 1.0)
    (hkept : kept.Represents ⟨s.cap, s.rows.take (s.sizeLeft fraction)⟩)
    (hheldOut : heldOut.Represents ⟨s.cap, s.rows.drop (s.sizeLeft fraction)⟩)
    (ht : (part.choose kept heldOut).Represents t) :
    Edited s (.splitOffEnd fraction part) (.split kept heldOut) t
  | refused {fraction : Float} {part : Part} {failure : Failure}
    (h : ¬ (0.0 ≤ fraction ∧ fraction ≤ 1.0)) :
    Edited s (.splitOffEnd fraction part) (.refused failure) s
  | filtered {langs : List Lang} :
    Edited s (.limitLangs langs) .done ⟨s.cap, s.rows.filter fun r => langs.contains r.lang⟩
  /-- The window is exact for as many rows as can be counted in a word. -/
  | windowed {count skip : UInt64} {rs : List Row} (hsub : rs.Sublist s.rows)
    (hwindow : s.rows.length ≤ Decimal.maxCount →
      rs = Dataset.window count.toNat skip.toNat s.rows) :
    Edited s (.limitCount count skip) .done ⟨s.cap, rs⟩
  | shuffled {seed : UInt64} {rs : List Row} (h : rs.Perm s.rows) :
    Edited s (.shuffle seed) .done ⟨s.cap, rs⟩
  | sorted {rs : List Row} (h : Dataset.SortedByLength s.rows rs) : Edited s .sort .done ⟨s.cap, rs⟩
  | saved {fs : FileSystem} {p : Path} {written : Except Failure FileSystem} {rs : List Row}
    (h : Dataset.SortedByLength s.rows rs) : Edited s (.save fs p) (.saved written) ⟨s.cap, rs⟩

inductive EditedAll : CappedRows → List Edit → List Answer → CappedRows → Prop
  | nil (s : CappedRows) : EditedAll s [] [] s
  | cons {s t u : CappedRows} {e : Edit} {a : Answer} {es : List Edit} {as : List Answer}
    (first : s.Edited e a t) (others : EditedAll t es as u) : EditedAll s (e :: es) (a :: as) u

def Within (s : CappedRows) : Prop := s.cap = 0 ∨ s.rows.length ≤ s.cap

theorem Edited.within {s t : CappedRows} {e : Edit} {a : Answer} (h : s.Edited e a t)
    (hs : s.Within) : t.cap = s.cap ∧ t.Within := by
  have hshorter : ∀ {rs : List Row}, rs.length ≤ s.rows.length → Within ⟨s.cap, rs⟩ :=
    fun hlen => hs.imp id hlen.trans
  cases h with
  | appended h =>
    refine ⟨rfl, h.imp id ?_⟩
    simp
  | full h => exact ⟨rfl, hs⟩
  | @extended lang pairs n hn hfits hlongest =>
    refine ⟨rfl, ?_⟩
    rcases hfits with rfl | hfits
    · rw [List.take_zero, List.append_nil]
      exact hs
    · have hadded := List.length_take_le n (Dataset.rowsOf lang pairs)
      have hroom : s.cap = 0 ∨ (s.rows ++ (Dataset.rowsOf lang pairs).take n).length ≤ s.cap := by
        rw [List.length_append]
        exact hfits.imp id (by omega)
      exact hroom
  | @split fraction part kept heldOut t h hkept hheldOut ht =>
    have hpart : ∀ {x : Dataset} {rs : List Row}, x.Represents ⟨s.cap, rs⟩ → x.Represents t →
        rs.length ≤ s.rows.length → t.cap = s.cap ∧ t.Within := by
      intro x rs hx ht hlen
      have hcap : t.cap = s.cap := ht.maxLen.symm.trans hx.maxLen
      have hrows : t.rows = rs := ht.rows.symm.trans hx.rows
      rw [Within, hcap, hrows]
      exact ⟨rfl, hshorter hlen⟩
    cases part with
    | kept => exact hpart hkept ht (List.take_sublist _ _).length_le
    | heldOut => exact hpart hheldOut ht (List.drop_sublist _ _).length_le
  | refused h => exact ⟨rfl, hs⟩
  | filtered => exact ⟨rfl, hshorter (List.length_filter_le _ _)⟩
  | windowed hsub hwindow => exact ⟨rfl, hshorter hsub.length_le⟩
  | shuffled h => exact ⟨rfl, hshorter h.length_eq.le⟩
  | sorted h => exact ⟨rfl, hshorter h.perm.length_eq.le⟩
  | saved h => exact ⟨rfl, hshorter h.perm.length_eq.le⟩

theorem EditedAll.within {s t : CappedRows} {es : List Edit} {as : List Answer}
    (h : EditedAll s es as t) (hs : s.Within) : t.cap = s.cap ∧ t.Within := by
  induction h with
  | nil s => exact ⟨rfl, hs⟩
  | cons first others ih =>
    obtain ⟨hcap, hwithin⟩ := first.within hs
    obtain ⟨hrest, hlast⟩ := ih hwithin
    exact ⟨hrest.trans hcap, hlast⟩

end CappedRows

namespace Dataset

variable {d : Dataset} {s : CappedRows}

theorem represents_append (cap : Nat) (rs : List Row) :
    ((empty cap).append rs).Represents ⟨cap, rs⟩ where
  aligned := (aligned_empty _).append _
  maxLen := rfl
  rows := rows_of_append _ _

namespace Represents

theorem eq_append (h : d.Represents s) : d = (empty s.cap).append s.rows := by
  rw [← h.maxLen, ← h.rows, append_rows h.aligned]

theorem length_eq (h : d.Represents s) : d.length = s.rows.length := by
  rw [h.eq_append, length_of_append]

theorem append (h : d.Represents s) (rs : List Row) :
    (d.append rs).Represents ⟨s.cap, s.rows ++ rs⟩ where
  aligned := h.aligned.append rs
  maxLen := h.maxLen
  rows := by rw [rows_append rs h.aligned, h.rows]

theorem isFull_iff (h : d.Represents s) : d.isFull = true ↔ ¬ s.Fits 1 := by
  rw [isFull_eq_true, h.maxLen, h.length_eq, CappedRows.Fits]
  omega

theorem splitAt (h : d.Represents s) (n : Nat) :
    (d.splitAt n).1.Represents ⟨s.cap, s.rows.take n⟩ ∧
      (d.splitAt n).2.Represents ⟨s.cap, s.rows.drop n⟩ := by
  obtain ⟨hfront, hback⟩ := rows_splitAt d n
  rw [h.rows] at hfront hback
  exact ⟨⟨(h.aligned.splitAt n).1, h.maxLen, hfront⟩, ⟨(h.aligned.splitAt n).2, h.maxLen, hback⟩⟩

theorem sort (h : d.Represents s) :
    d.sortBySourceLength.Represents ⟨s.cap, s.rows.mergeSort shorter⟩ where
  aligned := aligned_sortBySourceLength h.aligned
  maxLen := h.maxLen
  rows := by rw [rows_sortBySourceLength h.aligned, h.rows]

theorem push (h : d.Represents s) (r : Row) :
    ∃ t, s.Edited (.push r) (.pushed (d.push r).1) t ∧ (d.push r).2.Represents t := by
  cases hfull : d.isFull with
  | true =>
    rw [push_of_full hfull]
    exact ⟨s, .full (h.isFull_iff.mp hfull), h⟩
  | false =>
    have hroom : s.Fits 1 := by
      by_contra hnot
      rw [h.isFull_iff.mpr hnot] at hfull
      cases hfull
    rw [push_of_not_full hfull]
    exact ⟨_, .appended hroom, h.append [r]⟩

theorem extend (h : d.Represents s) (lang : Lang) (pairs : List (String × String)) :
    ∃ t, s.Edited (.extend lang pairs) (.extended (d.extend lang pairs).1) t ∧
      (d.extend lang pairs).2.Represents t := by
  have hlen : (rowsOf lang pairs).length = pairs.length := List.length_map _
  rw [extend_eq]
  by_cases hcap : s.cap = 0
  · have hroom : d.remaining = none := by simp [remaining, h.maxLen, hcap]
    have hall : rowsOf lang pairs = (rowsOf lang pairs).take pairs.length :=
      (List.take_of_length_le hlen.le).symm
    rw [hroom, fitting, hlen]
    refine ⟨_, .extended le_rfl (Or.inr (Or.inl hcap)) fun k hk _ => hk, ?_⟩
    rw [← hall]
    exact h.append _
  · have hroom : d.remaining = some (s.cap - s.rows.length) := by
      simp [remaining, h.maxLen, h.length_eq, hcap]
    have htake : (rowsOf lang pairs).take (s.cap - s.rows.length) =
        (rowsOf lang pairs).take (min (s.cap - s.rows.length) pairs.length) := by
      rw [← hlen, List.take_eq_take_min]
    rw [hroom, fitting, List.length_take, hlen]
    refine ⟨_, .extended (Nat.min_le_right _ _) ?_ ?_, ?_⟩
    · rw [CappedRows.Fits]
      omega
    · intro k hk hfits
      rw [CappedRows.Fits] at hfits
      omega
    · rw [← htake]
      exact h.append _

theorem apply (h : d.Represents s) (e : Edit) :
    ∃ t, s.Edited e (e.apply d).1 t ∧ (e.apply d).2.Represents t := by
  cases e with
  | push r => exact h.push r
  | extend lang pairs => exact h.extend lang pairs
  | splitOffEnd fraction part =>
    by_cases hshare : 0.0 ≤ fraction ∧ fraction ≤ 1.0
    · obtain ⟨hkept, hheldOut⟩ := h.splitAt (s.sizeLeft fraction)
      have hsplit : d.splitOffEnd fraction = .ok (d.splitAt (s.sizeLeft fraction)) := by
        rw [splitOffEnd_eq_ok, CappedRows.sizeLeft, h.length_eq]
        exact ⟨hshare, rfl⟩
      simp only [Edit.apply, hsplit]
      cases part with
      | kept => exact ⟨_, .split hshare hkept hheldOut hkept, hkept⟩
      | heldOut => exact ⟨_, .split hshare hkept hheldOut hheldOut, hheldOut⟩
    · cases hsplit : d.splitOffEnd fraction with
      | ok parts => exact absurd (splitOffEnd_eq_ok.mp hsplit).1 hshare
      | error failure =>
        simp only [Edit.apply, hsplit]
        exact ⟨s, .refused hshare, h⟩
  | limitLangs langs =>
    refine ⟨_, .filtered, ?_⟩
    rw [Edit.apply, h.eq_append, limitLangs_append]
    exact represents_append s.cap _
  | limitCount count skip =>
    have hsub := (List.drop_sublist skip.toNat _).trans (List.take_sublist
      (if count.toNat = 0 then Decimal.maxCount else addCapped skip.toNat count.toNat) s.rows)
    refine ⟨_, .windowed hsub fun hlen => drop_take_window hlen _ _, ?_⟩
    rw [Edit.apply, h.eq_append, limitCount_eq]
    exact represents_append s.cap _
  | shuffle seed =>
    obtain ⟨ts, hperm, hts⟩ := shuffle_append s.cap s.rows seed
    refine ⟨_, .shuffled hperm, ?_⟩
    rw [Edit.apply, h.eq_append, hts]
    exact represents_append s.cap ts
  | sort => exact ⟨_, .sorted (sortedByLength_mergeSort _), h.sort⟩
  | save fs p => exact ⟨_, .saved (sortedByLength_mergeSort _), h.sort⟩

theorem attempt_eq (h : d.Represents s) (e : Edit) : e.attempt d = some (e.apply d) := by
  have hal := h.aligned
  cases e with
  | push r => rfl
  | extend lang pairs => rfl
  | splitOffEnd fraction part =>
    have hcut := splitAt?_eq hal (Nat.sub_le d.length (min (shareOf d.length fraction) d.length))
    cases hsplit : d.splitOffEnd fraction with
    | ok parts =>
      have hparts := (splitOffEnd_eq_ok.mp hsplit).2
      simp [Edit.attempt, Edit.apply, hsplit, hcut, hparts]
    | error failure => simp [Edit.attempt, Edit.apply, hsplit]
  | limitLangs langs => simp [Edit.attempt, Edit.apply, limitLangs?_eq hal]
  | limitCount count skip => simp [Edit.attempt, Edit.apply, limitCount?_eq hal]
  | shuffle seed => simp [Edit.attempt, Edit.apply, shuffle?_eq hal]
  | sort => simp [Edit.attempt, Edit.apply, sortBySourceLength?_eq hal]
  | save fs p => simp [Edit.attempt, Edit.apply, sortBySourceLength?_eq hal, Dataset.save]

theorem applyAll (h : d.Represents s) (es : List Edit) :
    Edit.attemptAll d es = some (Edit.applyAll d es) ∧
      ∃ t, s.EditedAll es (Edit.applyAll d es).1 t ∧ (Edit.applyAll d es).2.Represents t := by
  induction es generalizing d s with
  | nil => exact ⟨rfl, s, .nil s, h⟩
  | cons e es ih =>
    obtain ⟨t, hfirst, ht⟩ := h.apply e
    obtain ⟨hlookups, u, hothers, hu⟩ := ih ht
    refine ⟨?_, u, .cons hfirst hothers, hu⟩
    simp [Edit.attemptAll, Edit.applyAll, h.attempt_eq, hlookups]

end Represents

inductive Starts : Dataset → CappedRows → Prop
  | new (cap : Nat) : Starts (empty cap) ⟨cap, []⟩
  | loaded {fs : FileSystem} {p : Path} {d : Dataset} (h : load fs p = .ok d) :
    Starts d ⟨d.maxLen, d.rows⟩

theorem Starts.represents (h : Starts d s) : d.Represents s := by
  cases h with
  | new cap => exact ⟨aligned_empty cap, rfl, rows_empty cap⟩
  | loaded h =>
    obtain ⟨-, -, -, -, -, haligned⟩ := load_eq_ok h
    exact ⟨haligned, rfl, rfl⟩

/-- The columns refine a list of rows under the cap, whatever the edits: no place is looked up
outside of a column, the columns are aligned, and the answers and rows are those of the list. A
dataset that was new with a cap stays within it. -/
theorem applyAll_refines (h : Starts d s) (es : List Edit) :
    Edit.attemptAll d es = some (Edit.applyAll d es) ∧
      ∃ t, s.EditedAll es (Edit.applyAll d es).1 t ∧ (Edit.applyAll d es).2.Represents t ∧
        ∀ cap, 0 < cap → d = empty cap → (Edit.applyAll d es).2.length ≤ cap := by
  obtain ⟨hlookups, t, hall, ht⟩ := h.represents.applyAll es
  refine ⟨hlookups, t, hall, ht, ?_⟩
  rintro cap hcap rfl
  have hs : s.cap = cap ∧ s.rows = [] := ⟨h.represents.maxLen.symm, h.represents.rows.symm⟩
  have hwithin : s.Within := by simp [CappedRows.Within, hs]
  obtain ⟨htcap, hwithin⟩ := hall.within hwithin
  rw [ht.length_eq]
  rw [CappedRows.Within] at hwithin
  omega

def growing : List Edit :=
  [.push ⟨.c, "a", "b"⟩, .extend .cpp [("c", "d"), ("e", "f")], .push ⟨.c, "g", "h"⟩,
    .limitCount 0xFFFFFFFFFFFFFFFF 1]

theorem applyAll_refines_growing :
    Starts (empty 2) ⟨2, []⟩ ∧
      Edit.attemptAll (empty 2) growing = some (Edit.applyAll (empty 2) growing) ∧
      CappedRows.EditedAll ⟨2, []⟩ growing [.pushed true, .extended 1, .pushed false, .done]
        ⟨2, [⟨.cpp, "c", "d"⟩]⟩ := by
  obtain ⟨hlookups, ⟨cap, rows⟩, hall, ht, -⟩ := applyAll_refines (.new 2) growing
  have hanswers : Edit.applyAll (empty 2) growing =
      ([.pushed true, .extended 1, .pushed false, .done], ⟨2, ["c"], ["d"], [.cpp]⟩) := rfl
  have hcap : 2 = cap := ht.maxLen
  have hrows : [⟨.cpp, "c", "d"⟩] = rows := ht.rows
  rw [hanswers, ← hcap, ← hrows] at hall
  exact ⟨.new 2, hlookups, hall⟩

end Dataset
end FunctionPairs
