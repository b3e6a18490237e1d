import FunctionPairs.CommandLine.Commands
import FunctionPairs.Proofs.Dataset.Rows

/-!
Looking through a dataset page by page. The rows that pass the filter are put in an order that the
seed and their number decide, whatever they hold, and a page is a window of the rows in this order.
So pages of one size that follow each other tile the rows: they show each once, and from any row on
they show what a page without a limit shows.
-/
namespace FunctionPairs.CommandLine

open Dataset (empty window rows_of_append shuffledOrder)

def chosenRows (langs : Option (List Lang)) (rs : List Row) : List Row :=
  match langs with
  | none => rs
  | some langs => rs.filter fun r => langs.contains r.lang

def shownOrder (seed : Option Nat) (n : Nat) : List Nat :=
  match seed with
  | none => List.range n
  | some seed => shuffledOrder (UInt64.ofNat seed) n

def shownRows (langs : Option (List Lang)) (seed : Option Nat) (rs : List Row) : List Row :=
  pick (shownOrder seed (chosenRows langs rs).length) (chosenRows langs rs)

theorem shownOrder_perm (seed : Option Nat) (n : Nat) :
    (shownOrder seed n).Perm (List.range n) := by
  cases seed with
  | none => exact .refl _
  | some seed => exact Dataset.shuffledOrder_perm _ _

theorem length_chosenRows_le (langs : Option (List Lang)) (rs : List Row) :
    (chosenRows langs rs).length ≤ rs.length := by
  cases langs with
  | none => exact le_rfl
  | some langs => exact List.length_filter_le _ _

theorem shownRows_perm (langs : Option (List Lang)) (seed : Option Nat) (rs : List Row) :
    (shownRows langs seed rs).Perm (chosenRows langs rs) :=
  Dataset.pick_perm (shownOrder_perm seed _)

/-! The three steps, on columns that are made up of rows. -/

theorem limitLangs_rows (maxLen : Nat) (rs : List Row) (langs : Option (List Lang)) :
    (langs.map ((empty maxLen).append rs).limitLangs).getD ((empty maxLen).append rs) =
      (empty maxLen).append (chosenRows langs rs) := by
  cases langs with
  | none => rfl
  | some langs => exact Dataset.limitLangs_append maxLen rs langs

theorem shuffle_rows (maxLen : Nat) (rs : List Row) (seed : Option Nat) :
    (seed.map fun s => ((empty maxLen).append rs).shuffle (UInt64.ofNat s)).getD
        ((empty maxLen).append rs) =
      (empty maxLen).append (pick (shownOrder seed rs.length) rs) := by
  cases seed with
  | none => rw [shownOrder, Dataset.pick_range]; rfl
  | some seed =>
    rw [Option.map_some, Option.getD_some, Dataset.shuffle, Dataset.length_of_append,
      Dataset.reorder_append]
    rfl

theorem selectRows_eq {d : Dataset} (h : d.Aligned) (hlen : d.length ≤ Decimal.maxCount)
    (langs : Option (List Lang)) (seed : Option Nat) (count skip : Nat) :
    selectRows d langs seed count skip =
      (empty d.maxLen).append (window count skip (shownRows langs seed d.rows)) := by
  have hcount : (shownRows langs seed d.rows).length ≤ Decimal.maxCount := by
    rw [(shownRows_perm langs seed d.rows).length_eq]
    exact (length_chosenRows_le langs d.rows).trans ((Dataset.length_rows h).trans_le hlen)
  rw [← Dataset.append_rows h, selectRows, limitLangs_rows, shuffle_rows, Dataset.limitCount_eq,
    rows_of_append]
  exact congrArg _ (Dataset.drop_take_window hcount count skip)

/-! Pages of one size. -/

theorem flatMap_window {α : Type} {k : Nat} (hk : 0 < k) (skip n : Nat) (column : List α) :
    (List.range n).flatMap (fun j => window k (skip + j * k) column) =
      (column.drop skip).take (n * k) := by
  induction n with
  | zero => simp
  | succ n ih =>
    rw [List.range_succ, List.flatMap_append, ih, List.flatMap_singleton, window,
      if_neg (Nat.ne_of_gt hk), ← List.drop_drop, ← List.take_add, Nat.succ_mul]

/-- Pages of one size show every row that passes the filter once, however many pages follow after the
last row, in an order that the seed and the number of these rows decide; each page keeps the columns
aligned. From any row on they show what is shown without a limit. The rows are as many as a word
counts at most, since where a page ends is reckoned in words. -/
theorem selectRows_pages {d : Dataset} (h : d.Aligned) (hlen : d.length ≤ Decimal.maxCount)
    (langs : Option (List Lang)) (seed : Option Nat) {k : Nat} (hk : 0 < k) :
    let chosen := chosenRows langs d.rows
    let order := shownOrder seed chosen.length
    order.Perm (List.range chosen.length) ∧ (pick order chosen).Perm chosen ∧
      (∀ count skip, (selectRows d langs seed count skip).Aligned) ∧
      (∀ n, chosen.length ≤ n * k →
        (List.range n).flatMap (fun j => (selectRows d langs seed k (j * k)).rows) =
          pick order chosen) ∧
      ∀ skip n, chosen.length ≤ skip + n * k →
        (selectRows d langs seed 0 skip).rows =
          (List.range n).flatMap fun j => (selectRows d langs seed k (skip + j * k)).rows := by
  have hperm := shownRows_perm langs seed d.rows
  have htiled : ∀ skip n, (chosenRows langs d.rows).length ≤ skip + n * k →
      (List.range n).flatMap (fun j => (selectRows d langs seed k (skip + j * k)).rows) =
        (shownRows langs seed d.rows).drop skip := by
    intro skip n hn
    simp only [selectRows_eq h hlen, rows_of_append]
    rw [flatMap_window hk, List.take_of_length_le]
    rw [List.length_drop, hperm.length_eq]
    omega
  refine ⟨shownOrder_perm seed _, hperm, ?_, ?_, ?_⟩
  · intro count skip
    rw [selectRows_eq h hlen]
    exact (Dataset.aligned_empty _).append _
  · intro n hn
    have hfirst := htiled 0 n (by omega)
    simp only [Nat.zero_add, List.drop_zero] at hfirst
    exact hfirst
  · intro skip n hn
    rw [htiled skip n hn, selectRows_eq h hlen, rows_of_append, window, if_pos rfl]

theorem selectRows_pages_of_two :
    let d : Dataset := ⟨0, ["a", "b", "c", "d"], ["1", "2", "3", "4"], [.c, .cpp, .c, .c]⟩
    let page := fun count skip => (selectRows d (some [.c]) (some 7) count skip).rows
    d.Aligned ∧ d.length ≤ Decimal.maxCount ∧ 0 < 2 ∧
      (page 2 0 ++ page 2 2).Perm [⟨.c, "a", "1"⟩, ⟨.c, "c", "3"⟩, ⟨.c, "d", "4"⟩] ∧
      page 0 1 = page 2 1 ++ page 2 3 := by
  intro d page
  have haligned : d.Aligned := by decide
  have hlen : d.length ≤ Decimal.maxCount := by decide
  have hchosen : chosenRows (some [.c]) d.rows = [⟨.c, "a", "1"⟩, ⟨.c, "c", "3"⟩, ⟨.c, "d", "4"⟩] := by
    decide
  have htwo : List.range 2 = [0, 1] := rfl
  obtain ⟨-, hperm, -, hpages, hunlimited⟩ :=
    selectRows_pages haligned hlen (some [.c]) (some 7) (k := 2) (by decide)
  rw [hchosen] at hperm hpages hunlimited
  have hfirst := hpages 2 (by decide)
  have hrest := hunlimited 1 2 (by decide)
  simp only [htwo, List.flatMap_cons, List.flatMap_nil, List.append_nil, Nat.zero_mul, Nat.one_mul,
    Nat.add_zero, Nat.reduceAdd] at hfirst hrest
  rw [← hfirst] at hperm
  exact ⟨haligned, hlen, by decide, hperm, hrest⟩

end FunctionPairs.CommandLine
