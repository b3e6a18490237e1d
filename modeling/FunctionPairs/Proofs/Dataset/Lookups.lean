import FunctionPairs.Proofs.Dataset.Rows

/-!
The edits of a dataset with every place looked up before it is used: there is no result where a
place lies outside of its column. On aligned columns there always is one, the same as without the
lookups; an entry is taken out of its slot once only, so that an order that repeats no place
loses no row.
-/
namespace FunctionPairs

/-- The part of a column at which the mask holds, the mask looked up from a place on. -/
def keepFrom? {α : Type} (mask : List Bool) : Nat → List α → Option (List α)
  | _, [] => some []
  | place, a :: as => do
    let kept ← mask[place]?
    let rest ← keepFrom? mask (place + 1) as
    return if kept then a :: rest else rest

def takeSlots? {α : Type} : List Nat → List (Option α) → Option (List α)
  | [], _ => some []
  | place :: order, slots => do
    let slot ← slots[place]?
    let rest ← takeSlots? order (slots.set place none)
    return slot.toList ++ rest

def cut? {α : Type} (place : Nat) (column : List α) : Option (List α × List α) :=
  if place ≤ column.length then some (column.take place, column.drop place) else none

def swap? {α : Type} (column : Array α) (i j : Nat) : Option (Array α) :=
  if h : i < column.size ∧ j < column.size then some (column.swap i j h.1 h.2) else none

def lookupAll? {α : Type} (places : List Nat) (column : List α) : Option (List α) :=
  places.mapM (column[·]?)

namespace Dataset

def splitAt? (d : Dataset) (count : Nat) : Option (Dataset × Dataset) := do
  let sources ← cut? count d.sources
  let decompileds ← cut? count d.decompileds
  let langs ← cut? count d.langs
  return (⟨d.maxLen, sources.1, decompileds.1, langs.1⟩,
    ⟨d.maxLen, sources.2, decompileds.2, langs.2⟩)

def retain? (d : Dataset) (mask : List Bool) : Option Dataset := do
  let sources ← keepFrom? mask 0 d.sources
  let decompileds ← keepFrom? mask 0 d.decompileds
  let langs ← keepFrom? mask 0 d.langs
  return ⟨d.maxLen, sources, decompileds, langs⟩

def reorder? (d : Dataset) (order : List Nat) : Option Dataset := do
  let sources ← takeSlots? order (d.sources.map some)
  let decompileds ← takeSlots? order (d.decompileds.map some)
  let langs ← takeSlots? order (d.langs.map some)
  return ⟨d.maxLen, sources, decompileds, langs⟩

def limitLangs? (d : Dataset) (langs : List Lang) : Option Dataset := do
  d.retain? (← lookupAll? (List.range d.length) (d.langs.map langs.contains))

def limitCount? (d : Dataset) (count skip : Nat) : Option Dataset :=
  let stop := if count = 0 then Decimal.maxCount else addCapped skip count
  d.retain? ((List.range d.length).map fun i => skip ≤ i && i < stop)

def shufflePlaces? : List Nat → Generator → Array Nat → Option (Array Nat)
  | [], _, order => some order
  | i :: rest, g, order =>
    let drawn := g.below (i + 1)
    (swap? order i drawn.1).bind (shufflePlaces? rest drawn.2)

def shuffle? (d : Dataset) (seed : UInt64) : Option Dataset := do
  let order ← shufflePlaces? ((List.range d.length).drop 1) ⟨seed⟩ (Array.range d.length)
  d.reorder? order.toList

def sortBySourceLength? (d : Dataset) : Option Dataset := do
  let lengths ← lookupAll? (List.range d.length) (d.sources.map Text.byteLength)
  let keyed := (List.range d.length).zip lengths
  d.reorder? ((keyed.mergeSort fun a b => a.2 ≤ b.2).map (·.1))

/-! Each of them on columns that are long enough. -/

theorem cut?_eq {α : Type} {place : Nat} {column : List α} (h : place ≤ column.length) :
    cut? place column = some (column.take place, column.drop place) := by
  simp [cut?, h]

theorem lookupAll?_eq {α : Type} (before column : List α) :
    lookupAll? (List.range' before.length column.length) (before ++ column) = some column := by
  induction column generalizing before with
  | nil => rfl
  | cons a as ih =>
    have hrest := ih (before ++ [a])
    rw [List.append_assoc, List.singleton_append, List.length_append, List.length_singleton,
      lookupAll?] at hrest
    simp [lookupAll?, List.range'_succ, hrest]

theorem lookupAll?_range {α : Type} (column : List α) :
    lookupAll? (List.range column.length) column = some column := by
  rw [List.range_eq_range']
  exact lookupAll?_eq [] column

theorem keepFrom?_eq {α : Type} (before mask : List Bool) (column : List α)
    (h : mask.length = column.length) :
    keepFrom? (before ++ mask) before.length column = some (keep mask column) := by
  induction column generalizing before mask with
  | nil => simp [keepFrom?, keep]
  | cons a as ih =>
    cases mask with
    | nil => simp at h
    | cons b mask =>
      have hrest := ih (before ++ [b]) mask (by simpa using h)
      rw [List.append_assoc, List.singleton_append, List.length_append,
        List.length_singleton] at hrest
      cases b <;> simp [keepFrom?, keep, hrest]

theorem takeSlots?_eq {α : Type} {order : List Nat} (column : List α) (slots : List (Option α))
    (hnodup : order.Nodup) (hslots : ∀ i ∈ order, slots[i]? = some column[i]?)
    (hbound : ∀ i ∈ order, i < column.length) :
    takeSlots? order slots = some (pick order column) := by
  induction order generalizing slots with
  | nil => rfl
  | cons i order ih =>
    obtain ⟨hi, hnodup⟩ := List.nodup_cons.mp hnodup
    have hrest : takeSlots? order (slots.set i none) = some (pick order column) := by
      apply ih _ hnodup
      · intro j hj
        have hne : i ≠ j := fun h => hi (h ▸ hj)
        rw [List.getElem?_set_ne hne]
        exact hslots j (List.mem_cons_of_mem _ hj)
      · exact fun j hj => hbound j (List.mem_cons_of_mem _ hj)
    have hslot := hslots i List.mem_cons_self
    have hinside := hbound i List.mem_cons_self
    simp [takeSlots?, hslot, hrest, pick, List.getElem?_eq_getElem hinside]

variable {d : Dataset}

theorem splitAt?_eq (h : d.Aligned) {n : Nat} (hn : n ≤ d.length) :
    d.splitAt? n = some (d.splitAt n) := by
  obtain ⟨hd, hl⟩ := h
  have hdn : n ≤ d.decompileds.length := hn.trans hd.ge
  have hln : n ≤ d.langs.length := hn.trans hl.ge
  simp [splitAt?, cut?_eq hn, cut?_eq hdn, cut?_eq hln, splitAt]

theorem retain?_eq (h : d.Aligned) {mask : List Bool} (hmask : mask.length = d.length) :
    d.retain? mask = some (d.retain mask) := by
  obtain ⟨hd, hl⟩ := h
  have hs := keepFrom?_eq [] mask d.sources hmask
  have ht := keepFrom?_eq [] mask d.decompileds (hmask.trans hd.symm)
  have hlangs := keepFrom?_eq [] mask d.langs (hmask.trans hl.symm)
  rw [List.nil_append, List.length_nil] at hs ht hlangs
  simp [retain?, hs, ht, hlangs, retain]

theorem reorder?_eq (h : d.Aligned) {order : List Nat} (horder : order.Perm (List.range d.length)) :
    d.reorder? order = some (d.reorder order) := by
  have hnodup : order.Nodup := horder.nodup_iff.mpr List.nodup_range
  have htake : ∀ {α : Type} (column : List α), column.length = d.length →
      takeSlots? order (column.map some) = some (pick order column) := by
    intro α column hlen
    have hbound : ∀ i ∈ order, i < column.length := by
      intro i hi
      rw [hlen]
      exact List.mem_range.mp (horder.mem_iff.mp hi)
    apply takeSlots?_eq column _ hnodup _ hbound
    intro i hi
    simp [List.getElem?_eq_getElem (hbound i hi)]
  obtain ⟨hd, hl⟩ := h
  simp [reorder?, htake d.sources rfl, htake d.decompileds hd, htake d.langs hl, reorder]

theorem limitLangs?_eq (h : d.Aligned) (langs : List Lang) :
    d.limitLangs? langs = some (d.limitLangs langs) := by
  have hlen : (d.langs.map langs.contains).length = d.length := (List.length_map _).trans h.2
  have hmask := lookupAll?_range (d.langs.map langs.contains)
  rw [hlen] at hmask
  rw [limitLangs?, hmask]
  exact retain?_eq h hlen

theorem limitCount?_eq (h : d.Aligned) (count skip : Nat) :
    d.limitCount? count skip = some (d.limitCount count skip) :=
  retain?_eq h (by simp)

theorem swap?_eq {α : Type} {column : Array α} {i j : Nat} (hi : i < column.size)
    (hj : j < column.size) : swap? column i j = some (column.swapIfInBounds i j) := by
  rw [swap?, dif_pos ⟨hi, hj⟩, Array.swapIfInBounds_def, dif_pos hi, dif_pos hj]

theorem shufflePlaces?_eq {places : List Nat} {order : Array Nat} (g : Generator)
    (h : ∀ i ∈ places, i < order.size) :
    shufflePlaces? places g order = some (shufflePlaces places g order) := by
  induction places generalizing g order with
  | nil => rfl
  | cons i rest ih =>
    have hi := h i List.mem_cons_self
    have hdrawn := below_lt g (Nat.succ_pos i)
    rw [shufflePlaces?, shufflePlaces]
    generalize g.below (i + 1) = drawn at hdrawn ⊢
    rw [swap?_eq hi (by omega), Option.bind_some]
    apply ih
    intro j hj
    rw [Array.size_swapIfInBounds]
    exact h j (List.mem_cons_of_mem _ hj)

theorem shuffle?_eq (h : d.Aligned) (seed : UInt64) : d.shuffle? seed = some (d.shuffle seed) := by
  have hplaces : ∀ i ∈ (List.range d.length).drop 1, i < (Array.range d.length).size := by
    intro i hi
    rw [Array.size_range]
    exact List.mem_range.mp (List.mem_of_mem_drop hi)
  rw [shuffle?, shufflePlaces?_eq _ hplaces]
  exact reorder?_eq h (shuffledOrder_perm seed _)

theorem orderByLength_perm (d : Dataset) : d.orderByLength.Perm (List.range d.length) := by
  have hlen : (List.range d.length).length ≤ (d.sources.map Text.byteLength).length := by
    simp [length]
  have hperm := (List.mergeSort_perm ((List.range d.length).zip (d.sources.map Text.byteLength))
    fun a b => a.2 ≤ b.2).map (·.1)
  rwa [List.map_fst_zip hlen] at hperm

theorem sortBySourceLength?_eq (h : d.Aligned) :
    d.sortBySourceLength? = some d.sortBySourceLength := by
  have hlen : (d.sources.map Text.byteLength).length = d.length := List.length_map _
  have hlengths := lookupAll?_range (d.sources.map Text.byteLength)
  rw [hlen] at hlengths
  rw [sortBySourceLength?, hlengths]
  exact reorder?_eq h d.orderByLength_perm

end Dataset
end FunctionPairs
