import Mathlib.Data.List.Sort
import Mathlib.Data.String.Basic
import FunctionPairs.ExampleStore.Catalog

/-!
Catalogs as finite maps. After an insertion, a look-up gives the new text at its key and the old
answer everywhere else; the keys keep their ascending order; and the number of keys that two
catalogs share grows by one exactly when a new key is put into one and the other has it. An insertion
undoes an earlier one at its key and may be exchanged with one at another key, so that a batch of
insertions that is made twice in a row leaves what it leaves when made once.
-/
namespace FunctionPairs.Catalog

def Ascending (c : Catalog) : Prop := c.keys.Pairwise (· < ·)

def shared (c d : Catalog) : Nat := (c.keys.filter d.contains).length

theorem get?_nil (key : String) : get? [] key = none := rfl

theorem get?_cons (k t key : String) (c : Catalog) :
    get? ((k, t) :: c) key = if key = k then some t else c.get? key := by
  by_cases h : key = k
  · simp [get?, h]
  · have hb : (key == k) = false := by simpa using h
    simp [get?, List.lookup_cons, h, hb]

theorem get?_insert (c : Catalog) (key text other : String) :
    (c.insert key text).get? other = if other = key then some text else c.get? other := by
  induction c with
  | nil => exact get?_cons key text other []
  | cons e rest ih =>
    obtain ⟨k, t⟩ := e
    unfold insert
    by_cases hlt : key < k
    · rw [if_pos hlt]
      exact get?_cons key text other ((k, t) :: rest)
    rw [if_neg hlt]
    by_cases heq : key = k
    · subst heq
      rw [if_pos rfl, get?_cons, get?_cons]
      by_cases hk : other = key <;> simp [hk]
    · rw [if_neg heq, get?_cons, get?_cons, ih]
      by_cases hk : other = k
      · subst hk
        rw [if_pos rfl, if_neg (Ne.symm heq), if_pos rfl]
      · rw [if_neg hk, if_neg hk]

theorem contains_insert (c : Catalog) (key text other : String) :
    (c.insert key text).contains other = (other == key || c.contains other) := by
  unfold contains
  rw [get?_insert]
  by_cases h : other = key <;> simp [h]

theorem mem_keys_iff (c : Catalog) (key : String) : key ∈ c.keys ↔ c.contains key = true := by
  induction c with
  | nil => simp [keys, contains, get?_nil]
  | cons e rest ih =>
    obtain ⟨k, t⟩ := e
    unfold contains at ih ⊢
    rw [get?_cons]
    have hk : keys ((k, t) :: rest) = k :: keys rest := rfl
    by_cases h : key = k <;> simp [hk, h, ih]

theorem mem_keys_insert (c : Catalog) (key text other : String) :
    other ∈ (c.insert key text).keys ↔ other = key ∨ other ∈ c.keys := by
  rw [mem_keys_iff, mem_keys_iff, contains_insert]
  simp

theorem Ascending.nodup {c : Catalog} (h : c.Ascending) : c.keys.Nodup :=
  h.imp fun hlt => ne_of_lt hlt

theorem Ascending.get?_of_mem {c : Catalog} (h : c.Ascending) {e : String × String}
    (he : e ∈ c) : c.get? e.1 = some e.2 := by
  induction c with
  | nil => exact absurd he List.not_mem_nil
  | cons first rest ih =>
    obtain ⟨hfirst, hrest⟩ := List.pairwise_cons.mp h
    obtain ⟨k, t⟩ := first
    rw [get?_cons]
    rcases List.mem_cons.mp he with rfl | he
    · exact if_pos rfl
    · have hlt : k < e.1 := hfirst e.1 (List.mem_map_of_mem he)
      rw [if_neg (ne_of_gt hlt)]
      exact ih hrest he

theorem Ascending.insert {c : Catalog} (h : c.Ascending) (key text : String) :
    (c.insert key text).Ascending := by
  induction c with
  | nil => exact List.pairwise_singleton _ _
  | cons e rest ih =>
    obtain ⟨k, t⟩ := e
    obtain ⟨hfirst, hrest⟩ := List.pairwise_cons.mp h
    unfold Catalog.insert
    split_ifs with hlt heq
    · refine List.pairwise_cons.mpr ⟨?_, h⟩
      intro x hx
      rcases List.mem_cons.mp hx with rfl | hx
      · exact hlt
      · exact lt_trans hlt (hfirst x hx)
    · subst heq
      exact h
    · refine List.pairwise_cons.mpr ⟨?_, ih hrest⟩
      intro x hx
      rcases (mem_keys_insert rest key text x).mp hx with rfl | hx
      · exact lt_of_le_of_ne (not_lt.mp hlt) (Ne.symm heq)
      · exact hfirst x hx

theorem keys_insert_of_contains {c : Catalog} (h : c.Ascending) {key : String}
    (hkey : c.contains key = true) (text : String) : (c.insert key text).keys = c.keys := by
  refine (h.insert key text).eq_of_mem_iff h ?_
  intro x
  rw [mem_keys_insert, or_iff_right_of_imp]
  rintro rfl
  exact (mem_keys_iff c x).mpr hkey

theorem keys_insert_of_not_contains (c : Catalog) {key : String}
    (hkey : c.contains key = false) (text : String) :
    (c.insert key text).keys.Perm (key :: c.keys) := by
  induction c with
  | nil => exact List.Perm.refl _
  | cons e rest ih =>
    obtain ⟨k, t⟩ := e
    have hne : key ≠ k := by
      rintro rfl
      simp [contains, get?_cons] at hkey
    have hrest : contains rest key = false := by
      simpa [contains, get?_cons, hne] using hkey
    unfold insert
    rw [if_neg hne]
    split_ifs
    · exact List.Perm.refl _
    · exact ((ih hrest).cons k).trans (List.Perm.swap key k _)

theorem shared_comm {c d : Catalog} (hc : c.Ascending) (hd : d.Ascending) :
    shared c d = shared d c := by
  refine List.Perm.length_eq ?_
  refine (List.perm_ext_iff_of_nodup (hc.nodup.filter _) (hd.nodup.filter _)).mpr ?_
  intro x
  simp only [List.mem_filter, mem_keys_iff, and_comm]

theorem shared_insert_of_contains {c : Catalog} (h : c.Ascending) {key : String}
    (hkey : c.contains key = true) (text : String) (d : Catalog) :
    shared (c.insert key text) d = shared c d := by
  unfold shared
  rw [keys_insert_of_contains h hkey]

theorem shared_insert_of_not_contains (c : Catalog) {key : String}
    (hkey : c.contains key = false) (text : String) (d : Catalog) :
    shared (c.insert key text) d = shared c d + if d.contains key then 1 else 0 := by
  unfold shared
  rw [((keys_insert_of_not_contains c hkey text).filter _).length_eq, List.filter_cons]
  split_ifs <;> rfl

/-! Batches. -/

theorem insert_insert (c : Catalog) (key text again : String) :
    (c.insert key text).insert key again = c.insert key again := by
  induction c with
  | nil => simp [insert]
  | cons e rest ih =>
    obtain ⟨k, t⟩ := e
    rcases lt_trichotomy key k with hlt | rfl | hgt
    · simp [insert, hlt]
    · simp [insert]
    · simp [insert, not_lt_of_gt hgt, ne_of_gt hgt, ih]

theorem insert_comm_of_lt {key other : String} (h : key < other) (c : Catalog)
    (text second : String) :
    (c.insert key text).insert other second = (c.insert other second).insert key text := by
  have hnot : ¬ other < key := not_lt_of_gt h
  have hne : other ≠ key := ne_of_gt h
  induction c with
  | nil => simp [insert, h, hnot, hne]
  | cons e rest ih =>
    obtain ⟨k, t⟩ := e
    rcases lt_trichotomy key k with hlt | rfl | hgt
    · -- the smaller key comes to stand in front, wherever the other one goes
      rcases lt_trichotomy other k with hlt' | rfl | hgt'
      · simp [insert, h, hnot, hne, hlt, hlt']
      · simp [insert, h, hnot, hne]
      · simp [insert, hnot, hne, hlt, not_lt_of_gt hgt', ne_of_gt hgt']
    · simp [insert, hnot, hne]
    · have hgt' : k < other := lt_trans hgt h
      simp [insert, not_lt_of_gt hgt, ne_of_gt hgt, not_lt_of_gt hgt', ne_of_gt hgt', ih]

theorem insert_comm {key other : String} (h : key ≠ other) (c : Catalog) (text second : String) :
    (c.insert key text).insert other second = (c.insert other second).insert key text := by
  rcases lt_or_gt_of_ne h with hlt | hgt
  · exact insert_comm_of_lt hlt c text second
  · exact (insert_comm_of_lt hgt c second text).symm

def insertAll (c : Catalog) (es : List (String × String)) : Catalog :=
  es.foldl (fun c e => c.insert e.1 e.2) c

theorem insertAll_cons (c : Catalog) (key text : String) (es : List (String × String)) :
    c.insertAll ((key, text) :: es) = (c.insert key text).insertAll es := rfl

theorem insertAll_insert_of_notMem {key : String} {es : List (String × String)}
    (h : key ∉ keys es) (c : Catalog) (text : String) :
    (c.insert key text).insertAll es = (c.insertAll es).insert key text := by
  induction es generalizing c with
  | nil => rfl
  | cons e es ih =>
    obtain ⟨k, t⟩ := e
    have hk : key ≠ k ∧ key ∉ keys es := by simpa [keys] using h
    rw [insertAll_cons, insertAll_cons, insert_comm hk.1, ih hk.2]

theorem insertAll_insert_of_mem {key : String} {es : List (String × String)} (h : key ∈ keys es)
    (c : Catalog) (text : String) : (c.insert key text).insertAll es = c.insertAll es := by
  induction es generalizing c with
  | nil => cases h
  | cons e es ih =>
    obtain ⟨k, t⟩ := e
    rw [insertAll_cons, insertAll_cons]
    by_cases hk : key = k
    · rw [hk, insert_insert]
    · have hmem : key ∈ keys es := by simpa [keys, hk] using h
      rw [insert_comm hk, ih hmem]

theorem insertAll_insertAll (c : Catalog) (es : List (String × String)) :
    (c.insertAll es).insertAll es = c.insertAll es := by
  induction es generalizing c with
  | nil => rfl
  | cons e es ih =>
    obtain ⟨key, text⟩ := e
    rw [insertAll_cons, insertAll_cons]
    by_cases h : key ∈ keys es
    · -- what is put at the key first is replaced later in the batch
      rw [insertAll_insert_of_mem h, ih]
    · rw [insertAll_insert_of_notMem h, ih, ← insertAll_insert_of_notMem h, insert_insert]

theorem mem_keys_insertAll (c : Catalog) (es : List (String × String)) (key : String) :
    key ∈ (c.insertAll es).keys ↔ key ∈ keys es ∨ key ∈ c.keys := by
  induction es generalizing c with
  | nil => simp [insertAll, keys]
  | cons e es ih =>
    obtain ⟨k, t⟩ := e
    have hkeys : keys ((k, t) :: es) = k :: keys es := rfl
    rw [insertAll_cons, ih, mem_keys_insert, hkeys, List.mem_cons]
    tauto

end FunctionPairs.Catalog
