import Mathlib.Algebra.Group.Nat.Defs
import FunctionPairs.Dataset.Storage
import FunctionPairs.Proofs.Dataset.Reading
import FunctionPairs.Proofs.Dataset.Sorting
import FunctionPairs.Proofs.FileSystem.Finding

/-!
Saving and loading. What is loaded after a dataset has been saved is the dataset with its rows
sorted, and saving that leaves the same text.
-/
namespace FunctionPairs.Dataset

def Quoted (s t : String) : Prop :=
  ∃ parts, List.Forall₂ Spelled s.toList parts ∧ t = "\"" ++ String.ofList parts.flatten ++ "\""

def Listed (ss : List String) (t : String) : Prop :=
  ∃ ts, List.Forall₂ Quoted ss ts ∧ t = "[" ++ ",".intercalate ts ++ "]"

/-- The compact form: the four members in their order, without blanks. -/
def Stored (d : Dataset) (t : String) : Prop :=
  ∃ sources decompileds langs, Listed d.sources sources ∧ Listed d.decompileds decompileds ∧
    Listed (d.langs.map Lang.key) langs ∧
    t = "\x7b\"max_len\":" ++ toString d.maxLen ++ ",\"sources\":" ++ sources ++
      ",\"decompileds\":" ++ decompileds ++ ",\"code_types\":" ++ langs ++ "\x7d"

theorem quoted_quote (s : String) : Quoted s (quote s) := by
  refine ⟨s.toList.map escapeChar, ?_, ?_⟩
  · rw [List.forall₂_map_right_iff]
    exact List.forall₂_same.mpr fun c _ => spelled_escapeChar c
  · rw [← List.flatMap_def]
    rfl

theorem listed_quoteAll (ss : List String) : Listed ss (quoteAll ss) := by
  refine ⟨ss.map quote, ?_, rfl⟩
  rw [List.forall₂_map_right_iff]
  exact List.forall₂_same.mpr fun s _ => quoted_quote s

theorem stored_toJson (d : Dataset) : Stored d d.toJson :=
  ⟨_, _, _, listed_quoteAll _, listed_quoteAll _, listed_quoteAll _, rfl⟩

variable {fs fs' : FileSystem} {p : Path} {d : Dataset} {l : Location} {contents : Bytes} {x : Bool}

theorem save_eq_ok :
    (d.save fs p).2 = .ok fs' ↔
      fs.write p (Utf8.encode d.sortBySourceLength.toJson) = .ok fs' := by
  show SystemError.because _ (fs.write p _) = _ ↔ _
  cases fs.write p (Utf8.encode d.sortBySourceLength.toJson) with
  | error e =>
    constructor
    · exact fun h => nomatch h
    · exact fun h => nomatch h
  | ok fs'' => simp [SystemError.because]

theorem load_of_find (h : fs.find true p = .ok (l, .file contents x))
    (hd : ofJson contents = some d) (ha : d.Aligned) : load fs p = .ok d := by
  unfold load FileSystem.entry
  simp [h, Except.map, hd, ha]

theorem load_eq_ok (h : load fs p = .ok d) :
    ∃ l contents x, fs.find true p = .ok (l, .file contents x) ∧ ofJson contents = some d ∧
      d.Aligned := by
  unfold load FileSystem.entry at h
  cases hf : fs.find true p with
  | error e => simp [hf, Except.map] at h
  | ok found =>
    obtain ⟨l, e⟩ := found
    cases e with
    | directory => simp [hf, Except.map] at h
    | link t => simp [hf, Except.map] at h
    | file contents x =>
      simp only [hf, Except.map] at h
      cases hj : ofJson contents with
      | none => simp [hj] at h
      | some e =>
        rw [hj] at h
        dsimp only at h
        split_ifs at h with ha
        cases h
        exact ⟨l, contents, x, rfl, hj, ha⟩

theorem load_of_save (hfs : fs.Sound) (hd : d.Aligned) (hmax : d.maxLen ≤ Decimal.maxCount)
    (h : (d.save fs p).2 = .ok fs') : load fs' p = .ok d.sortBySourceLength := by
  obtain ⟨l, x, -, hfind, -⟩ := FileSystem.find_write hfs (save_eq_ok.mp h)
  have hread : ofJson (Utf8.encode d.sortBySourceLength.toJson) = some d.sortBySourceLength :=
    ofJson_toJson _ hmax
  exact load_of_find hfind hread (aligned_sortBySourceLength hd)

/-- A saved dataset is read back with its rows in the stable ascending order of source length;
its text has the compact form, and saving what has been read leaves the identical text. -/
theorem load_save (hfs : fs.Sound) (hd : d.Aligned) (hmax : d.maxLen ≤ Decimal.maxCount)
    (h : (d.save fs p).2 = .ok fs') :
    ∃ e text, load fs' p = .ok e ∧ e.Aligned ∧ e.maxLen = d.maxLen ∧ SortedByLength d.rows e.rows ∧
      fs'.read p = .ok (Utf8.encode text) ∧ Stored e text ∧
      ∃ fs'', (e.save fs' p).2 = .ok fs'' ∧ fs''.read p = .ok (Utf8.encode text) := by
  have hwrite := save_eq_ok.mp h
  obtain ⟨l, x, -, hfind, -⟩ := FileSystem.find_write hfs hwrite
  have hsorted : SortedByLength d.rows d.sortBySourceLength.rows := by
    rw [rows_sortBySourceLength hd]
    exact sortedByLength_mergeSort d.rows
  refine ⟨d.sortBySourceLength, d.sortBySourceLength.toJson, load_of_save hfs hd hmax h,
    aligned_sortBySourceLength hd, rfl, hsorted, FileSystem.read_eq_ok.mpr ⟨_, _, hfind⟩, stored_toJson _, ?_⟩
  -- the rows are sorted already, so the second text is the first
  obtain ⟨fs'', hagain⟩ := FileSystem.exists_rewrite hfs hwrite
    (Utf8.encode d.sortBySourceLength.sortBySourceLength.toJson)
  obtain ⟨k, y, -, hfind', -⟩ := FileSystem.find_write (hfs.write hwrite) hagain
  rw [sortBySourceLength_idem hd] at hfind'
  exact ⟨fs'', save_eq_ok.mpr hagain, FileSystem.read_eq_ok.mpr ⟨_, _, hfind'⟩⟩

def mixed : Dataset :=
  ⟨2 ^ 64 - 1, ["\"\\\n", "b", "\x01😀", "a"], ["é", "", "/", "\x7f"], [.c, .cpp, .cpp, .c]⟩

theorem load_save_mixed :
    ∃ fs' e text, (mixed.save ⟨[], []⟩ (.ofString "set")).2 = .ok fs' ∧
      load fs' (.ofString "set") = .ok e ∧ SortedByLength mixed.rows e.rows ∧
      fs'.read (.ofString "set") = .ok (Utf8.encode text) ∧ Stored e text := by
  have hfs : FileSystem.Sound ⟨[], []⟩ := FileSystem.sound_of_entries (by simp) rfl
  obtain ⟨fs', hsave⟩ : ∃ fs', (mixed.save ⟨[], []⟩ (.ofString "set")).2 = .ok fs' := by
    have hw : FileSystem.writable ⟨[], []⟩ (.ofString "set") = .ok [Utf8.encode "set"] := by cbv
    obtain ⟨fs', hwrite⟩ := FileSystem.exists_write hw (Utf8.encode mixed.sortBySourceLength.toJson)
    exact ⟨fs', save_eq_ok.mpr hwrite⟩
  have h := load_save hfs (by decide) (by decide) hsave
  obtain ⟨e, text, hload, -, -, hsorted, hread, hstored, -⟩ := h
  exact ⟨fs', e, text, hsave, hload, hsorted, hread, hstored⟩

end FunctionPairs.Dataset
