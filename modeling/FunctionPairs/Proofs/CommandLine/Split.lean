import FunctionPairs.CommandLine.Commands
import FunctionPairs.Proofs.Action
import FunctionPairs.Proofs.Dataset.Rows
import FunctionPairs.Proofs.Dataset.Storage
import FunctionPairs.Proofs.FileSystem.Creation

/-!
Splitting a dataset. The kept rows and the rows held out are together the rows that were there,
and each part is found at its path, unless the two paths lead to one place: the part that is
kept is written last and takes the place of the other.
-/
namespace FunctionPairs

open FileSystem (Built Grows find_eq_ok)

namespace Places

theorem prepareOutput_built {fs fs' : FileSystem} {p : Path} {force : Bool}
    {r : Except Failure Unit} (hfs : fs.Sound) (h : prepareOutput fs p force = (r, fs')) :
    ∃ ps, Built ps fs fs' := by
  have hsame : (r, fs') = (r, fs) → ∃ ps, Built ps fs fs' := by
    intro h
    cases h
    exact ⟨[], .refl hfs⟩
  have hcreate : ∀ q, create fs q = (r, fs') → ∃ ps, Built ps fs fs' := by
    intro q h
    cases hc : fs.createDirectories q with
    | mk r₁ fs₁ =>
      unfold create at h
      rw [hc] at h
      cases h
      exact ⟨_, (FileSystem.createChain_built hfs hc).1⟩
  unfold prepareOutput at h
  split_ifs at h
  · cases h
    exact hsame rfl
  · cases h
    exact hsame rfl
  · split at h
    · cases h
      exact hsame rfl
    · split_ifs at h
      · cases h
        exact hsame rfl
      · exact hcreate _ h

theorem prepareOutput_grows {fs fs' : FileSystem} {p : Path} {force : Bool}
    {r : Except Failure Unit} (hfs : fs.Sound) (h : prepareOutput fs p force = (r, fs')) :
    fs.Grows fs' ∧ fs'.Sound := by
  obtain ⟨ps, hbuilt⟩ := prepareOutput_built hfs h
  exact ⟨hbuilt.toGrows, hbuilt.sound⟩

end Places

def FileSystem.SamePlace (fs : FileSystem) (p q : Path) : Prop :=
  ∃ l, fs.resolve true p = .ok l ∧ fs.resolve true q = .ok l

theorem FileSystem.samePlace_iff {fs : FileSystem} {p q : Path} {k l : Location}
    (hp : fs.resolve true p = .ok k) (hq : fs.resolve true q = .ok l) :
    fs.SamePlace p q ↔ k = l := by
  constructor
  · rintro ⟨m, hm, hm'⟩
    rw [hp] at hm
    rw [hq] at hm'
    exact (Except.ok.inj hm).trans (Except.ok.inj hm').symm
  · rintro rfl
    exact ⟨k, hp, hq⟩

namespace CommandLine

open SessionStep

variable {s s' : Session} {p : Path} {d : Dataset} {o : SplitOptions} {r : Except Failure Unit}

theorem load_value {α : Type} (g : FileSystem → Except Failure α) :
    ((files >>= fun fs => Action.ofExcept (g fs)) s).value = (g s.files, s) := by
  have hfiles : (files s).value = (.ok s.files, s) := rfl
  rw [Action.value_bind_of_ok hfiles]
  cases g s.files <;> rfl

theorem load_bind_cases {α : Type} (g : FileSystem → Except Failure α) {f : α → SessionStep Unit}
    (h : (((files >>= fun fs => Action.ofExcept (g fs)) >>= f) s).value = (r, s')) :
    (∃ e, g s.files = .error e ∧ r = .error e ∧ s' = s) ∨
      ∃ a, g s.files = .ok a ∧ (f a s).value = (r, s') := by
  rcases Action.bind_cases h with ⟨e, hload, rfl⟩ | ⟨a, s₁, hload, h⟩
  · rw [load_value, Prod.mk.injEq] at hload
    exact .inl ⟨e, hload.1, rfl, hload.2.symm⟩
  · rw [load_value, Prod.mk.injEq] at hload
    obtain ⟨hload, rfl⟩ := hload
    exact .inr ⟨a, hload, h⟩

theorem loadDataset_value : (loadDataset p s).value = (Dataset.load s.files p, s) :=
  load_value fun fs => Dataset.load fs p

theorem saveDataset_value :
    (saveDataset d p s).value =
      match (d.save s.files p).2 with
      | .ok fs => (.ok d.sortBySourceLength, { s with files := fs })
      | .error e => (.error e, s) := by
  have hsorted : (d.save s.files p).1 = d.sortBySourceLength := rfl
  unfold saveDataset changeWith
  dsimp only
  generalize d.save s.files p = saved at hsorted ⊢
  obtain ⟨sorted, r⟩ := saved
  cases hsorted
  cases r <;> rfl

theorem saveDataset_ok {sorted : Dataset} (h : (saveDataset d p s).value = (.ok sorted, s')) :
    ∃ fs, (d.save s.files p).2 = .ok fs ∧ s' = { s with files := fs } := by
  rw [saveDataset_value] at h
  cases hsave : (d.save s.files p).2 with
  | error e =>
    rw [hsave] at h
    cases h
  | ok fs =>
    rw [hsave] at h
    cases h
    exact ⟨fs, rfl, rfl⟩

theorem saveDataset_error {e : Failure} (h : (saveDataset d p s).value = (.error e, s')) :
    s' = s := by
  rw [saveDataset_value] at h
  split at h <;> cases h
  rfl

theorem exists_save {fs : FileSystem} {l : Location} {e : Entry} (hfs : fs.Sound)
    (h : fs.find true p = .ok (l, e)) (he : e.isFile = true) (d : Dataset) :
    ∃ fs', (d.save fs p).2 = .ok fs' := by
  have hwritable := FileSystem.writable_of_find (hfs.endsInSlash_of_file h he) h he
  obtain ⟨fs', hwrite⟩ := FileSystem.exists_write hwritable (Utf8.encode d.sortBySourceLength.toJson)
  exact ⟨fs', Dataset.save_eq_ok.mpr hwrite⟩

theorem prepare_value {force : Bool} {fs : FileSystem}
    (h : Places.prepareOutput s.files p force = (r, fs)) :
    (changeInPart (fun fs => Places.prepareOutput fs p force) s).value =
      (r, { s with files := fs }) := by
  unfold changeInPart
  dsimp only
  rw [h]

theorem prepare_bind_cases {force : Bool} {f : Unit → SessionStep Unit}
    (h : ((changeInPart (fun fs => Places.prepareOutput fs p force) >>= f) s).value = (r, s')) :
    (∃ e, Places.prepareOutput s.files p force = (.error e, s'.files) ∧ r = .error e) ∨
      ∃ fs, Places.prepareOutput s.files p force = (.ok (), fs) ∧
        (f () { s with files := fs }).value = (r, s') := by
  cases hprepare : Places.prepareOutput s.files p force with
  | mk r₁ fs =>
    have hvalue := prepare_value hprepare
    rcases Action.bind_cases h with ⟨e, hfail, rfl⟩ | ⟨u, s₁, hdone, h⟩
    · cases hvalue.symm.trans hfail
      exact .inl ⟨e, rfl, rfl⟩
    · cases hvalue.symm.trans hdone
      exact .inr ⟨fs, rfl, h⟩

theorem split_succeeds {all left heldOut : Dataset} {fs₁ fs₂ fs₃ : FileSystem}
    (hsame : o.input.same o.output = false) (hload : Dataset.load s.files o.input = .ok all)
    (hprepare : Places.prepareOutput s.files o.output o.force = (.ok (), fs₁))
    (hparts : all.splitOffEnd o.ratio = .ok (left, heldOut))
    (hheld : (heldOut.save fs₁ o.output).2 = .ok fs₂) (hleft : (left.save fs₂ o.input).2 = .ok fs₃) :
    ∃ lines, (split o s).value = (.ok (), ⟨fs₃, lines⟩) := by
  unfold split
  rw [hsame, if_neg Bool.false_ne_true,
    Action.value_bind_of_ok (loadDataset_value.trans (by rw [hload])),
    Action.value_bind_of_ok (prepare_value hprepare),
    Action.value_bind_ofExcept hparts,
    Action.value_bind_of_ok (saveDataset_value.trans (by rw [hheld])),
    Action.value_bind_of_ok (saveDataset_value.trans (by rw [hleft]))]
  exact ⟨_, rfl⟩

structure Parted (o : SplitOptions) (fs fs' : FileSystem) (all left heldOut : Dataset) : Prop where
  loaded : Dataset.load fs o.input = .ok all
  parts : ∃ n, left = (all.splitAt n).1 ∧ heldOut = (all.splitAt n).2
  saved : ∃ fs₁ fs₂, fs.Grows fs₁ ∧ fs₁.Sound ∧ (heldOut.save fs₁ o.output).2 = .ok fs₂ ∧
    (left.save fs₂ o.input).2 = .ok fs'

theorem split_outcome (hfs : s.files.Sound)
    (h : (split o s).value = (r, s')) :
    (r ≠ .ok () ∧ s.files.Grows s'.files) ∨
      r = .ok () ∧ ∃ all left heldOut, Parted o s.files s'.files all left heldOut := by
  unfold split at h
  split_ifs at h with hsame
  · cases h
    exact .inl ⟨nofun, .refl _⟩
  rcases load_bind_cases (fun fs => Dataset.load fs o.input) h with ⟨e, -, rfl, rfl⟩ | ⟨all, hload, h⟩
  · exact .inl ⟨nofun, .refl _⟩
  rcases prepare_bind_cases h with ⟨e, hprepare, rfl⟩ | ⟨fs₁, hprepare, h⟩
  · exact .inl ⟨nofun, (Places.prepareOutput_grows hfs hprepare).1⟩
  obtain ⟨hgrows, hsound⟩ := Places.prepareOutput_grows hfs hprepare
  rcases Action.bind_ofExcept_cases h with ⟨e, -, rfl, rfl⟩ | ⟨parts, hparts, h⟩
  · exact .inl ⟨nofun, hgrows⟩
  obtain ⟨n, rfl⟩ : ∃ n, parts = all.splitAt n := ⟨_, (Dataset.splitOffEnd_eq_ok.mp hparts).2⟩
  dsimp only at h
  rcases Action.bind_cases h with ⟨e, hfail, rfl⟩ | ⟨sorted, _, hdone, h⟩
  · cases (saveDataset_error hfail).symm
    exact .inl ⟨nofun, hgrows⟩
  obtain ⟨fs₂, hheld, rfl⟩ := saveDataset_ok hdone
  -- the input has been read, so it is a file still, and the second write goes through
  obtain ⟨k, contents, x, hfind, -, -⟩ := Dataset.load_eq_ok hload
  obtain ⟨l, y, -, -, hothers⟩ := FileSystem.find_write hsound (Dataset.save_eq_ok.mp hheld)
  have hinput := hothers _ _ _ (hgrows.find hfind) rfl
  have hsound₂ := hsound.write (Dataset.save_eq_ok.mp hheld)
  obtain ⟨fs₃, hleft⟩ := exists_save hsound₂ hinput (by split_ifs <;> rfl) (all.splitAt n).1
  rw [Action.value_bind_of_ok (saveDataset_value.trans (by rw [hleft]))] at h
  cases h
  exact .inr ⟨rfl, all, _, _, hload, ⟨n, rfl, rfl⟩, fs₁, fs₂, hgrows, hsound, hheld, hleft⟩

theorem load_of_saves {fs₁ fs₂ fs₃ : FileSystem} {q : Path} {left heldOut : Dataset}
    (hfs : fs₁.Sound) (hl : left.Aligned) (hh : heldOut.Aligned)
    (hlmax : left.maxLen ≤ Decimal.maxCount) (hhmax : heldOut.maxLen ≤ Decimal.maxCount)
    (hheld : (heldOut.save fs₁ q).2 = .ok fs₂) (hleft : (left.save fs₂ p).2 = .ok fs₃) :
    Dataset.load fs₃ p = .ok left.sortBySourceLength ∧
      (¬ fs₃.SamePlace p q → Dataset.load fs₃ q = .ok heldOut.sortBySourceLength) ∧
      (fs₃.SamePlace p q → Dataset.load fs₃ q = .ok left.sortBySourceLength) := by
  have hwrite := Dataset.save_eq_ok.mp hheld
  have hwrite' := Dataset.save_eq_ok.mp hleft
  obtain ⟨k, x, -, hfindq, -⟩ := FileSystem.find_write hfs hwrite
  obtain ⟨l, y, -, hfindp, hothers⟩ := FileSystem.find_write (hfs.write hwrite) hwrite'
  have hq := hothers q k _ hfindq rfl
  have hplace : fs₃.SamePlace p q ↔ k = l :=
    (FileSystem.samePlace_iff (find_eq_ok.mp hfindp).1 (find_eq_ok.mp hq).1).trans eq_comm
  refine ⟨Dataset.load_of_find hfindp (Dataset.ofJson_toJson _ hlmax)
    (Dataset.aligned_sortBySourceLength hl), fun hne => ?_, fun heq => ?_⟩
  · rw [hplace] at hne
    rw [if_neg hne] at hq
    exact Dataset.load_of_find hq (Dataset.ofJson_toJson _ hhmax)
      (Dataset.aligned_sortBySourceLength hh)
  · rw [hplace] at heq
    rw [if_pos heq] at hq
    exact Dataset.load_of_find hq (Dataset.ofJson_toJson _ hlmax)
      (Dataset.aligned_sortBySourceLength hl)

theorem Parted.rows {fs fs' : FileSystem} {all left heldOut : Dataset}
    (h : Parted o fs fs' all left heldOut) :
    (left.sortBySourceLength.rows ++ heldOut.sortBySourceLength.rows).Perm all.rows ∧
      left.maxLen = all.maxLen ∧ heldOut.maxLen = all.maxLen ∧
      Dataset.load fs' o.input = .ok left.sortBySourceLength ∧
      (¬ fs'.SamePlace o.input o.output →
        Dataset.load fs' o.output = .ok heldOut.sortBySourceLength) ∧
      (fs'.SamePlace o.input o.output →
        Dataset.load fs' o.output = .ok left.sortBySourceLength) := by
  obtain ⟨hload, ⟨n, rfl, rfl⟩, fs₁, fs₂, hgrows, hsound, hheld, hleft⟩ := h
  obtain ⟨k, contents, x, -, hjson, haligned⟩ := Dataset.load_eq_ok hload
  have hmax := Dataset.maxLen_of_ofJson hjson
  have hrows := all.rows_splitAt n
  obtain ⟨hkept, hout⟩ := haligned.splitAt n
  have hperm := ((all.rows.take n).mergeSort_perm Dataset.shorter).append
    ((all.rows.drop n).mergeSort_perm Dataset.shorter)
  rw [List.take_append_drop, ← hrows.1, ← hrows.2, ← Dataset.rows_sortBySourceLength hkept,
    ← Dataset.rows_sortBySourceLength hout] at hperm
  exact ⟨hperm, rfl, rfl, load_of_saves hsound hkept hout hmax hmax hheld hleft⟩

def single : Dataset := ⟨0, ["a"], ["b"], [.c]⟩

def holding (contents : Bytes) : FileSystem := ⟨[([Utf8.encode "set"], .file contents false)], []⟩

def halved (output : String) : SplitOptions := ⟨.ofString "set", .ofString output, 0.5, true⟩

theorem sound_holding (contents : Bytes) : (holding contents).Sound := by
  refine FileSystem.sound_of_entries (fun x hx n hn => ?_) rfl
  rw [List.mem_singleton.mp hx] at hn ⊢
  cases hn
  have hproper : Name.Proper (Utf8.encode "set") := by decide
  exact ⟨hproper, rfl⟩

theorem load_holding : Dataset.load (holding (Utf8.encode single.toJson)) (.ofString "set") = .ok single := by
  have hfind : ∀ contents, (holding contents).find true (.ofString "set") =
      .ok ([Utf8.encode "set"], .file contents false) := by
    intro contents
    cbv
  exact Dataset.load_of_find (hfind _) (Dataset.ofJson_toJson single (by decide)) (by decide)

theorem split_halved {output : String} {l : Location} {fs : FileSystem}
    (hfs : fs = holding (Utf8.encode single.toJson))
    (hsame : (halved output).input.same (.ofString output) = false)
    (hprepare : Places.prepareOutput fs (.ofString output) true = (.ok (), fs))
    (hout : fs.writable (.ofString output) = .ok l)
    (hin : ∀ contents x, (fs.put l (.file contents x)).writable (.ofString "set") =
      .ok [Utf8.encode "set"]) :
    ∃ lines c c' x x', (split (halved output) ⟨fs, []⟩).value =
      (.ok (), ⟨(fs.put l (.file c x)).put [Utf8.encode "set"] (.file c' x'), lines⟩) := by
  subst hfs
  obtain ⟨n, hparts⟩ : ∃ n, single.splitOffEnd 0.5 = .ok (single.splitAt n) := by
    have hratio : ((0.0 : Float) ≤ 0.5 && (0.5 : Float) ≤ 1.0) = true := by decide
    unfold Dataset.splitOffEnd
    rw [if_pos hratio]
    exact ⟨_, rfl⟩
  have hwrite : ∀ {fs : FileSystem} {p : Path} {l : Location} (d : Dataset), fs.writable p = .ok l →
      (d.save fs p).2 = .ok (fs.put l (.file (Utf8.encode d.sortBySourceLength.toJson)
        (fs.executableAt l))) := by
    intro fs p l d h
    rw [Dataset.save_eq_ok]
    unfold FileSystem.write
    rw [h]
    rfl
  obtain ⟨lines, h⟩ := split_succeeds (o := halved output) (s := ⟨_, []⟩) hsame load_holding hprepare
    hparts (hwrite _ hout) (hwrite _ (hin _ _))
  exact ⟨lines, _, _, _, _, h⟩

/-- Rows are neither lost nor doubled by a split whose two paths end up leading to different
places; if they lead to one place, only the rows that are kept are left there. A split that fails
leaves the input as it was. -/
theorem split_rows (hfs : s.files.Sound) {r : Except Failure Unit}
    (h : (split o s).value = (r, s')) :
    (r = .ok () → ∃ all left heldOut, Dataset.load s.files o.input = .ok all ∧
      (left.rows ++ heldOut.rows).Perm all.rows ∧
      left.maxLen = all.maxLen ∧ heldOut.maxLen = all.maxLen ∧
      Dataset.load s'.files o.input = .ok left ∧
      (¬ s'.files.SamePlace o.input o.output → Dataset.load s'.files o.output = .ok heldOut) ∧
      (s'.files.SamePlace o.input o.output → Dataset.load s'.files o.output = .ok left)) ∧
    (r ≠ .ok () → ∀ contents, s.files.read o.input = .ok contents →
      s'.files.read o.input = .ok contents) := by
  rcases split_outcome hfs h with ⟨hr, hgrows⟩ | ⟨hr, all, left, heldOut, hparted⟩
  · refine ⟨fun h => absurd h hr, fun _ contents hread => ?_⟩
    obtain ⟨l, x, hfind⟩ := FileSystem.read_eq_ok.mp hread
    exact FileSystem.read_eq_ok.mpr ⟨l, x, hgrows.find hfind⟩
  · exact ⟨fun _ => ⟨all, _, _, hparted.loaded, hparted.rows⟩, fun h => absurd hr h⟩

theorem split_rows_halved :
    ∃ s' left heldOut,
      (split (halved "out") ⟨holding (Utf8.encode single.toJson), []⟩).value = (.ok (), s') ∧
      (left.rows ++ heldOut.rows).Perm single.rows ∧
      Dataset.load s'.files (.ofString "set") = .ok left ∧
      Dataset.load s'.files (.ofString "out") = .ok heldOut := by
  have hprepare : ∀ c, Places.prepareOutput (holding c) (.ofString "out") true =
      (.ok (), holding c) := by
    intro c
    cbv
  have hout : ∀ c, (holding c).writable (.ofString "out") = .ok [Utf8.encode "out"] := by
    intro c
    cbv
  have hin : ∀ c d x, ((holding c).put [Utf8.encode "out"] (.file d x)).writable (.ofString "set") =
      .ok [Utf8.encode "set"] := by
    intro c d x
    cbv
  have hplaces : ∀ c d d' x x', ¬ (((holding c).put [Utf8.encode "out"] (.file d x)).put
      [Utf8.encode "set"] (.file d' x')).SamePlace (.ofString "set") (.ofString "out") := by
    intro c d d' x x'
    have hset : (((holding c).put [Utf8.encode "out"] (.file d x)).put
        [Utf8.encode "set"] (.file d' x')).resolve true (.ofString "set") =
        .ok [Utf8.encode "set"] := by cbv
    have hout : (((holding c).put [Utf8.encode "out"] (.file d x)).put
        [Utf8.encode "set"] (.file d' x')).resolve true (.ofString "out") =
        .ok [Utf8.encode "out"] := by cbv
    rw [FileSystem.samePlace_iff hset hout]
    decide
  have hsame : (halved "out").input.same (.ofString "out") = false := by decide
  obtain ⟨lines, c, c', x, x', h⟩ := split_halved rfl hsame (hprepare _) (hout _) (hin _)
  have hsplit := (split_rows (sound_holding (Utf8.encode single.toJson)) h).1 rfl
  obtain ⟨all, left, heldOut, hload, hperm, -, -, hleft, hheld, -⟩ := hsplit
  have hall : single = all := Except.ok.inj (load_holding.symm.trans hload)
  rw [← hall] at hperm
  exact ⟨_, left, heldOut, h, hperm, hleft, hheld (hplaces _ _ _ _ _)⟩

/-- The guard compares spellings: with a dot in front the input is its own output, and whichever
row was there is lost or doubled. -/
theorem split_onto_itself :
    ∃ s' left heldOut,
      (split (halved "./set") ⟨holding (Utf8.encode single.toJson), []⟩).value = (.ok (), s') ∧
      Dataset.load s'.files (.ofString "set") = .ok left ∧
      Dataset.load s'.files (.ofString "./set") = .ok heldOut ∧
      ¬ (left.rows ++ heldOut.rows).Perm single.rows := by
  have hprepare : ∀ c, Places.prepareOutput (holding c) (.ofString "./set") true =
      (.ok (), holding c) := by
    intro c
    cbv
  have hout : ∀ c, (holding c).writable (.ofString "./set") = .ok [Utf8.encode "set"] := by
    intro c
    cbv
  have hin : ∀ c d x, ((holding c).put [Utf8.encode "set"] (.file d x)).writable (.ofString "set") =
      .ok [Utf8.encode "set"] := by
    intro c d x
    cbv
  have hplaces : ∀ c d d' x x', (((holding c).put [Utf8.encode "set"] (.file d x)).put
      [Utf8.encode "set"] (.file d' x')).SamePlace (.ofString "set") (.ofString "./set") := by
    intro c d d' x x'
    exact ⟨[Utf8.encode "set"], by cbv, by cbv⟩
  have hsame : (halved "./set").input.same (.ofString "./set") = false := by decide
  obtain ⟨lines, c, c', x, x', h⟩ := split_halved rfl hsame (hprepare _) (hout _) (hin _)
  rcases split_outcome (sound_holding (Utf8.encode single.toJson)) h with ⟨hr, -⟩ | ⟨-, hparted⟩
  · exact absurd rfl hr
  · obtain ⟨all, left, heldOut, hparted⟩ := hparted
    obtain ⟨-, -, -, hset, -, hself⟩ := hparted.rows
    refine ⟨_, _, _, h, hset, hself (hplaces _ _ _ _ _), fun hperm => ?_⟩
    -- the same rows are found twice, but the number of rows was odd
    have hlength := hperm.length_eq
    have hone : single.rows.length = 1 := by decide
    rw [List.length_append, hone] at hlength
    omega

end CommandLine
end FunctionPairs
