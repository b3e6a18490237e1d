import FunctionPairs.Proofs.Extraction.Counters
import FunctionPairs.Proofs.Language

/-!
The role that is recorded for a file. Each language that claims the file overwrites what the ones
before it have recorded, but all that claim it say the same. So the record tells what any of them
says, and neither the record nor the counters depend on the order of the languages.
-/
namespace FunctionPairs.Extraction

def Recorded (langs : List Lang) (name : String) (record : Option FileRole) : Prop :=
  ∀ role, record = some role ↔ role ≠ .bytecode ∧ ∃ lang ∈ langs, lang.classify name = some role

variable {langs langs' : List Lang} {name : String} {record record' : Option FileRole}

theorem isSome_sideOf_iff {role : FileRole} :
    (sideOf (some role)).isSome = true ↔ role ≠ .bytecode := by
  cases role <;> simp [sideOf]

theorem recorded_nil (name : String) : Recorded [] name none := by
  intro role
  simp

theorem Recorded.unique (h : Recorded langs name record) (h' : Recorded langs' name record')
    (hsame : ∀ lang, lang ∈ langs ↔ lang ∈ langs') : record = record' := by
  refine Option.ext fun role => ?_
  rw [h role, h' role]
  simp only [hsame]

theorem Recorded.next (h : Recorded langs name record) (lang : Lang) :
    Recorded (langs ++ [lang]) name
      (if (sideOf (lang.classify name)).isSome then lang.classify name else record) := by
  intro role
  simp only [List.mem_append, List.mem_singleton]
  split_ifs with hclaims
  · obtain ⟨own, hown⟩ : ∃ own, lang.classify name = some own := by
      cases hrole : lang.classify name with
      | none => simp [hrole, sideOf] at hclaims
      | some own => exact ⟨own, rfl⟩
    rw [hown] at hclaims
    constructor
    · intro hrole
      cases hown.symm.trans hrole
      exact ⟨isSome_sideOf_iff.mp hclaims, lang, .inr rfl, hown⟩
    · rintro ⟨-, other, -, hother⟩
      rw [hown, Lang.classify_agree hown hother]
  · rw [h role]
    refine and_congr_right fun hrole => ⟨?_, ?_⟩
    · rintro ⟨l, hl, hown⟩
      exact ⟨l, .inl hl, hown⟩
    · rintro ⟨l, hl | rfl, hown⟩
      · exact ⟨l, hl, hown⟩
      · rw [hown] at hclaims
        exact absurd (isSome_sideOf_iff.mpr hrole) hclaims

variable (fs : FileSystem) (path : Path)

theorem claimed_offer (name : String) (s : ExampleStore) (r : Routed) :
    (offer fs name path s r).value.2.claimed =
      if (sideOf (s.model.lang.classify name)).isSome then s.model.lang.classify name
      else r.claimed := by
  cases hside : sideOf (s.model.lang.classify name) with
  | none => simp [offer, hside]
  | some side =>
    simp only [offer, hside, Logged.value_bind, Option.isSome_some, if_true]
    cases (s.add fs side path).value <;> rfl

theorem Recorded.offerAll {r : Routed} (h : Recorded langs name r.claimed)
    (stores : List ExampleStore) :
    Recorded (langs ++ stores.map (·.model.lang)) name
      (offerAll fs name path r stores).value.2.claimed := by
  induction stores generalizing langs r with
  | nil => simpa [Extraction.offerAll] using h
  | cons s stores ih =>
    have hnext := h.next s.model.lang
    rw [← claimed_offer fs path] at hnext
    simp only [Extraction.offerAll, Logged.value_bind, Logged.value_pure]
    rw [List.map_cons, List.append_cons]
    exact ih hnext

theorem offerAll_perm {stores stores' : List ExampleStore} (h : stores.Perm stores') :
    (offerAll fs (Utf8.decode (path.fileName.getD [])) path ⟨none, 0⟩ stores).value.2 =
      (offerAll fs (Utf8.decode (path.fileName.getD [])) path ⟨none, 0⟩ stores').value.2 := by
  have hrecord := Recorded.offerAll (r := ⟨none, 0⟩) fs path
    (recorded_nil (Utf8.decode (path.fileName.getD [])))
  have hclaimed := (hrecord stores).unique (hrecord stores') fun lang => by
    simpa using (h.map (·.model.lang)).mem_iff
  have hfailures := (offerAll_routed fs path ⟨none, 0⟩ stores).2
  have hfailures' := (offerAll_routed fs path ⟨none, 0⟩ stores').2
  rw [← (h.map ExampleStore.model).countP_eq, ← hfailures] at hfailures'
  exact congrArg₂ Routed.mk hclaimed hfailures'.symm

/-- The suffixes of a name settle what the file is. What it is in C it is in C++; at most one suffix
of a role fits, one of a decompiled file goes before all others, and before a suffix there is always
something. So the record of a file is the role in which any language claims it, whichever was asked
last, and the counters do not depend on the order of the languages. -/
theorem roles_agree (name : String) :
    (∀ role, Lang.c.classify name = some role → Lang.cpp.classify name = some role) ∧
    (∀ lang : Lang, ∀ role, ∀ e ∈ lang.extensions role, ∀ e' ∈ lang.extensions role,
      hasExtension name e = true → hasExtension name e' = true → e = e') ∧
    (∀ lang : Lang, (lang.matchingExtension .decompiled name).isSome = true →
      lang.classify name = some .decompiled) ∧
    (∀ lang : Lang, ∀ role e, lang.matchingExtension role name = some e →
      Lang.dropExtension name e ≠ "" ∧ Lang.dropExtension name e ++ e = name) ∧
    (∀ fs path stores, Recorded (stores.map (·.model.lang)) name
      (offerAll fs name path ⟨none, 0⟩ stores).value.2.claimed) ∧
    ∀ fs path stats stores stores', stores.Perm stores' →
      (route fs path ⟨stores, stats⟩).value.stats =
        (route fs path ⟨stores', stats⟩).value.stats := by
  refine ⟨fun role => Lang.classify_cpp, fun lang role e he e' he' => Lang.extension_unique he he',
    fun lang h => ?_, fun lang role e h => ?_, fun fs path stores => ?_, ?_⟩
  · exact Lang.classify_eq_some_iff.mpr ⟨h, nofun⟩
  · have hname := (Lang.matchingExtension_eq_some h).2
    exact ⟨Lang.dropExtension_ne_empty hname, Lang.dropExtension_append hname⟩
  · exact Recorded.offerAll (r := ⟨none, 0⟩) fs path (recorded_nil name) stores
  · intro fs path stats stores stores' hperm
    simp only [route, Logged.value_bind, Logged.value_pure]
    rw [offerAll_perm fs path hperm]

theorem roles_agree_decompiled :
    let stores := (Feed.start (standardModels ⟨[], []⟩) (.ofString "r")).stores
    let path := Path.ofString "r/f.o.c"
    Lang.c.classify "f.o.c" = some .decompiled ∧ Lang.cpp.classify "f.o.c" = some .decompiled ∧
      Lang.dropExtension "f.o.c" ".o.c" ++ ".o.c" = "f.o.c" ∧
      (offerAll ⟨[], []⟩ "f.o.c" path ⟨none, 0⟩ stores).value.2.claimed = some .decompiled ∧
      (route ⟨[], []⟩ path ⟨stores, .zero⟩).value.stats =
        (route ⟨[], []⟩ path ⟨stores.reverse, .zero⟩).value.stats := by
  intro stores path
  obtain ⟨hcpp, -, hdecompiled, hstem, hrecorded, hroute⟩ := roles_agree "f.o.c"
  have hfits : Lang.c.matchingExtension .decompiled "f.o.c" = some ".o.c" := by decide
  have hc := hdecompiled .c (by rw [hfits]; rfl)
  refine ⟨hc, hcpp _ hc, (hstem .c .decompiled ".o.c" hfits).2, ?_, ?_⟩
  · exact (hrecorded ⟨[], []⟩ path stores .decompiled).mpr ⟨nofun, .c, by decide, hc⟩
  · exact hroute ⟨[], []⟩ path .zero stores stores.reverse (List.reverse_perm stores).symm

end FunctionPairs.Extraction
