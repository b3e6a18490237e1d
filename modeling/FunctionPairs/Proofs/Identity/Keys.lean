import FunctionPairs.Identity
import FunctionPairs.Proofs.Path.Route
import FunctionPairs.Proofs.Text.Encoding
import Mathlib.Data.List.Basic

/-!
When two functions have the same key. A key is the place of a file, which is the directories below
the root and the stem, then `::`, then the name. Of two keys that are the same, the places and the
names are the same too, or else one place runs on over the `::` of the other, which takes a colon in
the name of a directory or file. Directories are told apart by how they are shown: names that are
not well-formed text may look alike, and steps upwards do not show.
-/
namespace FunctionPairs.IdentityPolicy

/-- A file below a root, at the end of some steps. -/
structure Below (root path : Path) (inner : List Component) (file : Name) : Prop where
  components : path.components = root.components ++ (inner ++ [.name file])

def directories (inner : List Component) : List (List Char) :=
  inner.filterMap fun c =>
    match c with
    | .name n => some (Utf8.decodeChars n)
    | _ => none

variable (p : IdentityPolicy)

def stem (file : Name) : List Char := p.stemChars (Utf8.decodeChars file)

def place (inner : List Component) (file : Name) : List Char :=
  ['/'].intercalate (directories inner ++ [p.stem file])

def separator : List Char := [':', ':']

/-- The first place ends where the second one goes on with a colon, so that the separator of the
first key, or half of it, lies within the second place. -/
def Overlaps (place name place' name' : List Char) : Prop :=
  place' = place ++ [':'] ∧ name = ':' :: name' ∨
    ∃ between, place' = place ++ separator ++ between ∧ name = between ++ separator ++ name'

theorem placeOf_append_name (inner : List Component) (file : Name) :
    placeOf (inner ++ [.name file]) = (directories inner, Utf8.decodeChars file) := by
  rw [placeOf, List.getLast?_concat, List.dropLast_concat]
  rfl

theorem Below.componentsFrom {root path : Path} {inner : List Component} {file : Name}
    (h : Below root path inner file) : path.componentsFrom root = inner ++ [.name file] := by
  rw [Path.componentsFrom, h.components, if_pos (List.isPrefixOf_iff_prefix.mpr (List.prefix_append ..)),
    List.drop_left]

theorem Below.identityChars {root path : Path} {inner : List Component} {file : Name}
    (h : Below root path inner file) (name : List Char) :
    p.identityChars root path name = p.place inner file ++ separator ++ p.nameChars name := by
  rw [IdentityPolicy.identityChars, h.componentsFrom, placeOf_append_name]
  rfl

theorem mem_of_mem_beforeLastDot {s : List Char} {c : Char} (h : c ∈ beforeLastDot s) : c ∈ s := by
  unfold beforeLastDot at h
  split at h
  · exact h
  · next before hdrop =>
    have hmem : c ∈ s.reverse.dropWhile (· ≠ '.') := by
      rw [hdrop]
      exact List.mem_cons_of_mem _ (List.mem_reverse.mp h)
    exact List.mem_reverse.mp ((List.dropWhile_sublist _).subset hmem)

def cut (s : List Char) : List Char :=
  if p.stripAllExtensions then s.takeWhile (· ≠ '.') else beforeLastDot s

theorem stemChars_eq (name : List Char) : p.stemChars name =
    match name with
    | '.' :: rest => '.' :: p.cut rest
    | _ => p.cut name := rfl

theorem mem_of_mem_cut {s : List Char} {c : Char} (h : c ∈ p.cut s) : c ∈ s := by
  unfold cut at h
  split_ifs at h
  · exact (List.takeWhile_sublist _).subset h
  · exact mem_of_mem_beforeLastDot h

theorem mem_of_mem_stemChars {name : List Char} {c : Char} (h : c ∈ p.stemChars name) :
    c ∈ name := by
  rw [stemChars_eq] at h
  split at h
  · rw [List.mem_cons] at h ⊢
    exact h.imp id p.mem_of_mem_cut
  · exact p.mem_of_mem_cut h

theorem slash_notMem_decodeChars {n : Name} (h : Path.slash ∉ n) : '/' ∉ Utf8.decodeChars n :=
  fun hmem => h (Utf8.mem_of_mem_decodeChars (by decide) hmem)

theorem Below.slash_notMem {root path : Path} {inner : List Component} {file : Name}
    (h : Below root path inner file) : ∀ part ∈ directories inner ++ [p.stem file], '/' ∉ part := by
  have hnames : ∀ n, .name n ∈ inner ++ [.name file] → '/' ∉ Utf8.decodeChars n := by
    intro n hn
    have hmem : .name n ∈ path.components := h.components ▸ List.mem_append_right _ hn
    exact slash_notMem_decodeChars (Path.moves_of_mem_components hmem).1.2.1
  intro part hpart
  rw [List.mem_append, List.mem_singleton] at hpart
  rcases hpart with hdirectory | rfl
  · obtain ⟨c, hc, hpart⟩ := List.mem_filterMap.mp hdirectory
    cases c <;> cases hpart
    exact hnames _ (List.mem_append_left _ hc)
  · exact fun hslash => hnames file (by simp) (p.mem_of_mem_stemChars hslash)

theorem place_eq_iff {root root' path path' : Path} {inner inner' : List Component} {file file' : Name}
    (h : Below root path inner file) (h' : Below root' path' inner' file') :
    p.place inner file = p.place inner' file' ↔
      directories inner = directories inner' ∧ p.stem file = p.stem file' := by
  constructor
  · intro hplace
    have hparts := congrArg (List.splitOn '/') hplace
    rw [place, place, List.splitOn_intercalate '/' (h.slash_notMem p) (by simp),
      List.splitOn_intercalate '/' (h'.slash_notMem p) (by simp)] at hparts
    obtain ⟨hdirectories, hstem⟩ := List.append_inj' hparts rfl
    exact ⟨hdirectories, List.singleton_inj.mp hstem⟩
  · rintro ⟨hdirectories, hstem⟩
    rw [place, place, hdirectories, hstem]

theorem eq_append_separator_iff (x name name' : List Char) :
    separator ++ name = x ++ (separator ++ name') ↔ x = [] ∧ name = name' ∨
      x = [':'] ∧ name = ':' :: name' ∨
        ∃ between, x = separator ++ between ∧ name = between ++ separator ++ name' := by
  rcases x with _ | ⟨a, _ | ⟨b, between⟩⟩
  · simp [separator]
  · simp [separator, eq_comm]
  · simp [separator, and_assoc, eq_comm]

theorem overlaps_iff (place name place' name' : List Char) :
    (∃ x, place' = place ++ x ∧ separator ++ name = x ++ (separator ++ name')) ↔
      place = place' ∧ name = name' ∨ Overlaps place name place' name' := by
  simp only [eq_append_separator_iff]
  constructor
  · rintro ⟨x, rfl, ⟨rfl, hname⟩ | ⟨rfl, hname⟩ | ⟨between, rfl, hname⟩⟩
    · exact Or.inl ⟨(List.append_nil place).symm, hname⟩
    · exact Or.inr (Or.inl ⟨rfl, hname⟩)
    · exact Or.inr (Or.inr ⟨between, (List.append_assoc ..).symm, hname⟩)
  · rintro (⟨rfl, hname⟩ | ⟨rfl, hname⟩ | ⟨between, rfl, hname⟩)
    · exact ⟨[], (List.append_nil place).symm, Or.inl ⟨rfl, hname⟩⟩
    · exact ⟨[':'], rfl, Or.inr (Or.inl ⟨rfl, hname⟩)⟩
    · exact ⟨separator ++ between, List.append_assoc .., Or.inr (Or.inr ⟨between, rfl, hname⟩)⟩

theorem append_separator_eq_iff (place name place' name' : List Char) :
    place ++ separator ++ name = place' ++ separator ++ name' ↔
      place = place' ∧ name = name' ∨ Overlaps place name place' name' ∨
        Overlaps place' name' place name := by
  rw [List.append_assoc, List.append_assoc, List.append_eq_append_iff, overlaps_iff, overlaps_iff]
  constructor
  · rintro ((hsame | hover) | (⟨rfl, rfl⟩ | hover))
    · exact Or.inl hsame
    · exact Or.inr (Or.inl hover)
    · exact Or.inl ⟨rfl, rfl⟩
    · exact Or.inr (Or.inr hover)
  · rintro (hsame | hover | hover)
    · exact Or.inl (Or.inl hsame)
    · exact Or.inl (Or.inr hover)
    · exact Or.inr (Or.inr hover)

def Legible (c : Component) : Prop := ∃ s, c = .name (Utf8.encode s)

theorem map_directories {inner : List Component} (h : ∀ c ∈ inner, Legible c) :
    (directories inner).map (fun d => Component.name (Utf8.encode (String.ofList d))) = inner := by
  induction inner with
  | nil => rfl
  | cons c inner ih =>
    obtain ⟨⟨s, rfl⟩, hinner⟩ := List.forall_mem_cons.mp h
    have hfirst : directories (.name (Utf8.encode s) :: inner) = s.toList :: directories inner :=
      List.filterMap_cons_some (congrArg some (Utf8.decodeChars_encode s))
    rw [hfirst, List.map_cons, ih hinner, String.ofList_toList]

theorem directories_inj {inner inner' : List Component} (h : ∀ c ∈ inner ++ inner', Legible c) :
    directories inner = directories inner' ↔ inner = inner' := by
  rw [List.forall_mem_append] at h
  constructor
  · intro hsame
    rw [← map_directories h.1, hsame, map_directories h.2]
  · rintro rfl
    rfl

theorem not_overlaps {place name place' name' : List Char} (h : ':' ∉ place') :
    ¬ Overlaps place name place' name' := by
  rintro (⟨rfl, -⟩ | ⟨between, rfl, -⟩) <;> simp [separator] at h

/-- Two keys are the same exactly if the directories and the stems look the same and the names are
the same as far as they count, or if the places overlap. So if the names of all directories are
well-formed text and no place has a colon in it, the same key means the same directory, stem and
name. -/
theorem identity_eq_iff {root path path' : Path} {inner inner' : List Component} {file file' : Name}
    (h : Below root path inner file) (h' : Below root path' inner' file') (f f' : String) :
    (p.identity root path f = p.identity root path' f' ↔
      (directories inner = directories inner' ∧ p.stem file = p.stem file') ∧
          p.nameChars f.toList = p.nameChars f'.toList ∨
        Overlaps (p.place inner file) (p.nameChars f.toList)
          (p.place inner' file') (p.nameChars f'.toList) ∨
        Overlaps (p.place inner' file') (p.nameChars f'.toList)
          (p.place inner file) (p.nameChars f.toList)) ∧
      ((∀ c ∈ inner ++ inner', Legible c) → ':' ∉ p.place inner file → ':' ∉ p.place inner' file' →
        (p.identity root path f = p.identity root path' f' ↔
          (inner = inner' ∧ p.stem file = p.stem file') ∧
            p.nameChars f.toList = p.nameChars f'.toList)) := by
  have hkeys : p.identity root path f = p.identity root path' f' ↔
      (directories inner = directories inner' ∧ p.stem file = p.stem file') ∧
          p.nameChars f.toList = p.nameChars f'.toList ∨
        Overlaps (p.place inner file) (p.nameChars f.toList)
          (p.place inner' file') (p.nameChars f'.toList) ∨
        Overlaps (p.place inner' file') (p.nameChars f'.toList)
          (p.place inner file) (p.nameChars f.toList) := by
    rw [identity, identity, String.ofList_inj, h.identityChars, h'.identityChars,
      append_separator_eq_iff, p.place_eq_iff h h']
  refine ⟨hkeys, ?_⟩
  intro hlegible hplace hplace'
  rw [hkeys, or_iff_left (not_or.mpr ⟨not_overlaps hplace', not_overlaps hplace⟩),
    directories_inj hlegible]

theorem identity_eq_iff_hidden :
    Below (.ofString "r") (.ofString "r/é//.x.o.cpp") [.name (Utf8.encode "é")]
        (Utf8.encode ".x.o.cpp") ∧
      Below (.ofString "r") (.ofString "r/é/.x.cpp") [.name (Utf8.encode "é")]
        (Utf8.encode ".x.cpp") ∧
      standard.identity (.ofString "r") (.ofString "r/é//.x.o.cpp") " S<int>::f" =
        standard.identity (.ofString "r") (.ofString "r/é/.x.cpp") "S" := by
  have hbelow : Below (.ofString "r") (.ofString "r/é//.x.o.cpp") [.name (Utf8.encode "é")]
    (Utf8.encode ".x.o.cpp") := ⟨by decide⟩
  have hbelow' : Below (.ofString "r") (.ofString "r/é/.x.cpp") [.name (Utf8.encode "é")]
    (Utf8.encode ".x.cpp") := ⟨by decide⟩
  have hlegible : ∀ c ∈ [Component.name (Utf8.encode "é")] ++ [.name (Utf8.encode "é")],
      Legible c := by simp [Legible]
  have hplace : standard.place [.name (Utf8.encode "é")] (Utf8.encode ".x.o.cpp") =
      ['é', '/', '.', 'x'] := by cbv
  have hplace' : standard.place [.name (Utf8.encode "é")] (Utf8.encode ".x.cpp") =
      ['é', '/', '.', 'x'] := by cbv
  refine ⟨hbelow, hbelow', ?_⟩
  apply ((identity_eq_iff standard hbelow hbelow' " S<int>::f" "S").2 hlegible ?_ ?_).mpr
  · exact ⟨⟨rfl, by cbv⟩, by decide⟩
  · rw [hplace]
    decide
  · rw [hplace']
    decide

/-- A place can run on over a separator, and two directories can look alike. -/
theorem identity_ambiguous :
    (Below (.ofString "r") (.ofString "r/a.cpp") [] (Utf8.encode "a.cpp") ∧
      Below (.ofString "r") (.ofString "r/a::b.o.cpp") [] (Utf8.encode "a::b.o.cpp") ∧
      standard.identity (.ofString "r") (.ofString "r/a.cpp") "b::c" =
        standard.identity (.ofString "r") (.ofString "r/a::b.o.cpp") "c" ∧
      standard.stem (Utf8.encode "a.cpp") ≠ standard.stem (Utf8.encode "a::b.o.cpp")) ∧
      Below (.ofString "r") ⟨[0x72, 0x2F, 0xFE, 0x2F, 0x66, 0x2E, 0x63]⟩ [.name [0xFE]]
        (Utf8.encode "f.c") ∧
      Below (.ofString "r") ⟨[0x72, 0x2F, 0xFF, 0x2F, 0x66, 0x2E, 0x63]⟩ [.name [0xFF]]
        (Utf8.encode "f.c") ∧
      standard.identity (.ofString "r") ⟨[0x72, 0x2F, 0xFE, 0x2F, 0x66, 0x2E, 0x63]⟩ "g" =
        standard.identity (.ofString "r") ⟨[0x72, 0x2F, 0xFF, 0x2F, 0x66, 0x2E, 0x63]⟩ "g" := by
  have hstem : standard.stem (Utf8.encode "a.cpp") = ['a'] := by cbv
  have hstem' : standard.stem (Utf8.encode "a::b.o.cpp") = ['a', ':', ':', 'b'] := by cbv
  refine ⟨⟨⟨by decide⟩, ⟨by decide⟩, by cbv, ?_⟩, ⟨by decide⟩, ⟨by decide⟩, by cbv⟩
  rw [hstem, hstem']
  decide

end FunctionPairs.IdentityPolicy
