import FunctionPairs.Proofs.Decompiled.Writing
import FunctionPairs.Proofs.Identity.Keys
import FunctionPairs.Proofs.Store.Pending

/-!
A source file and its decompiled twin. Their names are one stem with a suffix of either kind, and
what is left of a name once all extensions are dropped depends on the stem alone, even if the stem
has dots of its own: one in front is kept, and the first one after that cuts. So the functions of
twins have the same keys, and every function that both bring with a body makes an example.
-/
namespace FunctionPairs

namespace IdentityPolicy

variable {p : IdentityPolicy}

theorem takeWhile_append_dot (xs ys : List Char) :
    (xs ++ '.' :: ys).takeWhile (· ≠ '.') = xs.takeWhile (· ≠ '.') := by
  induction xs with
  | nil => simp
  | cons x xs ih => by_cases hx : x = '.' <;> simp_all

theorem stemChars_append_dot (hp : p.stripAllExtensions = true) {xs : List Char} (hxs : xs ≠ [])
    (ys : List Char) : p.stemChars (xs ++ '.' :: ys) = p.stemChars xs := by
  have hcut : ∀ zs : List Char, p.cut (zs ++ '.' :: ys) = p.cut zs := by
    intro zs
    rw [cut, if_pos hp, cut, if_pos hp, takeWhile_append_dot]
  obtain ⟨x, zs, rfl⟩ := List.exists_cons_of_ne_nil hxs
  rw [stemChars_eq, stemChars_eq]
  by_cases hx : x = '.'
  · rw [hx]
    exact congrArg _ (hcut zs)
  · split
    · next hdot => exact absurd (List.cons.inj hdot).1 hx
    · split
      · next hdot => exact absurd (List.cons.inj hdot).1 hx
      · exact hcut (x :: zs)

end IdentityPolicy

namespace Lang

variable {lang : Lang} {role : FileRole} {extension : String}

theorem extension_spelled (h : extension ∈ lang.extensions role) :
    (∃ rest, Utf8.encode extension = 0x2E :: rest) ∧ 2 ≤ (Utf8.encode extension).length ∧
      Path.slash ∉ Utf8.encode extension := by
  have hall : ∀ s ∈ lang.extensions role, (Utf8.encode s).head? = some 0x2E ∧
      2 ≤ (Utf8.encode s).length ∧ Path.slash ∉ Utf8.encode s := by
    cases lang <;> cases role <;> decide
  obtain ⟨hhead, hrest⟩ := hall extension h
  obtain ⟨rest, hrest'⟩ := List.head?_eq_some_iff.mp hhead
  exact ⟨⟨rest, hrest'⟩, hrest⟩

theorem extension_dotted (h : extension ∈ lang.extensions role) :
    ∃ rest, extension.toList = '.' :: rest := by
  have hall : ∀ s ∈ lang.extensions role, s.toList.head? = some '.' := by
    cases lang <;> cases role <;> decide
  exact List.head?_eq_some_iff.mp (hall extension h)

theorem moves_append_extension (h : extension ∈ lang.extensions role) {stem : Name}
    (hstem : stem ≠ []) (hslash : Path.slash ∉ stem) :
    (stem ++ Utf8.encode extension).Moves ∧ stem ++ Utf8.encode extension ≠ Name.up := by
  obtain ⟨-, hlength, hfree⟩ := extension_spelled h
  have hpos := List.length_pos_of_ne_nil hstem
  have hlong : ∀ n : Name, n.length ≤ 2 → stem ++ Utf8.encode extension ≠ n := by
    rintro n hn rfl
    rw [List.length_append] at hn
    omega
  refine ⟨⟨hlong [] (by simp), ?_, hlong _ (by decide)⟩, hlong _ (by decide)⟩
  rw [List.mem_append, not_or]
  exact ⟨hslash, hfree⟩

end Lang

namespace IdentityPolicy

variable {p : IdentityPolicy}

theorem stem_append_extension (hp : p.stripAllExtensions = true) {lang : Lang} {role : FileRole}
    {extension : String} (h : extension ∈ lang.extensions role) {stem : Name} (hstem : stem ≠ []) :
    p.stem (stem ++ Utf8.encode extension) = p.stem stem := by
  obtain ⟨⟨rest, hbytes⟩, -⟩ := Lang.extension_spelled h
  obtain ⟨others, hchars⟩ := Lang.extension_dotted h
  have hdecoded : Utf8.decodeChars (stem ++ Utf8.encode extension) =
      Utf8.decodeChars stem ++ '.' :: others := by
    rw [hbytes, Utf8.decodeChars_append (by decide), ← hbytes, Utf8.decodeChars_encode, hchars]
  have hne : Utf8.decodeChars stem ≠ [] := by
    obtain ⟨b, bs, rfl⟩ := List.exists_cons_of_ne_nil hstem
    rw [Utf8.decodeChars_cons]
    exact List.cons_ne_nil _ _
  rw [IdentityPolicy.stem, hdecoded, stemChars_append_dot hp hne, IdentityPolicy.stem]

theorem below_child {root dir : Path} (hdir : dir.startsWith root = true) {n : Name} (hn : n.Moves)
    (hup : n ≠ Name.up) : Below root (dir.child n) (dir.componentsFrom root) n := by
  have hprefix : root.components.isPrefixOf dir.components = true := hdir
  obtain ⟨inner, hinner⟩ := List.isPrefixOf_iff_prefix.mp hprefix
  constructor
  rw [Path.components_child hn hup, Path.componentsFrom, if_pos hprefix, ← hinner, List.drop_left,
    List.append_assoc]

theorem identity_append_extension (hp : p.stripAllExtensions = true) {root dir : Path}
    (hdir : dir.startsWith root = true) {stem : Name} (hstem : stem ≠ [])
    (hslash : Path.slash ∉ stem) {lang : Lang} {role : FileRole} {extension : String}
    (h : extension ∈ lang.extensions role) (name : String) :
    p.identity root (dir.child (stem ++ Utf8.encode extension)) name =
      String.ofList (p.place (dir.componentsFrom root) stem ++ separator ++
        p.nameChars name.toList) := by
  obtain ⟨hmoves, hup⟩ := Lang.moves_append_extension h hstem hslash
  rw [identity, (below_child hdir hmoves hup).identityChars, place,
    stem_append_extension hp h hstem, place]

end IdentityPolicy

namespace ExampleStore

theorem Tallied.paired {s : ExampleStore} (h : s.Tallied) {key : String}
    (hboth : ∀ which, key ∈ s.identities which) :
    (∃ ids : List String, ids.Pairwise (· < ·) ∧ key ∈ ids ∧
      s.built.pairs.map (Prod.map some some) =
        ids.map fun i => (s.sources.get? i, s.decompileds.get? i)) ∧
      key ∉ s.built.missingSources ∧ key ∉ s.built.missingDecompileds := by
  have hheld : ∀ which, (Catalog.get? (s.side which) key).isSome = true := by
    intro which
    have hkey := hboth which
    rwa [identities, List.mem_toFinset, Catalog.mem_keys_iff] at hkey
  have hsource : (s.sources.get? key).isSome = true := hheld .source
  have hdecompiled : (s.decompileds.get? key).isSome = true := hheld .decompiled
  obtain ⟨ids, hascending, hmem, hpairs⟩ := h.prescribed.pairs
  refine ⟨⟨ids, hascending, (hmem key).mpr ⟨hsource, hdecompiled⟩, hpairs⟩, ?_, ?_⟩
  · rw [h.prescribed.mem_missingSources]
    rintro ⟨hnone, -⟩
    rw [hnone] at hsource
    cases hsource
  · rw [h.prescribed.mem_missingDecompileds]
    rintro ⟨-, hnone⟩
    rw [hnone] at hdecompiled
    cases hdecompiled

/-- Twins, with any stem and whichever suffixes of the language they have, give every function the
same key. So after any history of calls, in whatever order, every name that successful calls brought
with a body from both is that of an example, and is missing on neither side. -/
theorem twins_paired (m : LanguageModel) (hstrip : m.identity.stripAllExtensions = true)
    {root dir : Path} (hdir : dir.startsWith root = true) {stem : Name} (hstem : stem ≠ [])
    (hslash : Path.slash ∉ stem) {s d : String} (hs : s ∈ m.lang.extensions .source)
    (hd : d ∈ m.lang.extensions .decompiled) :
    let source := dir.child (stem ++ Utf8.encode s)
    let decompiled := dir.child (stem ++ Utf8.encode d)
    (∀ name, m.identity.identity root source name = m.identity.identity root decompiled name) ∧
      ∀ calls name,
        (∃ f, (source, f) ∈ delivered m .source calls ∧ f.hasBody = true ∧ f.name = name) →
        (∃ g, (decompiled, g) ∈ delivered m .decompiled calls ∧ g.hasBody = true ∧ g.name = name) →
        let store := (empty m root).run calls
        let built := store.buildExamples.value
        let key := m.identity.identity root source name
        (∃ ids : List String, ids.Pairwise (· < ·) ∧ key ∈ ids ∧
          built.pairs.map (Prod.map some some) =
            ids.map fun i => (store.sources.get? i, store.decompileds.get? i)) ∧
          key ∉ built.missingSources ∧ key ∉ built.missingDecompileds := by
  intro source decompiled
  have hsame : ∀ name,
      m.identity.identity root source name = m.identity.identity root decompiled name := by
    intro name
    rw [IdentityPolicy.identity_append_extension hstrip hdir hstem hslash hs,
      IdentityPolicy.identity_append_extension hstrip hdir hstem hslash hd]
  refine ⟨hsame, ?_⟩
  intro calls name hsource hdecompiled store built key
  have hboth : ∀ which, key ∈ store.identities which := by
    intro which
    rw [mem_identities_run]
    cases which with
    | source =>
      obtain ⟨f, hf, hbody, rfl⟩ := hsource
      exact ⟨(source, f), hf, hbody, rfl⟩
    | decompiled =>
      obtain ⟨g, hg, hbody, rfl⟩ := hdecompiled
      exact ⟨(decompiled, g), hg, hbody, (hsame g.name).symm⟩
  exact ((tallied_empty m root).run calls).paired hboth

def twins : FileSystem where
  entries :=
    let r := Utf8.encode "r"
    [([r], .directory),
      ([r, Utf8.encode ".x.y.h"], .file (Utf8.encode "int f()\x7b\x7d") false),
      ([r, Utf8.encode ".x.y.o.c"], .file (Utf8.encode "// FUNCTION f\n\x7b\x7d") false)]
  working := []

def functionAlone : Syntax.Grammar := fun _ _ =>
  (.node (.other "translation_unit") .plain ⟨0, 9⟩
    [.node .functionDefinition .plain ⟨0, 9⟩
      [.node .functionDeclarator .declarator ⟨4, 7⟩ [.node .identifier .declarator ⟨4, 5⟩ []],
        .node (.other "compound_statement") .plain ⟨7, 9⟩ []]], true)

def aloneC : LanguageModel := ⟨.c, ⟨[.c]⟩, functionAlone, ⟨[], 0⟩, 0, .standard⟩

def twinCalls : List Call :=
  [⟨twins, .decompiled, .ofString "r/.x.y.o.c"⟩, ⟨twins, .source, .ofString "r/.x.y.h"⟩]

theorem twins_paired_dotted :
    let store := (empty aloneC (.ofString "r")).run twinCalls
    let built := store.buildExamples.value
    (∃ ids : List String, ids.Pairwise (· < ·) ∧ ".x::f" ∈ ids ∧
      built.pairs.map (Prod.map some some) =
        ids.map fun i => (store.sources.get? i, store.decompileds.get? i)) ∧
      ".x::f" ∉ built.missingSources ∧ ".x::f" ∉ built.missingDecompileds := by
  have hsource : (Path.ofString "r").child (Utf8.encode ".x.y" ++ Utf8.encode ".h") =
      .ofString "r/.x.y.h" := by decide
  have hdecompiled : (Path.ofString "r").child (Utf8.encode ".x.y" ++ Utf8.encode ".o.c") =
      .ofString "r/.x.y.o.c" := by decide
  have hsources : delivered aloneC .source twinCalls =
      [(.ofString "r/.x.y.h", ⟨"f", "int f()\x7b\x7d"⟩)] := by
    have hscraped : (aloneC.scrapeFunctions twins (.ofString "r/.x.y.h")).value =
      .ok [⟨"f", "int f()\x7b\x7d"⟩] := by cbv
    simp only [delivered, twinCalls, Call.brought, Call.scraped, List.flatMap_cons, hscraped]
    rfl
  have hdecompileds : delivered aloneC .decompiled twinCalls =
      [(.ofString "r/.x.y.o.c", ⟨"f", "\x7b\x7d"⟩)] := by
    have hread : twins.read (.ofString "r/.x.y.o.c") =
      .ok (Utf8.encode "// FUNCTION f\n\x7b\x7d") := by cbv
    have hscraped : (Decompiled.scrape twins (.ofString "r/.x.y.o.c")).value =
        .ok [⟨"f", "\x7b\x7d"⟩] := by
      rw [Decompiled.scrape_of_text hread]
      rfl
    simp only [delivered, twinCalls, Call.brought, Call.scraped, List.flatMap_cons, hscraped]
    rfl
  have hkey : aloneC.identity.identity (.ofString "r") (.ofString "r/.x.y.h") "f" = ".x::f" := by
    cbv
  have hdir : (Path.ofString "r").startsWith (.ofString "r") = true := by decide
  have hstem : Utf8.encode ".x.y" ≠ [] := by decide
  have hslash : Path.slash ∉ Utf8.encode ".x.y" := by decide
  have hs : ".h" ∈ aloneC.lang.extensions .source := by decide
  have hd : ".o.c" ∈ aloneC.lang.extensions .decompiled := by decide
  have hpaired := (twins_paired aloneC rfl hdir hstem hslash hs hd).2 twinCalls "f"
  rw [hsource, hdecompiled, hkey, hsources, hdecompileds] at hpaired
  exact hpaired ⟨_, List.mem_singleton_self _, by decide, rfl⟩
    ⟨_, List.mem_singleton_self _, by decide, rfl⟩

end ExampleStore
end FunctionPairs
