import FunctionPairs.Proofs.FileSystem.Descent
import FunctionPairs.Proofs.FileSystem.Frontier
import FunctionPairs.Proofs.FileSystem.Traversal

/-!
What can be made. Behind the path of a directory a name is free to be opened unless there is a
directory or it is too long, and the directories of a path are made if behind its frontier come
only names that an entry can have.
-/
namespace FunctionPairs.FileSystem

open FunctionPairs.Path (moving)

variable {fs fs' : FileSystem} {p : Path} {d : Location} {n s : Name} {ys rest : List Name}

/-- What keeps a file from being written under a name in the directory at `d`, opened by the path of
the directory. -/
def hindrance? (fs : FileSystem) (d : Location) (p : Path) (n : Name) : Option SystemError :=
  if maxPathLength < (p.child n).bytes.length then some .nameTooLong
  else if maxNameLength < n.length then some .nameTooLong
  else if fs.isDirectoryAt (d ++ [n]) then some .isDirectory
  else none

theorem hindrance?_eq_none : fs.hindrance? d p n = none ↔
    (p.child n).bytes.length ≤ maxPathLength ∧ n.length ≤ maxNameLength ∧
      fs.entryAt (d ++ [n]) ≠ some .directory := by
  unfold hindrance?
  split_ifs with hpath hname hdir
  · exact iff_of_false nofun fun h => absurd h.1 (Nat.not_le.mpr hpath)
  · exact iff_of_false nofun fun h => absurd h.2.1 (Nat.not_le.mpr hname)
  · exact iff_of_false nofun fun h => h.2.2 (isDirectoryAt_iff.mp hdir)
  · exact iff_of_true rfl
      ⟨Nat.not_lt.mp hpath, Nat.not_lt.mp hname, fun h => hdir (isDirectoryAt_iff.mpr h)⟩

theorem resolve_child_of_long (hd : fs.Leads p d) (hp : p.isEmpty = false) (hn : n.Moves)
    (hup : n ≠ Name.up) (hfits : Fits (p.child n)) (hlong : maxNameLength < n.length)
    (follow : Bool) : fs.resolve follow (p.child n) = .error .nameTooLong := by
  obtain ⟨m, hw⟩ := hd
  have hne : Path.isEmpty ⟨n⟩ = false := by simpa [Path.isEmpty] using hn.1
  rw [Path.child, resolve_join hw hp (Path.isAbsolute_of_moves hn) hne hfits, Path.steps_of_moves hn,
    resolveSteps, if_neg hn.2.2, if_neg hup]
  exact if_pos hlong

section Writable

variable (hd : fs.Leads p d) (hp : p.isEmpty = false) (hn : n.Moves) (hup : n ≠ Name.up)
  (hlink : ∀ t, fs.entryAt (d ++ [n]) ≠ some (.link t))

include hd hp hn hup hlink

theorem writable_child_of_unhindered (h : fs.hindrance? d p n = none) :
    fs.writable (p.child n) = .ok (d ++ [n]) := by
  obtain ⟨hpath, hname, hdir⟩ := hindrance?_eq_none.mp h
  have hproper : n.Proper := ⟨hn, hn.2.2, hup, hname⟩
  unfold writable
  simp only [Path.endsInSlash_child hn p, if_neg Bool.false_ne_true]
  rw [resolve_child hd hp hproper true ⟨Path.isEmpty_child hn p, hpath⟩ fun _ => hlink]
  dsimp only
  split
  · next h => exact absurd h hdir
  · rfl

theorem writable_child_of_hindered {e : SystemError} (h : fs.hindrance? d p n = some e) :
    fs.writable (p.child n) = .error e := by
  have hempty := Path.isEmpty_child hn p
  unfold writable
  simp only [Path.endsInSlash_child hn p, if_neg Bool.false_ne_true]
  unfold hindrance? at h
  split_ifs at h with hpath hname hdir
  · cases h
    have hresolve : fs.resolve true (p.child n) = .error .nameTooLong := by
      unfold resolve
      rw [hempty, if_neg Bool.false_ne_true, if_pos hpath]
    rw [hresolve]
  · cases h
    rw [resolve_child_of_long hd hp hn hup ⟨hempty, Nat.not_lt.mp hpath⟩ hname]
  · cases h
    have hproper : n.Proper := ⟨hn, hn.2.2, hup, Nat.not_lt.mp hname⟩
    rw [resolve_child hd hp hproper true ⟨hempty, Nat.not_lt.mp hpath⟩ fun _ => hlink]
    simp only [isDirectoryAt_iff.mp hdir]

end Writable

theorem isEmpty_of_names (h : p.names ≠ []) : p.isEmpty = false := by
  by_contra hempty
  have hbytes : p.bytes = [] := by simpa [Path.isEmpty] using hempty
  exact h (by rw [Path.names, hbytes]; rfl)

theorem resolve_missing {m : Nat} {zs xs : List Name} (hnames : p.names = zs ++ s :: xs)
    (hw : fs.Walks (fs.origin p (moving zs)) ⟨m, d, []⟩) (hs : s.Ordinary) (hfits : Fits p)
    (hnone : fs.entryAt (d ++ [s]) = none) :
    (withoutFinalSlashes p).isEmpty = false ∧ fs.resolve false (withoutFinalSlashes p) =
      if xs.isEmpty then .ok (d ++ [s]) else .error .notFound := by
  have hbare : (withoutFinalSlashes p).isEmpty = false := by
    refine isEmpty_of_names ?_
    rw [Path.names_withoutFinalSlashes, hnames]
    exact List.append_ne_nil_of_right_ne_nil zs (List.cons_ne_nil s xs)
  have hlength : (withoutFinalSlashes p).bytes.length ≤ p.bytes.length := by
    have hdrop := (List.dropWhile_sublist (· = Path.slash) (l := p.bytes.reverse)).length_le
    simpa [withoutFinalSlashes] using hdrop
  have hstart : fs.start (withoutFinalSlashes p) = fs.start p := by
    unfold start
    rw [Path.isAbsolute_withoutFinalSlashes hbare]
  refine ⟨hbare, ?_⟩
  rw [resolve_of_fits ⟨hbare, hlength.trans hfits.2⟩, Path.steps_withoutFinalSlashes, hstart, hnames]
  refine (resolveSteps_of_walks hw rfl rfl (.inr (List.cons_ne_nil s xs))).trans ?_
  rw [resolveSteps_ordinary false hs, hnone]

theorem createDirectory_of_way {m : Nat} {zs : List Name} (hnames : p.names = zs ++ [s])
    (hw : fs.Walks (fs.origin p (moving zs)) ⟨m, d, []⟩) (hs : s.Ordinary) (hfits : Fits p)
    (hnone : fs.entryAt (d ++ [s]) = none) :
    fs.createDirectory p = .ok (fs.put (d ++ [s]) .directory) := by
  obtain ⟨hbare, hresolve⟩ := resolve_missing hnames hw hs hfits hnone
  unfold createDirectory
  simp [hfits.1, hbare, hresolve, hnone]

theorem createDirectory_notFound {m : Nat} {zs xs : List Name} (hnames : p.names = zs ++ s :: xs)
    (hxs : xs ≠ []) (hw : fs.Walks (fs.origin p (moving zs)) ⟨m, d, []⟩) (hs : s.Ordinary)
    (hfits : Fits p) (hnone : fs.entryAt (d ++ [s]) = none) :
    fs.createDirectory p = .error .notFound := by
  obtain ⟨hbare, hresolve⟩ := resolve_missing hnames hw hs hfits hnone
  unfold createDirectory
  simp [hfits.1, hbare, hresolve, hxs]

theorem createDirectory_child (hd : fs.Leads p d) (hp : p.isEmpty = false) (hn : n.Proper)
    (hfits : Fits (p.child n)) (hnone : fs.entryAt (d ++ [n]) = none) :
    fs.createDirectory (p.child n) = .ok (fs.put (d ++ [n]) .directory) := by
  obtain ⟨m, hw⟩ := hd
  rw [← origin_child hp hn.1] at hw
  exact createDirectory_of_way (Path.names_child hn.1 p) hw hn.2 hfits hnone

theorem linkEntry_of_entryAt {e : Entry} (hd : fs.Leads p d) (hp : p.isEmpty = false)
    (hn : n.Proper) (hfits : Fits (p.child n)) (he : fs.entryAt (d ++ [n]) = some e) :
    fs.linkEntry (p.child n) = .ok e := by
  have hfind : fs.find false (p.child n) = .ok (d ++ [n], e) :=
    find_eq_ok.mpr ⟨resolve_child hd hp hn false hfits nofun, he⟩
  rw [linkEntry, hfind]
  rfl

theorem Frontier.not_contains (h : fs.Frontier p ys d s rest) : fs.contains p = false := by
  obtain ⟨n, hw⟩ := h.walks
  rw [Bool.eq_false_iff, ne_eq, contains_iff]
  rintro ⟨l, e, hfind⟩
  exact not_find_of_missing hw h.ne_up h.missing hfind

theorem Frontier.not_isDirectory (h : fs.Frontier p ys d s rest) : fs.isDirectory p = false := by
  rw [Bool.eq_false_iff, ne_eq, isDirectory_iff]
  rintro ⟨l, hfind⟩
  have hthere := contains_iff.mpr ⟨l, _, hfind⟩
  rw [h.not_contains] at hthere
  cases hthere

/-- The path of a place that is not there and can be made. -/
structure Absent (fs : FileSystem) (p : Path) (l : Location) : Prop where
  fits : Fits p
  named : p.names.getLast? ≠ some Name.here
  proper : ∀ n ∈ l, n.Proper
  frontier : ∃ ys d s rest, fs.Frontier p ys d s rest ∧ l = d ++ s :: rest

theorem Frontier.above (h : fs.Frontier p ys d s (rest ++ [n])) (hfits : Fits p) {fuel : Nat}
    (hfuel : (rest ++ [n]).length ≤ fuel) :
    ∃ q fuel', p.ancestorsFrom fuel = q :: q.ancestorsFrom fuel' ∧ rest.length ≤ fuel' ∧
      q.isAbsolute = p.isAbsolute ∧ fs.Frontier q ys d s rest ∧ Fits q ∧
      q.names.getLast? ≠ some Name.here := by
  rw [List.length_append, List.length_singleton] at hfuel
  obtain ⟨fuel, rfl⟩ := Nat.exists_eq_add_of_le' hfuel
  have hlast : p.route = (ys ++ s :: rest) ++ [n] := by rw [h.route]; simp
  obtain ⟨q, hparent, hroute⟩ := Path.exists_parent hlast
  obtain ⟨-, habs, hlength⟩ := Path.parent_eq_some hparent
  have hne : q.route ≠ [] := by simp [hroute]
  obtain ⟨m, hw⟩ := h.way
  refine ⟨q, rest.length + fuel, ?_, Nat.le_add_right _ _, habs, ⟨hroute, ⟨m, ?_⟩, h.missing,
    fun hup => h.falls ?_⟩, ⟨isEmpty_of_names fun hnames => hne ?_, hlength.trans hfits.2⟩,
    Path.getLast?_names_of_parent hparent hne⟩
  · rw [show fuel + (rest.length + 1) = rest.length + fuel + 1 by omega, Path.ancestorsFrom, hparent]
  · simpa [origin, start, habs] using hw
  · rw [← List.cons_append]
    exact List.mem_append_left [n] hup
  · rw [Path.route, hnames, Path.moving_nil]

theorem Frontier.createDirectory_last (hfs : fs.Sound) {q : Path} {fuel : Nat}
    (h : fs.Frontier p ys d s (rest ++ [n])) (hq : fs.Frontier q ys d s rest)
    (habs : q.isAbsolute = p.isAbsolute) (hfits : Fits p) (hqfits : Fits q)
    (hnamed : p.names.getLast? ≠ some Name.here) (hn : n.Ordinary)
    (hmade : fs.createChain (q :: q.ancestorsFrom fuel) = (.ok (), fs')) :
    ∃ fs'', fs'.createDirectory p = .ok fs'' := by
  obtain ⟨hbuilt, hleads, -⟩ := createChain_built hfs hmade
  obtain ⟨l, m, hw⟩ := (hleads rfl q rfl).resolve_left (by simp [hqfits.1])
  obtain rfl := hq.leads hfs hbuilt ⟨m, hw⟩
  have hlast : p.route = q.route ++ [n] := by simp [h.route, hq.route]
  obtain ⟨zs, hnames, hzs⟩ := Path.exists_names_of_named hlast hnamed
  have horigin : fs'.origin q q.route = fs'.origin p (moving zs) := by
    simp [origin, start, habs, hzs]
  rw [horigin] at hw
  refine ⟨_, createDirectory_of_way hnames hw hn hfits ?_⟩
  by_contra hne
  obtain ⟨e, he⟩ := Option.ne_none_iff_exists'.mp hne
  rcases hq.built hfs hbuilt he with hold | ⟨-, -, hbelow⟩
  · rw [hq.missing_below hfs ⟨rest ++ [n], by simp⟩] at hold
    cases hold
  · exact absurd hbelow.length_le (by simp)

theorem Frontier.exists_createChain (hfs : fs.Sound) (h : fs.Frontier p ys d s rest) (hfits : Fits p)
    (hnamed : p.names.getLast? ≠ some Name.here) (hproper : ∀ n ∈ s :: rest, n.Proper) {fuel : Nat}
    (hfuel : rest.length ≤ fuel) :
    ∃ fs', fs.createChain (p :: p.ancestorsFrom fuel) = (.ok (), fs') := by
  have hs := (hproper s List.mem_cons_self).2
  induction rest using List.reverseRecOn generalizing p fuel with
  | nil =>
    obtain ⟨m, hw⟩ := h.way
    obtain ⟨zs, hnames, rfl⟩ := Path.exists_names_of_named h.route hnamed
    rw [createChain, hfits.1, h.not_isDirectory, Bool.false_or, if_neg Bool.false_ne_true,
      createDirectory_of_way hnames hw hs hfits h.missing]
    exact ⟨_, rfl⟩
  | append_singleton rest n ih =>
    obtain ⟨q, above, hancestors, hrest, habs, hq, hqfits, hqnamed⟩ := h.above hfits hfuel
    have hall : s :: rest ⊆ s :: (rest ++ [n]) :=
      List.cons_subset_cons s (List.subset_append_left rest [n])
    obtain ⟨fs₁, hmade⟩ := ih hq hqfits hqnamed (fun k hk => hproper k (hall hk)) hrest
    have hn := (hproper n (by simp)).2
    obtain ⟨fs₂, hlast⟩ := h.createDirectory_last hfs hq habs hfits hqfits hnamed hn hmade
    obtain ⟨m, hw⟩ := h.way
    obtain ⟨zs, vs, hnames, rfl, hvs⟩ := Path.exists_names_of_route h.route
    have hne : vs ≠ [] := by
      rintro rfl
      simp at hvs
    refine ⟨fs₂, ?_⟩
    rw [createChain, hfits.1, h.not_isDirectory, Bool.false_or, if_neg Bool.false_ne_true,
      createDirectory_notFound hnames hne hw hs hfits h.missing, hancestors]
    simp only [hmade, hlast]

theorem Absent.createDirectories {l : Location} (h : fs.Absent p l) (hfs : fs.Sound) :
    ∃ fs', fs.createDirectories p = (.ok (), fs') ∧ fs'.Sound ∧ fs.Grows fs' ∧ fs'.Leads p l ∧
      ∀ k e, fs'.entryAt k = some e → fs.entryAt k = some e ∨ k <+: l := by
  obtain ⟨ys, d, s, rest, hf, rfl⟩ := h.frontier
  have hfuel : rest.length ≤ p.components.length + 1 := by
    have hlength := congrArg List.length hf.route
    have hle := length_route_le p
    rw [List.length_append, List.length_cons] at hlength
    omega
  obtain ⟨fs', hmade⟩ := hf.exists_createChain hfs h.fits h.named
    (fun n hn => h.proper n (List.mem_append_right d hn)) hfuel
  obtain ⟨hbuilt, hleads, -⟩ := createChain_built hfs hmade
  obtain ⟨l, hl⟩ := (hleads rfl p rfl).resolve_left (by simp [h.fits.1])
  obtain rfl := hf.leads hfs hbuilt hl
  refine ⟨fs', hmade, hbuilt.sound, hbuilt.toGrows, hl, fun k e he => ?_⟩
  exact (hf.built hfs hbuilt he).imp_right fun h => h.2.2

end FunctionPairs.FileSystem
