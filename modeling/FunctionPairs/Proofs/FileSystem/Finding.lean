import FunctionPairs.Proofs.FileSystem.Soundness

/-!
What a path leads to. In a sound file system a path leads to a directory exactly if the way of
its route ends there. What is found stays found while directories and links stay, and a
directory that has been made or a file that has been written is found where its path leads.
-/
namespace FunctionPairs.FileSystem

open FunctionPairs.Path (moving)

variable {fs fs' : FileSystem} {p q : Path} {k l : Location} {e : Entry} {follow : Bool}

def start (fs : FileSystem) (p : Path) : Location := if p.isAbsolute then [] else fs.working

def origin (fs : FileSystem) (p : Path) (route : List Name) : Lookup :=
  ⟨maxLinks, fs.start p, route⟩

/-- The way of the path ends in the directory at a location. -/
def Leads (fs : FileSystem) (p : Path) (l : Location) : Prop :=
  ∃ n, fs.Walks (fs.origin p p.route) ⟨n, l, []⟩

def Fits (p : Path) : Prop := p.isEmpty = false ∧ p.bytes.length ≤ maxPathLength

theorem resolve_of_fits (hp : Fits p) :
    fs.resolve follow p = fs.resolveSteps follow maxLinks (fs.start p) p.steps := by
  unfold resolve
  rw [if_neg (by simp [hp.1]), if_neg (Nat.not_lt.mpr hp.2)]
  rfl

theorem fits_of_resolve (h : fs.resolve follow p = .ok l) : Fits p := by
  unfold resolve at h
  by_cases h1 : p.isEmpty = true
  · simp [h1] at h
  · by_cases h2 : maxPathLength < p.bytes.length
    · simp [h1, h2] at h
    · exact ⟨by simpa using h1, Nat.not_lt.mp h2⟩

theorem resolve_join {m : Nat} (hw : fs.Walks (fs.origin p p.route) ⟨m, l, []⟩)
    (hp : p.isEmpty = false) (hrel : q.isAbsolute = false) (hq : q.isEmpty = false)
    (hfits : Fits (p.join q)) :
    fs.resolve follow (p.join q) = fs.resolveSteps follow m l q.steps := by
  have hstart : fs.start (p.join q) = fs.start p := by simp [start, Path.isAbsolute_join hrel hp]
  have hsteps : q.steps ≠ [] := by
    rw [Path.steps_eq]
    split_ifs <;> simp [Path.names_ne_nil hrel hq]
  rw [resolve_of_fits hfits, hstart, Path.steps_join hrel hq]
  exact resolveSteps_of_walks hw rfl rfl (.inr hsteps)

theorem find_eq_ok :
    fs.find follow p = .ok (l, e) ↔ fs.resolve follow p = .ok l ∧ fs.entryAt l = some e := by
  unfold find
  cases fs.resolve follow p with
  | error _ => simp
  | ok k =>
    dsimp only
    cases he : fs.entryAt k with
    | none =>
      constructor
      · intro h
        cases h
      · rintro ⟨h, h'⟩
        rw [← Except.ok.inj h, he] at h'
        cases h'
    | some f =>
      constructor
      · intro h
        cases h
        exact ⟨rfl, he⟩
      · rintro ⟨h, h'⟩
        rw [← Except.ok.inj h, he] at h'
        rw [← Except.ok.inj h, Option.some.inj h']

theorem contains_iff : fs.contains p = true ↔ ∃ l e, fs.find true p = .ok (l, e) := by
  unfold contains entry
  cases h : fs.find true p with
  | error _ => simp [Except.map, Except.isOk, Except.toBool]
  | ok found =>
    obtain ⟨l, e⟩ := found
    simp [Except.map, Except.isOk, Except.toBool]

theorem isDirectory_iff : fs.isDirectory p = true ↔ ∃ l, fs.find true p = .ok (l, .directory) := by
  unfold isDirectory entry
  cases h : fs.find true p with
  | error _ => simp [Except.map]
  | ok found =>
    obtain ⟨l, e⟩ := found
    cases e <;> simp [Except.map, Entry.isDirectory]

theorem isFile_iff :
    fs.isFile p = true ↔ ∃ l contents x, fs.find true p = .ok (l, .file contents x) := by
  rw [isFile, entry]
  cases fs.find true p with
  | error e => simp [Except.map]
  | ok found =>
    obtain ⟨l, e⟩ := found
    cases e <;> simp [Except.map, Entry.isFile]

theorem Sound.start (hfs : fs.Sound) (p : Path) : fs.entryAt (fs.start p) = some .directory := by
  unfold FileSystem.start
  split_ifs
  · rfl
  · exact hfs.working

theorem arrives_of_find (h : fs.find true p = .ok (l, e)) :
    fs.Arrives (fs.origin p p.route) l := by
  obtain ⟨hr, -⟩ := find_eq_ok.mp h
  rw [resolve_of_fits (fits_of_resolve hr)] at hr
  have harrives := arrives_of_resolveSteps hr
  rwa [Path.moving_steps] at harrives

theorem designates_of_find (h : fs.find false p = .ok (l, e)) :
    fs.Designates maxLinks (fs.start p) p.steps l := by
  obtain ⟨hr, -⟩ := find_eq_ok.mp h
  rw [resolve_of_fits (fits_of_resolve hr)] at hr
  exact designates_of_resolveSteps hr

theorem Sound.directory_of_leads (hfs : fs.Sound) (h : fs.Leads p l) :
    fs.entryAt l = some .directory := by
  obtain ⟨n, hw⟩ := h
  exact hfs.directory_of_walks hw (hfs.start p)

theorem Sound.find_iff_leads (hfs : fs.Sound) (hp : Fits p) :
    fs.find true p = .ok (l, .directory) ↔ fs.Leads p l := by
  constructor
  · intro h
    have hentry := (find_eq_ok.mp h).2
    cases arrives_of_find h with
    | inside hw => exact ⟨_, hw⟩
    | name _ _ he => exact absurd (he _ hentry) (by simp [Entry.isFile])
  · intro h
    have hdir := hfs.directory_of_leads h
    obtain ⟨n, hw⟩ := h
    have hsteps : fs.resolveSteps true maxLinks (fs.start p) (p.steps ++ []) = .ok l :=
      (resolveSteps_of_walks hw rfl (Path.moving_steps p) (.inl rfl)).trans (resolveSteps_nil true)
    rw [List.append_nil] at hsteps
    exact find_eq_ok.mpr ⟨(resolve_of_fits hp).trans hsteps, hdir⟩

theorem Leads.keeps (h : fs.Leads p l) (hk : fs.Keeps fs') (hw : fs'.working = fs.working) :
    fs'.Leads p l := by
  obtain ⟨n, h⟩ := h
  refine ⟨n, ?_⟩
  have hstart : fs'.origin p p.route = fs.origin p p.route := by
    simp [origin, FileSystem.start, hw]
  rw [hstart]
  exact h.keeps hk

theorem Leads.unique (h : fs.Leads p k) (h' : fs.Leads p l) : k = l := by
  obtain ⟨n, h⟩ := h
  obtain ⟨m, h'⟩ := h'
  have heq := Walks.unique h h' stuck_nil stuck_nil
  cases heq
  rfl

theorem Sound.directory_before_here (hfs : fs.Sound) {n : Nat} {xs : List Name}
    (hxs : xs.getLast? = some Name.here) (hk : fs.entryAt k = some .directory)
    (h : fs.resolveSteps true n k xs = .ok l) : fs.entryAt l = some .directory := by
  have hrest : ∀ {s : Name} {xs : List Name}, s ≠ Name.here →
      (s :: xs).getLast? = some Name.here → xs.getLast? = some Name.here := by
    intro s xs hs hlast
    cases xs with
    | nil => simp [hs] at hlast
    | cons x xs => rwa [List.getLast?_cons_cons] at hlast
  rw [resolveSteps_eq_ok] at h
  induction h with
  | done => cases hxs
  | @here n k xs l rest ih =>
    cases xs with
    | nil =>
      cases rest
      exact hk
    | cons x xs => exact ih (by rwa [List.getLast?_cons_cons] at hxs) hk
  | up _ ih => exact ih (hrest (by decide) hxs) (hfs.entryAt_dropLast hk)
  | enter hs he _ ih => exact ih (hrest hs.1 hxs) he
  | last hs => simp [hs.1] at hxs
  | link hs => simp [hs.1] at hxs
  | through hs _ _ _ ih =>
    refine ih ?_ ?_
    · rw [List.getLast?_append, hrest hs.1 hxs]
      rfl
    · split_ifs
      · rfl
      · exact hk

theorem Sound.endsInSlash_of_file (hfs : fs.Sound) (h : fs.find true p = .ok (l, e))
    (he : e.isFile = true) : p.endsInSlash = false := by
  obtain ⟨hr, hentry⟩ := find_eq_ok.mp h
  rw [resolve_of_fits (fits_of_resolve hr)] at hr
  by_contra hnot
  have hslash : p.endsInSlash = true := by simpa using hnot
  have hdir : fs.entryAt l = some .directory := by
    rcases Path.getLast?_steps hslash with hsteps | hlast
    · rw [hsteps, resolveSteps_nil] at hr
      rw [← Except.ok.inj hr]
      exact hfs.start p
    · exact hfs.directory_before_here hlast (hfs.start p) hr
  rw [hentry] at hdir
  rw [Option.some.inj hdir] at he
  cases he

/-! Changes that leave directories and links where they are. -/

theorem resolveSteps_last {n : Nat} {s : Name} (hs : s.Ordinary)
    (he : ∀ e, fs.entryAt (k ++ [s]) = some e → e.isFile = true) :
    fs.resolveSteps follow n k [s] = .ok (k ++ [s]) :=
  resolveSteps_eq_ok.mpr (.last hs he)

theorem resolveSteps_keeps {n : Nat} {xs : List Name} (hk : fs.Keeps fs')
    (h : fs.resolveSteps true n k xs = .ok l)
    (hl : ∀ e, fs'.entryAt l = some e → e.isFile = true ∨ fs.entryAt l = some e) :
    fs'.resolveSteps true n k xs = .ok l := by
  rw [resolveSteps_eq_ok] at h ⊢
  induction h with
  | done => exact .done
  | here _ ih => exact .here (ih hl)
  | up _ ih => exact .up (ih hl)
  | enter hs he _ ih => exact .enter hs (hk _ _ he rfl) (ih hl)
  | last hs he => exact .last hs fun e hthere => (hl e hthere).elim id (he e)
  | link _ _ hleft => cases hleft
  | through hs he hfollowed _ ih => exact .through hs (hk _ _ he rfl) hfollowed (ih hl)

theorem resolve_keeps (hk : fs.Keeps fs') (hw : fs'.working = fs.working)
    (h : fs.resolve true p = .ok l)
    (hl : ∀ e, fs'.entryAt l = some e → e.isFile = true ∨ fs.entryAt l = some e) :
    fs'.resolve true p = .ok l := by
  have hp := fits_of_resolve h
  have hstart : fs'.start p = fs.start p := by simp [start, hw]
  rw [resolve_of_fits hp] at h ⊢
  rw [hstart]
  exact resolveSteps_keeps hk h hl

/-! Making a directory, and writing a file. -/

theorem moves_of_walks {a b : Lookup} (h : fs.Walks a b) (ha : ∀ n ∈ a.ahead, Name.Moves n) :
    ∀ n ∈ b.ahead, Name.Moves n := by
  induction h with
  | refl => exact ha
  | tail _ hstep ih =>
    cases hstep with
    | up => exact fun n hn => ih n (by simp [hn])
    | enter => exact fun n hn => ih n (by simp [hn])
    | follow =>
      intro n hn
      rcases List.mem_append.mp hn with hn | hn
      · exact Path.moves_of_mem_route hn
      · exact ih n (by simp [hn])

theorem createDirectory_eq_ok (hfs : fs.Sound) (h : fs.createDirectory p = .ok fs') :
    ∃ ys s n d, p.route = ys ++ [s] ∧ fs.Walks (fs.origin p ys) ⟨n, d, []⟩ ∧ s.Proper ∧
      fs.entryAt (d ++ [s]) = none ∧ fs' = fs.put (d ++ [s]) .directory := by
  unfold createDirectory at h
  dsimp only at h
  split_ifs at h with h1 h2
  have hbare : (withoutFinalSlashes p).isEmpty = false := by simpa using h2
  have hstart : fs.start (withoutFinalSlashes p) = fs.start p := by
    unfold start
    rw [Path.isAbsolute_withoutFinalSlashes hbare]
  cases hr : fs.resolve false (withoutFinalSlashes p) with
  | error e =>
    rw [hr] at h
    cases h
  | ok l =>
    rw [hr] at h
    dsimp only at h
    cases hl : fs.entryAt l with
    | some e =>
      rw [hl] at h
      cases h
    | none =>
      rw [hl] at h
      cases h
      rw [resolve_of_fits (fits_of_resolve hr), Path.steps_withoutFinalSlashes, hstart] at hr
      cases designates_of_resolveSteps hr with
      | inside hw =>
        have hdir := hfs.directory_of_walks hw (hfs.start p)
        rw [hl] at hdir
        cases hdir
      | @name ys s n d hsplit hw hs =>
        have hroute : p.route = moving ys ++ [s] := by
          rw [Path.route, hsplit, Path.moving_append, Path.moving_cons hs.1, Path.moving_nil]
        exact ⟨moving ys, s, n, d, hroute, hw,
          ⟨Path.moves_of_mem_route (p := p) (by simp [hroute]), hs⟩, hl, rfl⟩

theorem writable_eq_ok (hfs : fs.Sound) (h : fs.writable p = .ok l) :
    fs.resolve true p = .ok l ∧ p.endsInSlash = false ∧ ∃ n d s, fs.Walks (fs.origin p p.route) ⟨n, d, [s]⟩ ∧ s.Proper ∧
      l = d ++ [s] ∧ ∀ e, fs.entryAt l = some e → e.isFile = true := by
  unfold writable at h
  cases hslash : p.endsInSlash with
  | true =>
    simp only [hslash, if_true] at h
    split at h <;> cases h
  | false =>
    simp only [hslash, if_neg Bool.false_ne_true] at h
    cases hr : fs.resolve true p with
    | error e =>
      rw [hr] at h
      cases h
    | ok k =>
      rw [hr] at h
      dsimp only at h
      have hk : fs.entryAt k ≠ some .directory ∧ k = l := by
        split at h
        · cases h
        · next hnot =>
          cases h
          exact ⟨hnot, rfl⟩
      obtain ⟨hk, rfl⟩ := hk
      refine ⟨rfl, rfl, ?_⟩
      have hsteps := hr
      rw [resolve_of_fits (fits_of_resolve hr)] at hsteps
      have harrives := arrives_of_resolveSteps hsteps
      rw [Path.moving_steps] at harrives
      cases harrives with
      | inside hw => exact absurd (hfs.directory_of_walks hw (hfs.start p)) hk
      | @name n d s hw hs he =>
        have hmoves := moves_of_walks hw fun m hm => Path.moves_of_mem_route hm
        exact ⟨n, d, s, hw, ⟨hmoves s (by simp), hs⟩, rfl, he⟩

theorem keeps_put (hl : l ≠ []) (hfile : ∀ e, fs.entryAt l = some e → e.isFile = true) :
    fs.Keeps (fs.put l e) := by
  intro k f hf hnot
  rw [entryAt_put_cases hl]
  split_ifs with h
  · rw [hfile f (h ▸ hf)] at hnot
    cases hnot
  · exact hf

theorem write_eq_ok (hfs : fs.Sound) {contents : Bytes} (h : fs.write p contents = .ok fs') :
    ∃ l x, fs.resolve true p = .ok l ∧ p.endsInSlash = false ∧
      (∃ n d s, fs.Walks (fs.origin p p.route) ⟨n, d, [s]⟩ ∧ s.Proper ∧ l = d ++ [s]) ∧
      (∀ e, fs.entryAt l = some e → e.isFile = true) ∧ fs' = fs.put l (.file contents x) := by
  unfold write at h
  cases hw : fs.writable p with
  | error e =>
    rw [hw] at h
    cases h
  | ok l =>
    rw [hw] at h
    cases h
    obtain ⟨hr, hslash, n, d, s, hwalks, hs, hl, hfile⟩ := writable_eq_ok hfs hw
    exact ⟨l, _, hr, hslash, ⟨n, d, s, hwalks, hs, hl⟩, hfile, rfl⟩

theorem Sound.write (hfs : fs.Sound) {contents : Bytes} (h : fs.write p contents = .ok fs') :
    fs'.Sound := by
  obtain ⟨l, x, -, -, ⟨n, d, s, hw, hs, rfl⟩, hfile, rfl⟩ := write_eq_ok hfs h
  refine hfs.put (hfs.directory_of_walks hw (hfs.start p)) hs (.inl fun hdir => ?_)
  exact absurd (hfile _ hdir) (by simp [Entry.isFile])

theorem writable_of_find (hp : p.endsInSlash = false) (h : fs.find true p = .ok (l, e))
    (he : e.isFile = true) : fs.writable p = .ok l := by
  obtain ⟨hr, hentry⟩ := find_eq_ok.mp h
  unfold writable
  simp only [hp, if_neg Bool.false_ne_true, hr, hentry]
  cases e with
  | file => rfl
  | directory => cases he
  | link => cases he

theorem exists_write (h : fs.writable p = .ok l) (contents : Bytes) :
    ∃ fs', fs.write p contents = .ok fs' := by
  unfold write
  rw [h]
  exact ⟨_, rfl⟩

theorem read_eq_ok {contents : Bytes} :
    fs.read p = .ok contents ↔ ∃ l x, fs.find true p = .ok (l, .file contents x) := by
  unfold read entry
  cases fs.find true p with
  | error e => simp [Except.map]
  | ok found =>
    obtain ⟨l, e⟩ := found
    cases e <;> simp [Except.map]

theorem find_write (hfs : fs.Sound) {contents : Bytes} (h : fs.write p contents = .ok fs') :
    ∃ l x, fs.resolve true p = .ok l ∧ fs'.find true p = .ok (l, .file contents x) ∧
      ∀ q k e, fs.find true q = .ok (k, e) → e.isFile = true →
        fs'.find true q = .ok (k, if k = l then .file contents x else e) := by
  obtain ⟨l, x, hr, -, ⟨n, d, s, hw, hs, rfl⟩, hfile, rfl⟩ := write_eq_ok hfs h
  have hl : d ++ [s] ≠ [] := by simp
  have hkeeps : fs.Keeps (fs.put (d ++ [s]) (.file contents x)) := keeps_put hl hfile
  refine ⟨d ++ [s], x, hr, ?_, ?_⟩
  · rw [find_eq_ok]
    refine ⟨resolve_keeps hkeeps rfl hr fun e he => ?_, fs.entryAt_put hl _⟩
    rw [fs.entryAt_put hl] at he
    rw [← Option.some.inj he]
    exact .inl rfl
  · intro q k e hq he
    obtain ⟨hr', he'⟩ := find_eq_ok.mp hq
    have hentry : (fs.put (d ++ [s]) (.file contents x)).entryAt k =
        some (if k = d ++ [s] then .file contents x else e) := by
      rw [entryAt_put_cases hl]
      split_ifs
      · rfl
      · exact he'
    refine find_eq_ok.mpr ⟨resolve_keeps hkeeps rfl hr' fun f hf => .inl ?_, hentry⟩
    rw [hentry] at hf
    rw [← Option.some.inj hf]
    split_ifs
    · rfl
    · exact he

theorem exists_rewrite (hfs : fs.Sound) {contents : Bytes} (h : fs.write p contents = .ok fs')
    (again : Bytes) : ∃ fs'', fs'.write p again = .ok fs'' := by
  obtain ⟨-, -, -, hslash, -⟩ := write_eq_ok hfs h
  obtain ⟨l, x, -, hfind, -⟩ := find_write hfs h
  exact exists_write (writable_of_find hslash hfind rfl) again

end FunctionPairs.FileSystem
