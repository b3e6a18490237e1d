import FunctionPairs.Proofs.FileSystem.Creation

/-!
Where a path leaves what exists. Behind that point come only missing names, and what is made
there are the directories that they spell: the path then leads to the location that is had by
putting these names behind the directory where it left.
-/
namespace FunctionPairs.FileSystem

variable {fs fs' : FileSystem} {p q : Path} {d k l : Location} {e : Entry} {s : Name}
  {xs ys rest : List Name} {n n' : Nat}

theorem Walks.split (h : fs.Walks ⟨n, k, xs ++ ys⟩ ⟨n', l, []⟩) :
    ∃ m j, fs.Walks ⟨n, k, xs⟩ ⟨m, j, []⟩ ∧ fs.Walks ⟨m, j, ys⟩ ⟨n', l, []⟩ := by
  have hgen : ∀ a : Lookup, fs.Walks a ⟨n', l, []⟩ → ∀ xs, a.ahead = xs ++ ys →
      ∃ m j, fs.Walks ⟨a.links, a.place, xs⟩ ⟨m, j, []⟩ ∧ fs.Walks ⟨m, j, ys⟩ ⟨n', l, []⟩ := by
    intro a ha
    induction ha using Relation.ReflTransGen.head_induction_on with
    | refl =>
      intro xs hxs
      obtain ⟨rfl, rfl⟩ := List.append_eq_nil_iff.mp hxs.symm
      exact ⟨n', l, .refl, .refl⟩
    | @head a c hstep hrest ih =>
      intro xs hxs
      cases xs with
      | nil =>
        obtain ⟨m, j, ahead⟩ := a
        cases hxs
        exact ⟨m, j, .refl, .head hstep hrest⟩
      | cons x xs =>
        cases hstep with
        | up =>
          cases hxs
          obtain ⟨m, j, hw, hw'⟩ := ih xs rfl
          exact ⟨m, j, .head .up hw, hw'⟩
        | enter hs he =>
          cases hxs
          obtain ⟨m, j, hw, hw'⟩ := ih xs rfl
          exact ⟨m, j, .head (.enter hs he) hw, hw'⟩
        | @follow _ _ _ _ t hs he =>
          -- the names of the link come before what is left of the first part
          cases hxs
          obtain ⟨m, j, hw, hw'⟩ := ih (t.route ++ xs) (List.append_assoc ..).symm
          exact ⟨m, j, .head (.follow hs he) hw, hw'⟩
  exact hgen _ h xs rfl

theorem Walks.along (h : fs.Walks ⟨n, k, xs⟩ ⟨n', l, []⟩) (hup : Name.up ∉ xs)
    (hdirs : ∀ zs, zs ≠ [] → zs <+: xs → ∀ e, fs.entryAt (k ++ zs) = some e → e = .directory) :
    l = k ++ xs := by
  induction xs generalizing k n with
  | nil =>
    have heq := h.eq_of_stuck stuck_nil
    cases heq
    exact (List.append_nil _).symm
  | cons x xs ih =>
    rcases Relation.ReflTransGen.cases_head h with heq | ⟨b, hstep, hrest⟩
    · cases heq
    · cases hstep with
      | up => exact absurd (List.mem_cons_self ..) hup
      | enter hs he =>
        rw [List.append_cons]
        refine ih hrest (fun hx => hup (List.mem_cons_of_mem x hx)) fun zs hzs hsub e he => ?_
        rw [← List.append_cons] at he
        exact hdirs (x :: zs) (by simp) (List.cons_prefix_cons.mpr ⟨rfl, hsub⟩) e he
      | follow hs he =>
        have hdir := hdirs [x] (by simp) ⟨xs, rfl⟩ _ he
        cases hdir

theorem not_find_of_missing (h : fs.Walks (fs.origin p p.route) ⟨n, d, s :: rest⟩)
    (hs : s ≠ Name.up) (hmissing : fs.entryAt (d ++ [s]) = none) :
    fs.find true p ≠ .ok (l, e) := by
  intro hfind
  have hentry := (find_eq_ok.mp hfind).2
  have hstuck : fs.Stuck ⟨n, d, s :: rest⟩ := stuck_of_missing hs hmissing
  cases arrives_of_find hfind with
  | inside hw =>
    have heq := Walks.unique hw h stuck_nil hstuck
    cases heq
  | name hw ht he =>
    have heq := Walks.unique hw h (stuck_of_entryAt ht.2.1 he) hstuck
    cases heq
    rw [hmissing] at hentry
    cases hentry

/-- The path leads to a directory and from there on to a missing name, without going up again. -/
structure Frontier (fs : FileSystem) (p : Path) (ys : List Name) (d : Location) (s : Name)
    (rest : List Name) : Prop where
  route : p.route = ys ++ s :: rest
  way : ∃ n, fs.Walks (fs.origin p ys) ⟨n, d, []⟩
  missing : fs.entryAt (d ++ [s]) = none
  falls : Name.up ∉ s :: rest

namespace Frontier

variable (h : fs.Frontier p ys d s rest)

include h

theorem moves : ∀ m ∈ s :: rest, Name.Moves m := by
  intro m hm
  refine Path.moves_of_mem_route (p := p) ?_
  rw [h.route]
  exact List.mem_append_right ys hm

theorem ne_up : s ≠ Name.up := fun hs => h.falls (by simp [hs])

theorem walks : ∃ n, fs.Walks (fs.origin p p.route) ⟨n, d, s :: rest⟩ := by
  obtain ⟨n, hw⟩ := h.way
  rw [h.route]
  exact ⟨n, hw.append (s :: rest)⟩

theorem directory (hfs : fs.Sound) : fs.entryAt d = some .directory := by
  obtain ⟨n, hw⟩ := h.way
  exact hfs.directory_of_walks hw (hfs.start p)

theorem missing_below (hfs : fs.Sound) (hl : d ++ [s] <+: l) : fs.entryAt l = none :=
  hfs.missing_below h.missing hl

theorem leads_beyond (hfs : fs.Sound) {ps : List Path} (hbuilt : Built ps fs fs') {zs : List Name}
    (hroute : q.route = ys ++ s :: zs) (hzs : zs <+: rest) (habs : q.isAbsolute = p.isAbsolute)
    (hleads : fs'.Leads q l) : l = d ++ s :: zs := by
  obtain ⟨m, hl⟩ := hleads
  obtain ⟨n, hw⟩ := h.way
  have horigin : fs'.origin q q.route = fs.origin p (ys ++ s :: zs) := by
    simp [origin, start, hroute, habs, hbuilt.working]
  have hd := (hw.append (s :: zs)).keeps hbuilt.toGrows.keeps
  rw [horigin] at hl
  have hfrom : fs'.Walks ⟨n, d, s :: zs⟩ ⟨m, l, []⟩ := by
    rcases Walks.comparable hd hl with hdl | hld
    · exact hdl
    · have heq := hld.eq_of_stuck stuck_nil
      cases heq
  have hsub : s :: zs <+: s :: rest := List.cons_prefix_cons.mpr ⟨rfl, hzs⟩
  refine hfrom.along (fun hup => h.falls (hsub.subset hup)) fun ws hws hsubs f hf => ?_
  -- nothing was there, so what is there now has been made
  obtain ⟨w, ws, rfl⟩ := List.exists_cons_of_ne_nil hws
  rw [List.cons_prefix_cons] at hsubs
  obtain ⟨rfl, -⟩ := hsubs
  have hnone : fs.entryAt (d ++ w :: ws) = none := h.missing_below hfs ⟨ws, by simp⟩
  rcases hbuilt.new _ _ hf with hold | ⟨-, hdir, -⟩
  · rw [hnone] at hold
    cases hold
  · exact hdir

theorem leads_before (hfs : fs.Sound) {ps : List Path} (hbuilt : Built ps fs fs')
    (hroute : q.route <+: ys) (habs : q.isAbsolute = p.isAbsolute) (hleads : fs'.Leads q l) :
    fs.entryAt l = some .directory := by
  obtain ⟨zs, hzs⟩ := hroute
  obtain ⟨n, hw⟩ := h.way
  rw [← hzs] at hw
  obtain ⟨m, j, hj, -⟩ := Walks.split hw
  have horigin : fs.origin p q.route = fs.origin q q.route := by simp [origin, start, habs]
  have hq : fs.Leads q j := ⟨m, by rw [← horigin]; exact hj⟩
  rw [← (hbuilt.toGrows.leads hq).unique hleads]
  exact hfs.directory_of_walks hj (hfs.start p)

theorem built (hfs : fs.Sound) {fuel : Nat} (hbuilt : Built (p :: p.ancestorsFrom fuel) fs fs')
    (hl : fs'.entryAt l = some e) :
    fs.entryAt l = some e ∨ e = .directory ∧ d ++ [s] <+: l ∧ l <+: d ++ s :: rest := by
  rcases hbuilt.new l e hl with hold | ⟨hnone, hdir, q, hq, hleads⟩
  · exact .inl hold
  · have hkeeps : q.route <+: p.route ∧ q.isAbsolute = p.isAbsolute := by
      rcases List.mem_cons.mp hq with rfl | hq
      · exact ⟨List.prefix_rfl, rfl⟩
      · obtain ⟨hroute, habs, -⟩ := Path.ancestor_keeps hq
        exact ⟨hroute, habs⟩
    obtain ⟨hroute, habs⟩ := hkeeps
    rw [h.route] at hroute
    have hbefore : q.route <+: ys → False := by
      intro hroute
      rw [h.leads_before hfs hbuilt hroute habs hleads] at hnone
      cases hnone
    rcases List.prefix_or_prefix_of_prefix hroute (List.prefix_append ys _) with hys | ⟨ws, hws⟩
    · exact (hbefore hys).elim
    · cases ws with
      | nil => exact (hbefore ⟨[], by simpa using hws.symm⟩).elim
      | cons w zs =>
        rw [← hws, List.prefix_append_right_inj, List.cons_prefix_cons] at hroute
        obtain ⟨rfl, hzs⟩ := hroute
        have hplace := h.leads_beyond hfs hbuilt hws.symm hzs habs hleads
        refine .inr ⟨hdir, ?_, ?_⟩
        · rw [hplace]
          exact ⟨zs, by simp⟩
        · rw [hplace, List.prefix_append_right_inj]
          exact List.cons_prefix_cons.mpr ⟨rfl, hzs⟩

theorem leads (hfs : fs.Sound) {ps : List Path} (hbuilt : Built ps fs fs')
    (hleads : fs'.Leads p l) : l = d ++ s :: rest :=
  h.leads_beyond hfs hbuilt h.route List.prefix_rfl rfl hleads

end Frontier

/-- Where the path goes up, it goes up from what exists. -/
def RisesInside (fs : FileSystem) (p : Path) : Prop :=
  ∀ q ∈ p :: p.ancestors, q.route.getLast? = some Name.up → fs.contains q = true

theorem length_route_le (p : Path) : p.route.length ≤ p.components.length := by
  cases hp : p.isAbsolute with
  | true => simp [Path.components_of_isAbsolute hp]
  | false => simp [Path.components_of_not_isAbsolute hp]

theorem exists_beginning {zs : List Name} (h : p.route = xs ++ zs) :
    ∃ q ∈ p :: p.ancestors, q.route = xs := by
  by_cases hzs : zs = []
  · exact ⟨p, by simp, by simp [h, hzs]⟩
  · have hfuel : zs.length ≤ p.components.length + 1 := by
      have hlength := congrArg List.length h
      have hle := length_route_le p
      rw [List.length_append] at hlength
      omega
    obtain ⟨q, hq, hroute⟩ := Path.exists_ancestor h hzs hfuel
    exact ⟨q, List.mem_cons_of_mem p hq, hroute⟩

theorem origin_of_mem (hq : q ∈ p :: p.ancestors) : fs.origin q xs = fs.origin p xs := by
  rcases List.mem_cons.mp hq with rfl | hq
  · rfl
  · simp [origin, start, (Path.ancestor_keeps hq).2.1]

theorem exists_frontier (hfs : fs.Sound) (hrises : fs.RisesInside p)
    (hq : q ∈ p :: p.ancestors) (h : fs.createDirectory q = .ok fs') :
    ∃ ys d s rest, fs.Frontier p ys d s rest := by
  obtain ⟨ys, s, n, d, hroute, hw, hs, hnone, -⟩ := createDirectory_eq_ok hfs h
  rw [origin_of_mem hq] at hw
  have hsub : q.route <+: p.route := by
    rcases List.mem_cons.mp hq with rfl | hq
    · exact List.prefix_rfl
    · exact (Path.ancestor_keeps hq).1
  obtain ⟨rest, hrest⟩ := hsub
  rw [hroute, List.append_assoc, List.singleton_append] at hrest
  refine ⟨ys, d, s, rest, hrest.symm, ⟨n, hw⟩, hnone, fun hup => ?_⟩
  rcases List.mem_cons.mp hup with hup | hup
  · exact hs.2.2.1 hup.symm
  · -- a path that ends with the upward step exists, but it would go through the missing name
    obtain ⟨zs, ws, rfl⟩ := List.append_of_mem hup
    have hsplit : p.route = (ys ++ s :: (zs ++ [Name.up])) ++ ws := by simp [← hrest]
    obtain ⟨r, hr, hrroute⟩ := exists_beginning hsplit
    have hlast : r.route.getLast? = some Name.up := by
      rw [hrroute, ← List.cons_append, ← List.append_assoc, List.getLast?_concat]
    obtain ⟨l, e, hfind⟩ := contains_iff.mp (hrises r hr hlast)
    have hway : fs.Walks (fs.origin r r.route) ⟨n, d, s :: (zs ++ [Name.up])⟩ := by
      rw [hrroute, origin_of_mem hr]
      exact hw.append (s :: (zs ++ [Name.up]))
    exact not_find_of_missing hway hs.2.2.1 hnone hfind

end FunctionPairs.FileSystem
