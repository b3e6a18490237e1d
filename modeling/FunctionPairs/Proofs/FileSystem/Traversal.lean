import FunctionPairs.FileSystem.Walk
import FunctionPairs.Proofs.FileSystem.Listing

/-!
The order in which a tree is gone through: the entries of a directory by their names, then the
directories among them, each to its end before the next. Every entry of the tree has one place in
that order, and the entries of one directory stand in ascending order of their names.
-/
namespace FunctionPairs

/-- An entry of a tree: the names from the top down to the directory it is in, and its own. -/
structure Spot where
  above : List Name
  name : Name
deriving DecidableEq

def Spot.names (p : Spot) : List Name := p.above ++ [p.name]

theorem Spot.names_injective : Function.Injective Spot.names := by
  rintro ⟨r, n⟩ ⟨r', n'⟩ h
  obtain ⟨rfl, hn⟩ := List.append_inj' h rfl
  cases hn
  rfl

@[simp] theorem Spot.names_ne_nil (p : Spot) : p.names ≠ [] := by simp [Spot.names]

namespace FileSystem

variable (fs : FileSystem) (top : Location)

def isDirectoryAt (l : Location) : Bool := fs.entryAt l == some .directory

def holds (p : Spot) : Bool := (fs.entryAt (top ++ p.names)).isSome

def spotsIn (r : List Name) : List Spot := (fs.namesIn (top ++ r)).map (Spot.mk r)

def directoriesIn (r : List Name) : List (List Name) :=
  ((fs.spotsIn top r).filter fun p => fs.isDirectoryAt (top ++ p.names)).map Spot.names

def descent (shown : List Name → List Spot) : Nat → List Name → List Spot
  | 0, _ => []
  | depth + 1, r => shown r ++ (fs.directoriesIn top r).flatMap (descent shown depth)

def tour (r : List Name) : List Spot := fs.descent top (fs.spotsIn top) fs.depth r

variable {fs top} {shown : List Name → List Spot} {r q : List Name} {p : Spot} {depth : Nat}

@[simp] theorem isDirectoryAt_iff {l : Location} :
    fs.isDirectoryAt l = true ↔ fs.entryAt l = some .directory := beq_iff_eq

@[simp] theorem holds_iff : fs.holds top p = true ↔ fs.entryAt (top ++ p.names) ≠ none :=
  Option.isSome_iff_ne_none

theorem holds_of_isDirectoryAt (h : fs.isDirectoryAt (top ++ p.names) = true) :
    fs.holds top p = true := by
  rw [holds_iff, isDirectoryAt_iff.mp h]
  exact Option.some_ne_none _

theorem mem_spotsIn : p ∈ fs.spotsIn top r ↔ p.above = r ∧ fs.entryAt (top ++ p.names) ≠ none := by
  unfold spotsIn
  rw [List.mem_map]
  constructor
  · rintro ⟨n, hn, rfl⟩
    rw [mem_namesIn, List.append_assoc] at hn
    exact ⟨rfl, hn⟩
  · rintro ⟨rfl, h⟩
    refine ⟨p.name, ?_, rfl⟩
    rwa [mem_namesIn, List.append_assoc]

theorem mem_directoriesIn :
    q ∈ fs.directoriesIn top r ↔ ∃ n, q = r ++ [n] ∧ fs.entryAt (top ++ q) = some .directory := by
  simp only [directoriesIn, List.mem_map, List.mem_filter, mem_spotsIn, isDirectoryAt_iff]
  constructor
  · rintro ⟨p, ⟨⟨rfl, -⟩, hdir⟩, rfl⟩
    exact ⟨p.name, rfl, hdir⟩
  · rintro ⟨n, rfl, hdir⟩
    exact ⟨⟨r, n⟩, ⟨⟨rfl, by simp [Spot.names, hdir]⟩, hdir⟩, rfl⟩

theorem filter_spots {fs' : FileSystem} (h : fs.Distinct) (h' : fs'.Distinct)
    (hsub : ∀ k, fs.entryAt k ≠ none → fs'.entryAt k ≠ none) (r : List Name) :
    ((fs'.namesIn (top ++ r)).map (Spot.mk r)).filter (fs.holds top) = fs.spotsIn top r := by
  rw [List.filter_map, spotsIn, ← filter_namesIn h h' fun n => hsub _]
  congr 1
  refine List.filter_congr fun n _ => ?_
  rw [List.append_assoc]
  rfl

theorem directoriesIn_eq {ns : List Name}
    (h : (ns.map (Spot.mk r)).filter (fs.holds top) = fs.spotsIn top r) :
    ((ns.map (Spot.mk r)).filter fun p => fs.isDirectoryAt (top ++ p.names)).map Spot.names =
      fs.directoriesIn top r := by
  rw [directoriesIn, ← h, List.filter_filter]
  congr 1
  refine List.filter_congr fun p _ => ?_
  rw [eq_comm, Bool.and_eq_left_iff_imp]
  exact holds_of_isDirectoryAt

theorem spotsIn_of_deep (hfs : fs.Sound) (h : fs.entries.length ≤ (top ++ r).length) :
    fs.spotsIn top r = [] := by
  refine List.eq_nil_iff_forall_not_mem.mpr fun p hp => ?_
  obtain ⟨rfl, hthere⟩ := mem_spotsIn.mp hp
  obtain ⟨e, he⟩ := Option.ne_none_iff_exists'.mp hthere
  have hlength := hfs.length_le_entries he
  simp only [Spot.names, List.length_append, List.length_singleton] at h hlength
  omega

theorem descent_succ (hfs : fs.Sound) (hshown : ∀ q, shown q ⊆ fs.spotsIn top q)
    (h : fs.entries.length ≤ depth + (top ++ r).length) :
    fs.descent top shown (depth + 1) r = fs.descent top shown depth r := by
  -- a directory as deep as there are entries holds none
  induction depth generalizing r with
  | zero =>
    have hnone := spotsIn_of_deep hfs (by omega : fs.entries.length ≤ (top ++ r).length)
    have hsub := hshown r
    rw [hnone, List.subset_nil] at hsub
    simp [descent, directoriesIn, hnone, hsub]
  | succ depth ih =>
    rw [descent, descent]
    congr 1
    refine List.flatMap_congr fun q hq => ih ?_
    obtain ⟨n, rfl, -⟩ := mem_directoriesIn.mp hq
    simp only [List.length_append, List.length_singleton] at h ⊢
    omega

theorem tour_eq (hfs : fs.Sound) (r : List Name) :
    fs.tour top r = fs.spotsIn top r ++ (fs.directoriesIn top r).flatMap (fs.tour top) :=
  (descent_succ hfs (fun _ => List.Subset.refl _) (Nat.le_add_right _ _)).symm

theorem descent_eq_tour (hfs : fs.Sound) (h : fs.entries.length ≤ depth) (r : List Name) :
    fs.descent top (fs.spotsIn top) depth r = fs.tour top r := by
  induction depth, h using Nat.le_induction with
  | base => rfl
  | succ depth hdepth ih =>
    rw [descent_succ hfs (fun _ => List.Subset.refl _) (by omega), ih]

theorem tour_congr {fs' : FileSystem} (hfs : fs.Sound) (hfs' : fs'.Sound) (h : fs.Distinct)
    (h' : fs'.Distinct) (hsame : ∀ q, fs'.entryAt (top ++ q) = fs.entryAt (top ++ q))
    (r : List Name) : fs'.tour top r = fs.tour top r := by
  have hspots : ∀ q, fs'.spotsIn top q = fs.spotsIn top q := by
    intro q
    have hentry : ∀ n, fs'.entryAt (top ++ q ++ [n]) = fs.entryAt (top ++ q ++ [n]) := by
      intro n
      rw [List.append_assoc, hsame]
    unfold spotsIn
    rw [← filter_namesIn h h' fun n hn => hentry n ▸ hn, List.filter_eq_self.mpr]
    intro n hn
    rw [← hentry, Option.isSome_iff_ne_none]
    exact mem_namesIn.mp hn
  have hdirectories : ∀ q, fs'.directoriesIn top q = fs.directoriesIn top q := by
    intro q
    simp only [directoriesIn, isDirectoryAt, hspots, hsame]
  have hdescent : ∀ depth q, fs'.descent top (fs'.spotsIn top) depth q =
      fs.descent top (fs.spotsIn top) depth q := by
    intro depth
    induction depth with
    | zero => exact fun _ => rfl
    | succ depth ih =>
      intro q
      rw [descent, descent, hspots, hdirectories]
      exact congrArg _ (List.flatMap_congr fun q _ => ih q)
  rw [← descent_eq_tour hfs (Nat.le_max_left _ fs'.entries.length),
    ← descent_eq_tour hfs' (Nat.le_max_right fs.entries.length _), hdescent]

theorem mem_descent (hfs : fs.Sound) :
    p ∈ fs.descent top (fs.spotsIn top) depth r ↔
      r <+: p.above ∧ fs.entryAt (top ++ p.names) ≠ none ∧ p.above.length < r.length + depth := by
  induction depth generalizing r with
  | zero =>
    refine iff_of_false List.not_mem_nil fun ⟨hr, _, hlength⟩ => ?_
    exact absurd hr.length_le (by omega)
  | succ depth ih =>
    rw [descent, List.mem_append, List.mem_flatMap, mem_spotsIn]
    constructor
    · rintro (⟨rfl, hthere⟩ | ⟨q, hq, hp⟩)
      · exact ⟨List.prefix_rfl, hthere, by omega⟩
      · obtain ⟨n, rfl, -⟩ := mem_directoriesIn.mp hq
        obtain ⟨hbelow, hthere, hlength⟩ := ih.mp hp
        rw [List.length_append, List.length_singleton] at hlength
        exact ⟨(List.prefix_append r [n]).trans hbelow, hthere, by omega⟩
    · rintro ⟨⟨t, ht⟩, hthere, hlength⟩
      cases t with
      | nil => exact .inl ⟨by simpa using ht.symm, hthere⟩
      | cons n t =>
        have hbelow : r ++ [n] <+: p.above := ⟨t, by simp [← ht]⟩
        have hinside : top ++ (r ++ [n]) <+: top ++ p.names :=
          (List.prefix_append_right_inj top).mpr (hbelow.trans (List.prefix_append _ _))
        -- what is on the way to an entry is a directory
        have hdir : fs.entryAt (top ++ (r ++ [n])) = some .directory := by
          obtain ⟨e, he⟩ := Option.ne_none_iff_exists'.mp hthere
          refine hfs.directory_of_below he hinside fun hsame => ?_
          have hlengths := congrArg List.length hsame
          have hle := hbelow.length_le
          simp only [Spot.names, List.length_append, List.length_singleton] at hlengths hle
          omega
        refine .inr ⟨r ++ [n], mem_directoriesIn.mpr ⟨n, rfl, hdir⟩, ih.mpr ⟨hbelow, hthere, ?_⟩⟩
        rw [List.length_append, List.length_singleton]
        omega

theorem mem_tour (hfs : fs.Sound) :
    p ∈ fs.tour top r ↔ r <+: p.above ∧ fs.entryAt (top ++ p.names) ≠ none := by
  rw [tour, mem_descent hfs]
  refine and_congr_right fun _ => ⟨fun h => h.1, fun hthere => ⟨hthere, ?_⟩⟩
  obtain ⟨e, he⟩ := Option.ne_none_iff_exists'.mp hthere
  have hlength := hfs.length_le_entries he
  simp only [Spot.names, List.length_append, List.length_singleton] at hlength
  unfold depth
  omega

theorem directoriesIn_nodup (h : fs.Distinct) (r : List Name) : (fs.directoriesIn top r).Nodup := by
  refine List.Nodup.map Spot.names_injective (List.Nodup.filter _ ?_)
  exact (h.nodup_namesIn (top ++ r)).map fun _ _ hn => (Spot.mk.inj hn).2

/-- What holds between the entries of one directory in the order of their names, between them and
those further below, and between those below different directories in it, holds over a tour. -/
theorem tour_pairwise (hfs : fs.Sound) (h : fs.Distinct) {order : Spot → Spot → Prop}
    (hbeside : ∀ p p', p.above = p'.above → p.name < p'.name → order p p')
    (hbelow : ∀ p p', p.above.length < p'.above.length → order p p')
    (hapart : ∀ q q' p p', q.length = q'.length → q ≠ q' → q <+: p.above → q' <+: p'.above →
      order p p') (r : List Name) : (fs.tour top r).Pairwise order := by
  have hgen : ∀ depth r, (fs.descent top (fs.spotsIn top) depth r).Pairwise order := by
    intro depth
    induction depth with
    | zero => exact fun _ => .nil
    | succ depth ih =>
      intro r
      rw [descent, List.pairwise_append, List.pairwise_flatMap]
      refine ⟨?_, ⟨fun q _ => ih q, ?_⟩, ?_⟩
      · rw [spotsIn, List.pairwise_map]
        exact (h.namesIn_strict (top ++ r)).imp fun {n n'} hlt => hbeside ⟨r, n⟩ ⟨r, n'⟩ rfl hlt
      · refine (List.nodup_iff_pairwise_ne.mp (directoriesIn_nodup h r)).imp_of_mem ?_
        intro q q' hq hq' hne p hp p' hp'
        obtain ⟨n, rfl, -⟩ := mem_directoriesIn.mp hq
        obtain ⟨n', rfl, -⟩ := mem_directoriesIn.mp hq'
        exact hapart _ _ p p' (by simp) hne ((mem_descent hfs).mp hp).1 ((mem_descent hfs).mp hp').1
      · intro p hp p' hp'
        obtain ⟨q, hq, hp'⟩ := List.mem_flatMap.mp hp'
        obtain ⟨n, rfl, -⟩ := mem_directoriesIn.mp hq
        have hlength := ((mem_descent hfs).mp hp').1.length_le
        rw [List.length_append, List.length_singleton] at hlength
        exact hbelow p p' (by rw [(mem_spotsIn.mp hp).1]; omega)
  exact hgen fs.depth r

theorem tour_ascending (hfs : fs.Sound) (h : fs.Distinct) (r : List Name) :
    (fs.tour top r).Pairwise fun p p' => p.above = p'.above → p.name < p'.name := by
  refine tour_pairwise hfs h ?_ ?_ ?_ r
  · exact fun p p' _ hlt _ => hlt
  · intro p p' hlt habove
    exact absurd (congrArg List.length habove) (Nat.ne_of_lt hlt)
  · intro q q' p p' hlength hne hq hq' habove
    rw [habove] at hq
    exact absurd ((List.prefix_of_prefix_length_le hq hq' hlength.le).eq_of_length hlength) hne

theorem tour_descending (hfs : fs.Sound) (h : fs.Distinct) (r : List Name) :
    (fs.tour top r).Pairwise fun p p' => ¬ p'.names <+: p.above := by
  have hlength : ∀ p p' : Spot, p.above.length ≤ p'.above.length → ¬ p'.names <+: p.above := by
    intro p p' hle hsub
    have hnames := hsub.length_le
    rw [Spot.names, List.length_append, List.length_singleton] at hnames
    omega
  refine tour_pairwise hfs h (fun p p' habove _ => hlength p p' (by rw [habove]))
    (fun p p' hlt => hlength p p' hlt.le) (fun q q' p p' hsame hne hq hq' hsub => hne ?_) r
  have hq'' : q' <+: p.above := (hq'.trans (List.prefix_append _ _)).trans hsub
  exact (List.prefix_of_prefix_length_le hq hq'' hsame.le).eq_of_length hsame

theorem tour_nodup (hfs : fs.Sound) (h : fs.Distinct) (r : List Name) : (fs.tour top r).Nodup := by
  refine (tour_ascending hfs h r).imp fun hlt heq => ?_
  subst heq
  exact List.lt_irrefl _ (hlt rfl)

theorem length_tour_le (hfs : fs.Sound) (h : fs.Distinct) (r : List Name) :
    (fs.tour top r).length ≤ fs.entries.length := by
  have hnodup : ((fs.tour top r).map fun p => top ++ p.names).Nodup :=
    (tour_nodup hfs h r).map fun _ _ hp => Spot.names_injective (List.append_cancel_left hp)
  rw [← List.length_map (f := fun p : Spot => top ++ p.names)]
  refine length_le_of_nodup hnodup fun l hl => ?_
  obtain ⟨p, hp, rfl⟩ := List.mem_map.mp hl
  exact ⟨by simp, ((mem_tour hfs).mp hp).2⟩

variable (fs top) in
def entered (rs : List (List Name)) : Nat :=
  rs.length + (rs.flatMap (fs.tour top)).countP fun p => fs.isDirectoryAt (top ++ p.names)

theorem entered_cons (hfs : fs.Sound) (r : List Name) (rs : List (List Name)) :
    fs.entered top (r :: rs) = fs.entered top (fs.directoriesIn top r ++ rs) + 1 := by
  have hhere : (fs.spotsIn top r).countP (fun p => fs.isDirectoryAt (top ++ p.names)) =
      (fs.directoriesIn top r).length := by
    rw [List.countP_eq_length_filter, directoriesIn, List.length_map]
  rw [entered, entered, List.flatMap_cons, tour_eq hfs, List.flatMap_append, List.countP_append,
    List.countP_append, List.countP_append, hhere, List.length_cons, List.length_append]
  omega

end FileSystem
end FunctionPairs
