import FunctionPairs.FileSystem.Operations
import Mathlib.Data.List.Basic
import Mathlib.Data.List.Infix
import Mathlib.Data.List.TakeWhile
import Mathlib.Tactic.SplitIfs

/-!
What a path says apart from its spelling: whether it starts at the root, and its route, the
names and upward steps it goes through. The parent of a path has the route without its last
part, a child has one name more, and the spelling of a location has this location as its route.
-/
namespace FunctionPairs

def Name.Moves (n : Name) : Prop := n ≠ [] ∧ Path.slash ∉ n ∧ n ≠ Name.here

namespace Path

theorem pieces_cons_ne {b : UInt8} (hb : b ≠ slash) (bs : Bytes) :
    ∃ p ps, pieces bs = p :: ps ∧ pieces (b :: bs) = (b :: p) :: ps := by
  have hne : pieces bs ≠ [] := by
    cases bs with
    | nil => simp [pieces]
    | cons c cs =>
      simp only [pieces]
      split_ifs
      · simp
      · split <;> simp
  obtain ⟨p, ps, hp⟩ := List.exists_cons_of_ne_nil hne
  exact ⟨p, ps, hp, by simp [pieces, hb, hp]⟩

theorem pieces_slash (bs : Bytes) : pieces (slash :: bs) = [] :: pieces bs := by simp [pieces]

theorem slash_notMem_pieces {bs : Bytes} {x : Name} (hx : x ∈ pieces bs) : slash ∉ x := by
  induction bs generalizing x with
  | nil =>
    simp only [pieces, List.mem_singleton] at hx
    simp [hx]
  | cons b bs ih =>
    by_cases hb : b = slash
    · rw [hb, pieces_slash, List.mem_cons] at hx
      rcases hx with rfl | hx
      · simp
      · exact ih hx
    · obtain ⟨p, ps, hp, hcons⟩ := pieces_cons_ne hb bs
      rw [hcons, List.mem_cons] at hx
      rcases hx with rfl | hx
      · have hslash := ih (x := p) (by simp [hp])
        simp [Ne.symm hb, hslash]
      · exact ih (by simp [hp, hx])

theorem pieces_append_slash (xs ys : Bytes) :
    pieces (xs ++ slash :: ys) = pieces xs ++ pieces ys := by
  induction xs with
  | nil => simp [pieces]
  | cons b xs ih =>
    by_cases hb : b = slash
    · rw [hb, List.cons_append, pieces_slash, pieces_slash, ih, List.cons_append]
    · obtain ⟨p, ps, hp, hcons⟩ := pieces_cons_ne hb xs
      obtain ⟨q, qs, hq, hcons'⟩ := pieces_cons_ne hb (xs ++ slash :: ys)
      rw [hp, hq, List.cons_append, List.cons.injEq] at ih
      rw [List.cons_append, hcons', hcons, ih.1, ih.2, List.cons_append]

theorem pieces_of_notMem {n : Name} (hn : slash ∉ n) : pieces n = [n] := by
  induction n with
  | nil => simp [pieces]
  | cons b n ih =>
    rw [List.mem_cons, not_or] at hn
    simp [pieces, Ne.symm hn.1, ih hn.2]

def names (p : Path) : List Name := (pieces p.bytes).filter (!·.isEmpty)

def moving (steps : List Name) : List Name := steps.filter (· ≠ Name.here)

def route (p : Path) : List Name := moving p.names

@[simp] theorem moving_nil : moving [] = [] := rfl

@[simp] theorem moving_append (xs ys : List Name) : moving (xs ++ ys) = moving xs ++ moving ys :=
  List.filter_append ..

@[simp] theorem moving_here (xs : List Name) : moving (Name.here :: xs) = moving xs := by
  simp [moving]

theorem moving_cons {n : Name} (hn : n ≠ Name.here) (xs : List Name) :
    moving (n :: xs) = n :: moving xs := by simp [moving, hn]

theorem steps_eq (p : Path) :
    p.steps = if p.endsInSlash && !p.names.isEmpty then p.names ++ [Name.here] else p.names := rfl

theorem getLast?_steps {p : Path} (h : p.endsInSlash = true) :
    p.steps = [] ∨ p.steps.getLast? = some Name.here := by
  rw [steps_eq, h]
  cases hnames : p.names with
  | nil => exact .inl rfl
  | cons n ns => exact .inr List.getLast?_concat

theorem components_of_isAbsolute {p : Path} (h : p.isAbsolute = true) :
    p.components = .root :: p.route.map component := by
  unfold components
  rw [h]
  rfl

theorem components_of_not_isAbsolute {p : Path} (h : p.isAbsolute = false) :
    p.components = (if p.names.head? = some Name.here then [.here] else []) ++
      p.route.map component := by
  unfold components
  rw [h]
  show (if p.names.head? = some Name.here then .here :: p.route.map component else _) = _
  split_ifs <;> rfl

theorem moving_steps (p : Path) : moving p.steps = p.route := by
  rw [steps_eq]
  split_ifs
  · simp [route]
  · rfl

theorem moves_of_mem_route {p : Path} {n : Name} (h : n ∈ p.route) : n.Moves := by
  simp only [route, moving, names, List.mem_filter, decide_eq_true_eq, Bool.not_eq_true',
    List.isEmpty_eq_false_iff] at h
  exact ⟨h.1.2, slash_notMem_pieces h.1.1, h.2⟩

theorem component_injective : Function.Injective component := by
  intro a b h
  unfold component at h
  split_ifs at h with ha hb hb
  · exact ha.trans hb.symm
  · exact Component.name.inj h

theorem names_mk_append_slash (xs ys : Bytes) :
    names ⟨xs ++ slash :: ys⟩ = names ⟨xs⟩ ++ names ⟨ys⟩ := by
  simp [names, pieces_append_slash]

theorem names_nil : names ⟨[]⟩ = [] := rfl

theorem names_of_moves {n : Name} (hn : n.Moves) : names ⟨n⟩ = [n] := by
  simp [names, pieces_of_notMem hn.2.1, hn.1]

theorem isEmpty_of_isAbsolute {p : Path} (h : p.isAbsolute = true) : p.isEmpty = false := by
  obtain ⟨bs⟩ := p
  cases bs with
  | nil => cases h
  | cons b bs => rfl

/-! Joins. -/

theorem join_eq {q : Path} (hq : q.isAbsolute = false) (p : Path) :
    p.join q =
      if p.isEmpty || p.endsInSlash then ⟨p.bytes ++ q.bytes⟩
      else ⟨p.bytes ++ slash :: q.bytes⟩ := by
  unfold join
  rw [hq]
  rfl

theorem endsInSlash_eq_true {p : Path} (h : p.endsInSlash = true) :
    ∃ bs, p.bytes = bs ++ [slash] := by
  simp only [endsInSlash, beq_iff_eq] at h
  exact List.getLast?_eq_some_iff.mp h

theorem names_join {q : Path} (hq : q.isAbsolute = false) (p : Path) :
    (p.join q).names = p.names ++ q.names := by
  rw [join_eq hq]
  split_ifs with h
  · rw [Bool.or_eq_true] at h
    rcases h with h | h
    · have hp : p = ⟨[]⟩ := by
        cases p
        simpa [isEmpty] using h
      rw [hp]
      rfl
    · obtain ⟨bs, hbs⟩ := endsInSlash_eq_true h
      have hp : p.names = names ⟨bs⟩ := by
        show names ⟨p.bytes⟩ = _
        rw [hbs, names_mk_append_slash, names_nil, List.append_nil]
      rw [hbs, hp, List.append_assoc, List.singleton_append, names_mk_append_slash]
  · rw [names_mk_append_slash]

theorem isAbsolute_append {p : Path} (h : p.isEmpty = false) (bs : Bytes) :
    isAbsolute ⟨p.bytes ++ bs⟩ = p.isAbsolute := by
  have hne : p.bytes ≠ [] := by simpa [isEmpty] using h
  simp [isAbsolute, List.head?_append_of_ne_nil _ hne]

theorem isAbsolute_join {p q : Path} (hq : q.isAbsolute = false) (h : p.isEmpty = false) :
    (p.join q).isAbsolute = p.isAbsolute := by
  rw [join_eq hq]
  split_ifs <;> exact isAbsolute_append h _

theorem endsInSlash_join {q : Path} (hq : q.isAbsolute = false) (h : q.isEmpty = false)
    (p : Path) : (p.join q).endsInSlash = q.endsInSlash := by
  have hne : q.bytes ≠ [] := by simpa [isEmpty] using h
  have hcons : (slash :: q.bytes).getLast? = q.bytes.getLast? := by
    obtain ⟨b, bs, hbs⟩ := List.exists_cons_of_ne_nil hne
    rw [hbs, List.getLast?_cons_cons]
  rw [join_eq hq]
  split_ifs
  · simp [endsInSlash, List.getLast?_append_of_ne_nil _ hne]
  · simp only [endsInSlash, List.getLast?_append_of_ne_nil _ (List.cons_ne_nil slash q.bytes), hcons]

theorem names_ne_nil {p : Path} (hp : p.isAbsolute = false) (h : p.isEmpty = false) :
    p.names ≠ [] := by
  obtain ⟨bytes⟩ := p
  have hne : bytes ≠ [] := by simpa [isEmpty] using h
  obtain ⟨b, bs, rfl⟩ := List.exists_cons_of_ne_nil hne
  have hb : b ≠ slash := by simpa [isAbsolute] using hp
  obtain ⟨piece, rest, -, hcons⟩ := pieces_cons_ne hb bs
  simp [names, hcons]

theorem steps_join {q : Path} (hq : q.isAbsolute = false) (h : q.isEmpty = false) (p : Path) :
    (p.join q).steps = p.names ++ q.steps := by
  have hlast : q.names.isEmpty = false := List.isEmpty_eq_false_iff.mpr (names_ne_nil hq h)
  have hall : (p.names ++ q.names).isEmpty = false := by simp [names_ne_nil hq h]
  rw [steps_eq, steps_eq, endsInSlash_join hq h, names_join hq, hlast, hall]
  split_ifs <;> simp

/-! Children. -/

theorem isAbsolute_of_moves {n : Name} (hn : n.Moves) : isAbsolute ⟨n⟩ = false := by
  obtain ⟨hne, hslash, -⟩ := hn
  obtain ⟨b, bs, rfl⟩ := List.exists_cons_of_ne_nil hne
  rw [List.mem_cons, not_or] at hslash
  simp [isAbsolute, Ne.symm hslash.1]

theorem endsInSlash_append {xs n : Bytes} (hne : n ≠ []) (hslash : slash ∉ n) :
    endsInSlash ⟨xs ++ n⟩ = false := by
  have hlast : n.getLast hne ≠ slash := fun h => hslash (h ▸ List.getLast_mem hne)
  simp [endsInSlash, List.getLast?_append, List.getLast?_eq_some_getLast hne, hlast]

theorem endsInSlash_of_moves {n : Name} (hn : n.Moves) : endsInSlash ⟨n⟩ = false :=
  @endsInSlash_append [] n hn.1 hn.2.1

theorem child_eq {n : Name} (hn : n.Moves) (p : Path) :
    p.child n =
      if p.isEmpty || p.endsInSlash then ⟨p.bytes ++ n⟩ else ⟨p.bytes ++ slash :: n⟩ :=
  join_eq (isAbsolute_of_moves hn) p

theorem names_child {n : Name} (hn : n.Moves) (p : Path) : (p.child n).names = p.names ++ [n] := by
  rw [child, names_join (isAbsolute_of_moves hn), names_of_moves hn]

theorem route_child {n : Name} (hn : n.Moves) (p : Path) : (p.child n).route = p.route ++ [n] := by
  simp [route, names_child hn, moving_cons hn.2.2]

theorem isAbsolute_child {n : Name} (hn : n.Moves) {p : Path} (h : p.isEmpty = false) :
    (p.child n).isAbsolute = p.isAbsolute := isAbsolute_join (isAbsolute_of_moves hn) h

theorem isEmpty_child {n : Name} (hn : n.Moves) (p : Path) : (p.child n).isEmpty = false := by
  rw [child_eq hn]
  split_ifs <;> simp [isEmpty, hn.1]

theorem endsInSlash_child {n : Name} (hn : n.Moves) (p : Path) :
    (p.child n).endsInSlash = false := by
  have hne : isEmpty ⟨n⟩ = false := by simpa [isEmpty] using hn.1
  rw [child, endsInSlash_join (isAbsolute_of_moves hn) hne, endsInSlash_of_moves hn]

theorem components_child {n : Name} (hn : n.Moves) (hup : n ≠ Name.up) (p : Path) :
    (p.child n).components = p.components ++ [.name n] := by
  have hlast : (p.child n).route.map component = p.route.map component ++ [.name n] := by
    rw [route_child hn, List.map_append, List.map_singleton, component, if_neg hup]
  cases hp : p.isAbsolute with
  | true =>
    have hchild : (p.child n).isAbsolute = true := by
      rw [isAbsolute_child hn (isEmpty_of_isAbsolute hp), hp]
    rw [components_of_isAbsolute hp, components_of_isAbsolute hchild, hlast, List.cons_append]
  | false =>
    have hchild : (p.child n).isAbsolute = false := by
      cases hempty : p.isEmpty with
      | true => rw [child_eq hn, hempty, List.isEmpty_iff.mp hempty]; exact isAbsolute_of_moves hn
      | false => rw [isAbsolute_child hn hempty, hp]
    have hhead : (p.child n).names.head? = some Name.here ↔ p.names.head? = some Name.here := by
      rw [names_child hn]
      cases p.names <;> simp [hn.2.2]
    rw [components_of_not_isAbsolute hp, components_of_not_isAbsolute hchild, hlast,
      List.append_assoc]
    simp only [hhead]

/-! Spelled locations. -/

theorem isAbsolute_path (l : Location) : l.path.isAbsolute = true := by
  cases l <;> simp [Location.path, isAbsolute]

theorem isEmpty_path (l : Location) : l.path.isEmpty = false := by
  cases l <;> simp [Location.path, isEmpty]

theorem path_child {l : Location} {n : Name} (hl : ∀ m ∈ l, Name.Moves m) (hn : n.Moves) :
    l.path.child n = Location.path (l ++ [n]) := by
  rw [child_eq hn]
  rcases List.eq_nil_or_concat l with rfl | ⟨k, m, rfl⟩
  · simp [Location.path, endsInSlash]
  · have hm := hl m (by simp)
    have hpath : ∀ (k : Location) (m : Name),
        Location.path (k ++ [m]) = ⟨(k.flatMap (slash :: ·) ++ [slash]) ++ m⟩ := by
      intro k m
      cases k <;> simp [Location.path]
    have hends : endsInSlash (Location.path (k ++ [m])) = false := by
      rw [hpath]
      exact endsInSlash_append hm.1 hm.2.1
    rw [List.concat_eq_append, isEmpty_path, hends, hpath (k ++ [m]) n, hpath k m]
    simp

theorem path_foldl_child {l : Location} {ns : List Name} (hl : ∀ m ∈ l, Name.Moves m)
    (hns : ∀ m ∈ ns, Name.Moves m) : ns.foldl child l.path = Location.path (l ++ ns) := by
  induction ns generalizing l with
  | nil => simp
  | cons n ns ih =>
    have hn := hns n (by simp)
    have hl' : ∀ m ∈ l ++ [n], Name.Moves m := by
      intro m hm
      rw [List.mem_append, List.mem_singleton] at hm
      rcases hm with hm | rfl
      · exact hl m hm
      · exact hn
    rw [List.foldl_cons, path_child hl hn, ih hl' fun m hm => hns m (by simp [hm])]
    simp

theorem names_path {l : Location} (hl : ∀ m ∈ l, Name.Moves m) : l.path.names = l := by
  have hnames : ∀ (p : Path) (ns : List Name), (∀ m ∈ ns, Name.Moves m) →
      (ns.foldl child p).names = p.names ++ ns := by
    intro p ns hns
    induction ns generalizing p with
    | nil => simp
    | cons n ns ih =>
      rw [List.foldl_cons, ih _ fun m hm => hns m (by simp [hm]), names_child (hns n (by simp))]
      simp
  have h := path_foldl_child (l := []) (by simp) hl
  rw [List.nil_append] at h
  rw [← h, hnames _ _ hl]
  rfl

theorem route_path {l : Location} (hl : ∀ m ∈ l, Name.Moves m) : l.path.route = l := by
  rw [route, names_path hl]
  exact List.filter_eq_self.mpr fun m hm => by simpa using (hl m hm).2.2

theorem endsInSlash_path {l : Location} {n : Name} (hl : ∀ m ∈ l ++ [n], Name.Moves m) :
    (Location.path (l ++ [n])).endsInSlash = false := by
  have hn := hl n (by simp)
  rw [← path_child (fun m hm => hl m (by simp [hm])) hn]
  exact endsInSlash_child hn l.path

theorem startsWith_path {k l : Location} (hk : ∀ m ∈ k, Name.Moves m) (hl : ∀ m ∈ l, Name.Moves m) :
    k.path.startsWith l.path = true ↔ l <+: k := by
  unfold startsWith
  rw [List.isPrefixOf_iff_prefix, components_of_isAbsolute (isAbsolute_path k),
    components_of_isAbsolute (isAbsolute_path l), route_path hk, route_path hl,
    List.cons_prefix_cons]
  simp only [true_and]
  constructor
  · rintro ⟨t, ht⟩
    obtain ⟨xs, ys, hxs, hl', -⟩ := List.map_eq_append_iff.mp ht.symm
    have : xs = l := List.map_injective_iff.mpr component_injective hl'
    exact ⟨ys, by rw [← this, hxs]⟩
  · exact fun h => h.map component

/-! Final slashes. -/

open FileSystem (withoutFinalSlashes)

theorem endsInSlash_withoutFinalSlashes (p : Path) :
    (withoutFinalSlashes p).endsInSlash = false := by
  have h := List.head?_dropWhile_not (· = slash) p.bytes.reverse
  unfold endsInSlash withoutFinalSlashes
  rw [List.getLast?_reverse]
  cases hb : (p.bytes.reverse.dropWhile (· = slash)).head? with
  | none => rfl
  | some b =>
    rw [hb] at h
    simpa using h

theorem names_mk_concat_slash (xs : Bytes) : names ⟨xs ++ [slash]⟩ = names ⟨xs⟩ := by
  rw [names_mk_append_slash, names_nil, List.append_nil]

theorem names_withoutFinalSlashes (p : Path) : (withoutFinalSlashes p).names = p.names := by
  have h : ∀ r : Bytes, names ⟨(r.dropWhile (· = slash)).reverse⟩ = names ⟨r.reverse⟩ := by
    intro r
    induction r with
    | nil => rfl
    | cons b r ih =>
      by_cases hb : b = slash
      · rw [List.dropWhile_cons_of_pos (by simpa using hb), ih, hb, List.reverse_cons,
          names_mk_concat_slash]
      · rw [List.dropWhile_cons_of_neg (by simpa using hb)]
  have hp := h p.bytes.reverse
  rwa [List.reverse_reverse] at hp

theorem steps_withoutFinalSlashes (p : Path) : (withoutFinalSlashes p).steps = p.names := by
  rw [steps_eq, endsInSlash_withoutFinalSlashes, names_withoutFinalSlashes]
  rfl

theorem isAbsolute_withoutFinalSlashes {p : Path} (h : (withoutFinalSlashes p).isEmpty = false) :
    (withoutFinalSlashes p).isAbsolute = p.isAbsolute := by
  have hsplit := List.takeWhile_append_dropWhile (p := (· = slash)) (l := p.bytes.reverse)
  have hbytes : p = ⟨(withoutFinalSlashes p).bytes ++
      (p.bytes.reverse.takeWhile (· = slash)).reverse⟩ := by
    unfold withoutFinalSlashes
    rw [← List.reverse_append, hsplit, List.reverse_reverse]
  conv => rhs; rw [hbytes]
  rw [isAbsolute_append h]

/-! Parents. -/

theorem route_congr {p q : Path} (h : p.names = q.names) : p.route = q.route := by
  simp [route, h]

theorem route_mk_concat_here (xs : Bytes) : route ⟨xs ++ slash :: Name.here⟩ = route ⟨xs⟩ := by
  have hhere : names ⟨Name.here⟩ = [Name.here] := by decide
  simp [route, names_mk_append_slash, hhere]

theorem trimReversed_keeps (r : Bytes) :
    (trimReversed r).getLast? = r.getLast? ∧ (trimReversed r).length ≤ r.length ∧
      route ⟨(trimReversed r).reverse⟩ = route ⟨r.reverse⟩ := by
  fun_induction trimReversed r with
  | case1 => simp
  | case2 b => simp
  | case3 c rest ih =>
    -- a final slash goes
    obtain ⟨hlast, hlen, hroute⟩ := ih
    refine ⟨by rw [hlast, List.getLast?_cons_cons], Nat.le_succ_of_le hlen, ?_⟩
    rw [hroute, ← route_congr (names_mk_concat_slash (c :: rest).reverse)]
    simp
  | case4 b c hb hdot =>
    -- the spelling is `/.`, whose slash stays
    simp only [Bool.and_eq_true, decide_eq_true_eq] at hdot
    obtain ⟨rfl, rfl⟩ := hdot
    exact ⟨rfl, by simp, by decide⟩
  | case5 b c rest hb hdot hrest ih =>
    -- a final `/.` goes, and more may go before it
    simp only [Bool.and_eq_true, decide_eq_true_eq] at hdot
    obtain ⟨rfl, rfl⟩ := hdot
    obtain ⟨hlast, hlen, hroute⟩ := ih
    obtain ⟨d, ds, rfl⟩ := List.exists_cons_of_ne_nil hrest
    refine ⟨by rw [hlast, List.getLast?_cons_cons, List.getLast?_cons_cons], by simp at hlen ⊢; omega, ?_⟩
    rw [hroute]
    have h := route_mk_concat_here (d :: ds).reverse
    rw [← h]
    simp [Name.here]
  | case6 b c rest hb hdot => simp

def Trimmed (r : Bytes) : Prop :=
  r.length ≤ 1 ∨ ∃ b c rest, r = b :: c :: rest ∧ b ≠ slash ∧ ¬ (b = 0x2E ∧ c = slash)

theorem trimmed_trimReversed (r : Bytes) : Trimmed (trimReversed r) := by
  fun_induction trimReversed r with
  | case1 => exact .inl (Nat.zero_le 1)
  | case2 b => exact .inl (Nat.le_refl 1)
  | case3 c rest ih => exact ih
  | case4 b c hb hdot => exact .inl (Nat.le_refl 1)
  | case5 b c rest hb hdot hrest ih => exact ih
  | case6 b c rest hb hdot => exact .inr ⟨b, c, rest, rfl, hb, by simpa using hdot⟩

theorem route_dropLast_of_notMem {r : Bytes} (h : slash ∉ r) :
    (route ⟨r⟩).dropLast = [] := by
  have hlen : (route ⟨r⟩).length ≤ 1 := by
    have hpieces : (pieces r).length = 1 := by rw [pieces_of_notMem h, List.length_singleton]
    have hnames : (names ⟨r⟩).length ≤ (pieces r).length := List.length_filter_le _ _
    have hroute : (route ⟨r⟩).length ≤ (names ⟨r⟩).length := List.length_filter_le _ _
    omega
  rw [← List.length_eq_zero_iff, List.length_dropLast]
  omega

theorem moves_of_trimmed {x back : Bytes} (hfree : slash ∉ x) (h : Trimmed (x ++ slash :: back)) :
    x = [] ∧ back = [] ∨ Name.Moves x.reverse := by
  rcases h with hlen | ⟨b, c, rest, hr, hb, hdot⟩
  · refine .inl ⟨List.eq_nil_of_length_eq_zero ?_, List.eq_nil_of_length_eq_zero ?_⟩ <;>
      simp at hlen <;> omega
  · refine .inr ⟨?_, by simpa using hfree, ?_⟩
    · intro hx
      rw [List.reverse_eq_nil_iff.mp hx, List.nil_append, List.cons.injEq] at hr
      exact hb hr.1.symm
    · intro hx
      have hx' : x = [0x2E] := by simpa [Name.here] using hx
      rw [hx', List.singleton_append, List.cons.injEq, List.cons.injEq] at hr
      exact hdot ⟨hr.1.symm, hr.2.1.symm⟩

theorem route_dropLast_of_trimmed {x back : Bytes} (hfree : slash ∉ x)
    (h : Trimmed (x ++ slash :: back)) :
    (route ⟨(x ++ slash :: back).reverse⟩).dropLast = route ⟨back.reverse⟩ := by
  have hreverse : (x ++ slash :: back).reverse = back.reverse ++ slash :: x.reverse := by simp
  rw [hreverse]
  rcases moves_of_trimmed hfree h with ⟨rfl, rfl⟩ | hmoves
  · rfl
  · have hroute : route ⟨back.reverse ++ slash :: x.reverse⟩ = route ⟨back.reverse⟩ ++ [x.reverse] := by
      have hne := hmoves.2.2
      unfold route
      rw [names_mk_append_slash, names_of_moves hmoves, moving_append, moving_cons hne, moving_nil]
    rw [hroute, List.dropLast_concat]

theorem dropWhile_ne_slash (r : Bytes) :
    (slash ∉ r ∧ r.dropWhile (· ≠ slash) = []) ∨
      ∃ x back, slash ∉ x ∧ r = x ++ slash :: back ∧ r.dropWhile (· ≠ slash) = slash :: back := by
  have hfree : slash ∉ r.takeWhile (· ≠ slash) := by
    intro hmem
    simpa using List.mem_takeWhile_imp hmem
  have hsplit := List.takeWhile_append_dropWhile (p := (· ≠ slash)) (l := r)
  cases hback : r.dropWhile (· ≠ slash) with
  | nil =>
    rw [hback, List.append_nil] at hsplit
    exact .inl ⟨hsplit ▸ hfree, rfl⟩
  | cons d back =>
    have hd : d = slash := by
      have hhead := List.head?_dropWhile_not (· ≠ slash) r
      rw [hback] at hhead
      simpa using hhead
    rw [hback, hd] at hsplit
    exact .inr ⟨_, back, hfree, hsplit.symm, by rw [hd]⟩

theorem getLast?_names_of_trimmed {r : Bytes} (h : Trimmed r) (hroute : route ⟨r.reverse⟩ ≠ []) :
    (names ⟨r.reverse⟩).getLast? ≠ some Name.here := by
  intro hlast
  rcases dropWhile_ne_slash r with ⟨hfree, -⟩ | ⟨x, back, hfree, rfl, -⟩
  · have hpieces : pieces r.reverse = [r.reverse] := pieces_of_notMem (by simpa using hfree)
    refine hroute ?_
    rw [names, hpieces] at hlast
    rw [route, names, hpieces]
    cases hempty : r.reverse with
    | nil => rfl
    | cons b bs =>
      rw [hempty, List.filter_cons_of_pos rfl, List.filter_nil, List.getLast?_singleton] at hlast
      rw [List.filter_cons_of_pos rfl, List.filter_nil, Option.some.inj hlast]
      rfl
  · rcases moves_of_trimmed hfree h with ⟨rfl, rfl⟩ | hmoves
    · exact hroute rfl
    · rw [List.reverse_append, List.reverse_cons, List.append_assoc, List.singleton_append,
        names_mk_append_slash, names_of_moves hmoves, List.getLast?_concat] at hlast
      exact hmoves.2.2 (Option.some.inj hlast)

theorem dropWhile_trimmed {r : Bytes} (h : Trimmed r) :
    route ⟨(r.dropWhile (· ≠ slash)).reverse⟩ = (route ⟨r.reverse⟩).dropLast ∧
      ((r.dropWhile (· ≠ slash)).getLast? == some slash) = (r.getLast? == some slash) := by
  rcases dropWhile_ne_slash r with ⟨hfree, hback⟩ | ⟨x, back, hfree, hr, hback⟩
  · have hlast : r.getLast? ≠ some slash := fun h => hfree (List.mem_of_getLast? h)
    rw [hback, route_dropLast_of_notMem (by simpa using hfree)]
    exact ⟨rfl, by simp [hlast]⟩
  · rw [hback, hr]
    refine ⟨?_, by simp⟩
    rw [route_dropLast_of_trimmed hfree (hr ▸ h), List.reverse_cons,
      route_congr (names_mk_concat_slash _)]

theorem eq_trimmed_of_parent {p q : Path} (h : p.parent = some q) :
    q = ⟨(trimReversed ((trimReversed p.bytes.reverse).dropWhile (· ≠ slash))).reverse⟩ := by
  unfold parent at h
  split at h <;> cases h
  rfl

theorem getLast?_names_of_parent {p q : Path} (h : p.parent = some q) (hroute : q.route ≠ []) :
    q.names.getLast? ≠ some Name.here := by
  rw [eq_trimmed_of_parent h] at hroute ⊢
  exact getLast?_names_of_trimmed (trimmed_trimReversed _) hroute

theorem parent_eq_some {p q : Path} (h : p.parent = some q) :
    q.route = p.route.dropLast ∧ q.isAbsolute = p.isAbsolute ∧ q.bytes.length ≤ p.bytes.length := by
  have hq := eq_trimmed_of_parent h
  obtain ⟨hback, hroot⟩ := dropWhile_trimmed (trimmed_trimReversed p.bytes.reverse)
  obtain ⟨hlast, hlen, hroute⟩ := trimReversed_keeps p.bytes.reverse
  rw [List.reverse_reverse] at hroute
  rw [List.getLast?_reverse] at hlast
  rw [List.length_reverse] at hlen
  generalize trimReversed p.bytes.reverse = r at hq hback hroot hlast hlen hroute
  obtain ⟨hlast', hlen', hroute'⟩ := trimReversed_keeps (r.dropWhile (· ≠ slash))
  have hdrop := (List.dropWhile_sublist (· ≠ slash) (l := r)).length_le
  refine ⟨?_, ?_, ?_⟩
  · rw [hq, hroute', hback, hroute]
  · rw [hq, isAbsolute, List.head?_reverse, hlast', hroot, hlast, isAbsolute]
  · rw [hq, List.length_reverse]
    omega

theorem getLast?_components {p : Path} (h : p.route ≠ []) :
    p.components.getLast? = p.route.getLast?.map component := by
  have hne : p.route.map component ≠ [] := by simpa using h
  rw [← List.getLast?_map]
  cases hp : p.isAbsolute with
  | true =>
    rw [components_of_isAbsolute hp, ← List.singleton_append, List.getLast?_append_of_ne_nil _ hne]
  | false =>
    rw [components_of_not_isAbsolute hp, List.getLast?_append_of_ne_nil _ hne]

theorem exists_parent {p : Path} {xs : List Name} {n : Name} (h : p.route = xs ++ [n]) :
    ∃ q, p.parent = some q ∧ q.route = xs := by
  have hlast : p.components.getLast? = some (component n) := by
    rw [getLast?_components (by simp [h]), h]
    simp
  have hparent : ∃ q, p.parent = some q := by
    unfold parent
    rw [hlast]
    unfold component
    split_ifs <;> exact ⟨_, rfl⟩
  obtain ⟨q, hq⟩ := hparent
  refine ⟨q, hq, ?_⟩
  rw [(parent_eq_some hq).1, h, List.dropLast_concat]

theorem isSome_parent {p : Path} (h : p.isEmpty = false)
    (hroot : p.isAbsolute = true → p.route ≠ []) : p.parent.isSome = true := by
  by_cases hr : p.route = []
  · -- a relative path without a way to go is a row of dots
    have hrel : p.isAbsolute = false := by
      by_contra habs
      exact hroot (by simpa using habs) hr
    obtain ⟨n, ns, hnames⟩ := List.exists_cons_of_ne_nil (names_ne_nil hrel h)
    have hn : n = Name.here := by
      by_contra hne
      rw [route, hnames, moving_cons hne] at hr
      cases hr
    have hcomponents : p.components = [.here] := by
      rw [components_of_not_isAbsolute hrel, hr, hnames, hn]
      rfl
    simp [parent, hcomponents]
  · obtain ⟨xs, n, hxs⟩ := (List.eq_nil_or_concat p.route).resolve_left hr
    rw [List.concat_eq_append] at hxs
    obtain ⟨q, hq, -⟩ := exists_parent hxs
    rw [hq]
    rfl

theorem fileName_of_route {p : Path} {xs : List Name} {n : Name} (h : p.route = xs ++ [n])
    (hn : n ≠ Name.up) : p.fileName = some n := by
  unfold fileName
  rw [getLast?_components (by simp [h]), h, List.getLast?_concat]
  simp [component, hn]

theorem moves_of_mem_components {p : Path} {n : Name} (h : .name n ∈ p.components) :
    n.Moves ∧ n ≠ Name.up := by
  have hmem : Component.name n ∈ p.route.map component := by
    cases hp : p.isAbsolute with
    | true =>
      rw [components_of_isAbsolute hp] at h
      simpa using h
    | false =>
      rw [components_of_not_isAbsolute hp] at h
      split_ifs at h <;> simpa using h
  obtain ⟨m, hm, hcm⟩ := List.mem_map.mp hmem
  unfold component at hcm
  split_ifs at hcm with hup
  cases hcm
  exact ⟨moves_of_mem_route hm, hup⟩

theorem moves_of_fileName {p : Path} {n : Name} (h : p.fileName = some n) :
    n.Moves ∧ n ≠ Name.up := by
  apply moves_of_mem_components
  unfold fileName at h
  split at h
  · next m hm =>
    cases h
    exact List.mem_of_getLast? hm
  · cases h

theorem exists_names_of_route {p : Path} {xs ws : List Name} {n : Name}
    (h : p.route = xs ++ n :: ws) :
    ∃ zs vs, p.names = zs ++ n :: vs ∧ moving zs = xs ∧ moving vs = ws := by
  obtain ⟨zs, rest, hnames, hzs, hrest⟩ := List.filter_eq_append_iff.mp h
  obtain ⟨ds, vs, rfl, hds, -, hvs⟩ := List.filter_eq_cons_iff.mp hrest
  refine ⟨zs ++ ds, vs, by rw [hnames, List.append_assoc], ?_, hvs⟩
  rw [moving_append, show moving zs = xs from hzs, show moving ds = [] from List.filter_eq_nil_iff.mpr hds,
    List.append_nil]

theorem exists_names_of_named {p : Path} {xs : List Name} {n : Name} (h : p.route = xs ++ [n])
    (hnamed : p.names.getLast? ≠ some Name.here) : ∃ zs, p.names = zs ++ [n] ∧ moving zs = xs := by
  obtain ⟨zs, vs, hnames, hzs, hvs⟩ := exists_names_of_route h
  rcases List.eq_nil_or_concat vs with rfl | ⟨vs, v, rfl⟩
  · exact ⟨zs, hnames, hzs⟩
  · refine absurd ?_ hnamed
    rw [List.concat_eq_append] at hnames hvs
    have hv := (List.filter_eq_nil_iff.mp hvs) v (by simp)
    rw [hnames, ← List.cons_append, ← List.append_assoc, List.getLast?_concat]
    simpa using hv

/-! Ancestors. -/

theorem ancestor_keeps {fuel : Nat} {p q : Path} (h : q ∈ ancestorsFrom fuel p) :
    q.route <+: p.route ∧ q.isAbsolute = p.isAbsolute ∧ q.bytes.length ≤ p.bytes.length := by
  induction fuel generalizing p with
  | zero => simp [ancestorsFrom] at h
  | succ fuel ih =>
    unfold ancestorsFrom at h
    cases hp : p.parent with
    | none => simp [hp] at h
    | some above =>
      obtain ⟨hroute, habs, hlen⟩ := parent_eq_some hp
      have hinit : above.route <+: p.route := by
        rw [hroute]
        exact List.dropLast_prefix _
      simp only [hp, List.mem_cons] at h
      rcases h with rfl | h
      · exact ⟨hinit, habs, hlen⟩
      · obtain ⟨hr, ha, hl⟩ := ih h
        exact ⟨hr.trans hinit, ha.trans habs, hl.trans hlen⟩

theorem exists_ancestor {fuel : Nat} {p : Path} {xs zs : List Name} (h : p.route = xs ++ zs)
    (hzs : zs ≠ []) (hfuel : zs.length ≤ fuel) : ∃ q ∈ ancestorsFrom fuel p, q.route = xs := by
  induction fuel generalizing p zs with
  | zero => exact absurd (List.eq_nil_of_length_eq_zero (Nat.le_zero.mp hfuel)) hzs
  | succ fuel ih =>
    obtain ⟨ys, n, rfl⟩ := (List.eq_nil_or_concat zs).resolve_left hzs
    rw [List.concat_eq_append, ← List.append_assoc] at h
    obtain ⟨above, hp, hroute⟩ := exists_parent h
    unfold ancestorsFrom
    simp only [hp, List.mem_cons, exists_eq_or_imp]
    by_cases hys : ys = []
    · left
      rw [hroute, hys, List.append_nil]
    · right
      simp only [List.concat_eq_append, List.length_append, List.length_singleton] at hfuel
      exact ih hroute hys (by omega)

end Path
end FunctionPairs
