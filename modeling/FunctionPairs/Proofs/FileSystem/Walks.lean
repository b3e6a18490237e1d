import FunctionPairs.Proofs.Path.Route
import Mathlib.Logic.Relation

/-!
Lookups step by step. A lookup goes up, enters a directory or follows a link until its route is
used up or what comes next is not there to be entered. From one point there is at most one way
on, and whatever keeps the directories and links of a file system keeps the ways through it.
-/
namespace FunctionPairs

def Name.Ordinary (n : Name) : Prop :=
  n ≠ Name.here ∧ n ≠ Name.up ∧ n.length ≤ FileSystem.maxNameLength

/-- A lookup under way: the links it may still follow, where it is, and its route from there. -/
structure Lookup where
  links : Nat
  place : Location
  ahead : List Name

namespace FileSystem

open FunctionPairs.Path (moving)

inductive Step (fs : FileSystem) : Lookup → Lookup → Prop
  | up {n l xs} : Step fs ⟨n, l, Name.up :: xs⟩ ⟨n, l.dropLast, xs⟩
  | enter {n l s xs} (hs : Name.Ordinary s) (he : fs.entryAt (l ++ [s]) = some .directory) :
      Step fs ⟨n, l, s :: xs⟩ ⟨n, l ++ [s], xs⟩
  | follow {n l s xs t} (hs : Name.Ordinary s) (he : fs.entryAt (l ++ [s]) = some (.link t)) :
      Step fs ⟨n + 1, l, s :: xs⟩ ⟨n, if t.isAbsolute then [] else l, t.route ++ xs⟩

def Walks (fs : FileSystem) : Lookup → Lookup → Prop := Relation.ReflTransGen fs.Step

def Stuck (fs : FileSystem) (a : Lookup) : Prop := ∀ b, ¬ fs.Step a b

inductive Resolves (fs : FileSystem) (follow : Bool) :
    Nat → Location → List Name → Location → Prop
  | done {n l} : Resolves fs follow n l [] l
  | here {n l xs l'} (rest : Resolves fs follow n l xs l') :
      Resolves fs follow n l (Name.here :: xs) l'
  | up {n l xs l'} (rest : Resolves fs follow n l.dropLast xs l') :
      Resolves fs follow n l (Name.up :: xs) l'
  | enter {n l s xs l'} (hs : Name.Ordinary s) (he : fs.entryAt (l ++ [s]) = some .directory)
      (rest : Resolves fs follow n (l ++ [s]) xs l') : Resolves fs follow n l (s :: xs) l'
  | last {n l s} (hs : Name.Ordinary s)
      (he : ∀ e, fs.entryAt (l ++ [s]) = some e → e.isFile = true) :
      Resolves fs follow n l [s] (l ++ [s])
  | link {n l s t} (hs : Name.Ordinary s) (he : fs.entryAt (l ++ [s]) = some (.link t))
      (hleft : follow = false) : Resolves fs follow n l [s] (l ++ [s])
  | through {n l s xs t l'} (hs : Name.Ordinary s) (he : fs.entryAt (l ++ [s]) = some (.link t))
      (hfollowed : follow = true ∨ xs ≠ [])
      (rest : Resolves fs follow n (if t.isAbsolute then [] else l) (t.steps ++ xs) l') :
      Resolves fs follow (n + 1) l (s :: xs) l'

variable {fs fs' : FileSystem} {a b c : Lookup} {n n' : Nat} {l l' : Location} {s : Name}
  {xs ys rest : List Name}

theorem Step.unique (hb : fs.Step a b) (hc : fs.Step a c) : b = c := by
  cases hb with
  | up =>
    cases hc with
    | up => rfl
    | enter hs => exact absurd rfl hs.2.1
    | follow hs => exact absurd rfl hs.2.1
  | enter hs he =>
    cases hc with
    | up => exact absurd rfl hs.2.1
    | enter => rfl
    | follow hs' he' =>
      rw [he] at he'
      cases he'
  | follow hs he =>
    cases hc with
    | up => exact absurd rfl hs.2.1
    | enter hs' he' =>
      rw [he] at he'
      cases he'
    | follow hs' he' =>
      rw [he] at he'
      cases he'
      rfl

theorem Step.append (h : fs.Step ⟨n, l, xs⟩ ⟨n', l', ys⟩) (rest : List Name) :
    fs.Step ⟨n, l, xs ++ rest⟩ ⟨n', l', ys ++ rest⟩ := by
  cases h with
  | up => exact .up
  | enter hs he => exact .enter hs he
  | follow hs he =>
    rw [List.append_assoc]
    exact .follow hs he

theorem Walks.append (h : fs.Walks a b) (rest : List Name) :
    fs.Walks ⟨a.links, a.place, a.ahead ++ rest⟩ ⟨b.links, b.place, b.ahead ++ rest⟩ := by
  induction h with
  | refl => exact .refl
  | tail _ hstep ih => exact ih.tail (Step.append hstep rest)

theorem Walks.comparable (hb : fs.Walks a b) (hc : fs.Walks a c) :
    fs.Walks b c ∨ fs.Walks c b :=
  Relation.ReflTransGen.total_of_right_unique (fun _ _ _ h h' => Step.unique h h') hb hc

theorem Walks.eq_of_stuck (h : fs.Walks a b) (ha : fs.Stuck a) : a = b := by
  rcases Relation.ReflTransGen.cases_head h with hab | ⟨c, hc, -⟩
  · exact hab
  · exact absurd hc (ha c)

theorem Walks.unique (hb : fs.Walks a b) (hc : fs.Walks a c) (sb : fs.Stuck b)
    (sc : fs.Stuck c) : b = c := by
  rcases Walks.comparable hb hc with h | h
  · exact h.eq_of_stuck sb
  · exact (h.eq_of_stuck sc).symm

theorem stuck_nil : fs.Stuck ⟨n, l, []⟩ := by
  intro b h
  cases h

theorem stuck_of_entryAt (hs : s ≠ Name.up)
    (he : ∀ e, fs.entryAt (l ++ [s]) = some e → e.isFile = true) :
    fs.Stuck ⟨n, l, s :: xs⟩ := by
  intro b h
  cases h with
  | up => exact hs rfl
  | enter _ hd => simpa [Entry.isFile] using he _ hd
  | follow _ hl => simpa [Entry.isFile] using he _ hl

theorem stuck_of_missing (hs : s ≠ Name.up) (he : fs.entryAt (l ++ [s]) = none) :
    fs.Stuck ⟨n, l, s :: xs⟩ :=
  stuck_of_entryAt hs fun e h => by simp [he] at h

def Keeps (fs fs' : FileSystem) : Prop :=
  ∀ l e, fs.entryAt l = some e → e.isFile = false → fs'.entryAt l = some e

theorem Keeps.refl (fs : FileSystem) : fs.Keeps fs := fun _ _ h _ => h

theorem Keeps.trans {fs'' : FileSystem} (h : fs.Keeps fs') (h' : fs'.Keeps fs'') :
    fs.Keeps fs'' := fun l e he hf => h' l e (h l e he hf) hf

theorem Step.keeps (hk : fs.Keeps fs') (h : fs.Step a b) : fs'.Step a b := by
  cases h with
  | up => exact .up
  | enter hs he => exact .enter hs (hk _ _ he rfl)
  | follow hs he => exact .follow hs (hk _ _ he rfl)

theorem Walks.keeps (hk : fs.Keeps fs') (h : fs.Walks a b) : fs'.Walks a b := by
  induction h with
  | refl => exact .refl
  | tail _ hstep ih => exact ih.tail (hstep.keeps hk)

theorem Walks.through (hk : fs.Keeps fs') (hb : fs'.Walks a b) (hc : fs.Walks a c)
    (sc : fs'.Stuck c) : fs.Walks b c := by
  induction hb using Relation.ReflTransGen.head_induction_on with
  | refl => exact hc
  | head hstep _ ih =>
    rcases Relation.ReflTransGen.cases_head hc with rfl | ⟨d, hd, hdc⟩
    · exact absurd hstep (sc _)
    · rw [Step.unique hstep (hd.keeps hk)] at ih
      exact ih hdc

/-! Lookups as they are carried out. -/

theorem resolveSteps_nil (follow : Bool) : fs.resolveSteps follow n l [] = .ok l := by
  rw [resolveSteps]

theorem resolveSteps_here (follow : Bool) :
    fs.resolveSteps follow n l (Name.here :: xs) = fs.resolveSteps follow n l xs := by
  rw [resolveSteps, if_pos rfl]

theorem resolveSteps_up (follow : Bool) :
    fs.resolveSteps follow n l (Name.up :: xs) = fs.resolveSteps follow n l.dropLast xs := by
  rw [resolveSteps, if_neg (by decide), if_pos rfl]

theorem resolveSteps_ordinary (follow : Bool) (hs : s.Ordinary) :
    fs.resolveSteps follow n l (s :: xs) =
      match fs.entryAt (l ++ [s]) with
      | none => if xs.isEmpty then .ok (l ++ [s]) else .error .notFound
      | some .directory => fs.resolveSteps follow n (l ++ [s]) xs
      | some (.file ..) => if xs.isEmpty then .ok (l ++ [s]) else .error .notDirectory
      | some (.link target) =>
        if xs.isEmpty && !follow then .ok (l ++ [s])
        else match n with
          | 0 => .error .tooManyLinks
          | n + 1 =>
            fs.resolveSteps follow n (if target.isAbsolute then [] else l) (target.steps ++ xs) := by
  obtain ⟨h1, h2, h3⟩ := hs
  conv => lhs; rw [resolveSteps]
  rw [if_neg h1, if_neg h2]
  exact if_neg (Nat.not_lt.mpr h3)

theorem resolves_of_resolveSteps {follow : Bool} (h : fs.resolveSteps follow n l xs = .ok l') :
    fs.Resolves follow n l xs l' := by
  fun_induction resolveSteps fs follow n l xs with
  | case1 n l =>
    cases h
    exact .done
  | case2 n l xs ih => exact .here (ih h)
  | case3 n l xs _ ih => exact .up (ih h)
  | case4 => cases h
  | case5 n l s xs h1 h2 h3 _ hnone hxs =>
    -- the last name, and nothing has it
    rw [← Except.ok.inj h, List.isEmpty_iff.mp hxs]
    exact .last ⟨h1, h2, Nat.not_lt.mp h3⟩ fun e he => nomatch he.symm.trans hnone
  | case6 => cases h
  | case7 n l s xs h1 h2 h3 _ hdir ih => exact .enter ⟨h1, h2, Nat.not_lt.mp h3⟩ hdir (ih h)
  | case8 n l s xs h1 h2 h3 _ contents x hfile hxs =>
    -- the last name, and a file has it
    rw [← Except.ok.inj h, List.isEmpty_iff.mp hxs]
    refine .last ⟨h1, h2, Nat.not_lt.mp h3⟩ fun e he => ?_
    rw [← Option.some.inj (hfile.symm.trans he)]
    rfl
  | case9 => cases h
  | case10 n l s xs h1 h2 h3 _ t hlink hxs =>
    rw [Bool.and_eq_true, List.isEmpty_iff, Bool.not_eq_true'] at hxs
    rw [← Except.ok.inj h, hxs.1]
    exact .link ⟨h1, h2, Nat.not_lt.mp h3⟩ hlink hxs.2
  | case11 => cases h
  | case12 l s xs h1 h2 h3 _ t hlink hxs n ih =>
    have hfollowed : follow = true ∨ xs ≠ [] := by
      rw [Bool.and_eq_true, List.isEmpty_iff, Bool.not_eq_true', not_and'] at hxs
      exact (Bool.eq_false_or_eq_true follow).imp id hxs
    exact .through ⟨h1, h2, Nat.not_lt.mp h3⟩ hlink hfollowed (ih h)

theorem resolveSteps_eq_ok {follow : Bool} :
    fs.resolveSteps follow n l xs = .ok l' ↔ fs.Resolves follow n l xs l' := by
  refine ⟨resolves_of_resolveSteps, fun h => ?_⟩
  induction h with
  | done => exact resolveSteps_nil follow
  | here _ ih => rwa [resolveSteps_here]
  | up _ ih => rwa [resolveSteps_up]
  | enter hs he _ ih => rwa [resolveSteps_ordinary follow hs, he]
  | @last n l s hs he =>
    rw [resolveSteps_ordinary follow hs]
    cases hentry : fs.entryAt (l ++ [s]) with
    | none => rfl
    | some e =>
      have hfile := he e hentry
      cases e with
      | file => rfl
      | directory => cases hfile
      | link => cases hfile
  | link hs he hleft =>
    rw [resolveSteps_ordinary follow hs, he, hleft]
    rfl
  | through hs he hfollowed _ ih =>
    rw [resolveSteps_ordinary follow hs, he]
    refine (if_neg ?_).trans ih
    rw [Bool.and_eq_true, List.isEmpty_iff, Bool.not_eq_true']
    rintro ⟨hnil, hleft⟩
    exact hfollowed.elim (fun h => nomatch h.symm.trans hleft) fun h => h hnil

theorem resolveSteps_dots (follow : Bool) {ds : List Name} (hds : ∀ d ∈ ds, d = Name.here) :
    fs.resolveSteps follow n l (ds ++ xs) = fs.resolveSteps follow n l xs := by
  induction ds with
  | nil => rfl
  | cons d ds ih =>
    have hd := hds d (by simp)
    rw [hd, List.cons_append, resolveSteps_here]
    exact ih fun d hd => hds d (by simp [hd])

theorem eq_dots_of_moving {zs : List Name} (h : moving zs = s :: rest) :
    ∃ ds xs, zs = ds ++ s :: xs ∧ (∀ d ∈ ds, d = Name.here) ∧ moving xs = rest := by
  obtain ⟨ds, xs, hzs, hds, -, hxs⟩ := List.filter_eq_cons_iff.mp h
  exact ⟨ds, xs, hzs, fun d hd => by simpa using hds d hd, hxs⟩

theorem resolveSteps_of_walks {follow : Bool} {zs : List Name} (h : fs.Walks a b)
    (hb : b.ahead = []) (ha : moving zs = a.ahead) (hxs : follow = true ∨ xs ≠ []) :
    fs.resolveSteps follow a.links a.place (zs ++ xs) =
      fs.resolveSteps follow b.links b.place xs := by
  induction h using Relation.ReflTransGen.head_induction_on generalizing zs with
  | refl =>
    have hzs : ∀ d ∈ zs, d = Name.here := by
      rw [hb] at ha
      simpa [moving] using ha
    exact resolveSteps_dots follow hzs
  | head hstep _ ih =>
    have hend : ∀ ys : List Name, (ys ++ xs).isEmpty = true → follow = true := by
      intro ys hys
      rcases hxs with h | h
      · exact h
      · rw [List.isEmpty_iff, List.append_eq_nil_iff] at hys
        exact absurd hys.2 h
    cases hstep with
    | up =>
      obtain ⟨ds, ys, rfl, hds, hys⟩ := eq_dots_of_moving ha
      rw [List.append_assoc, resolveSteps_dots follow hds, List.cons_append, resolveSteps_up]
      exact ih hys
    | enter hs he =>
      obtain ⟨ds, ys, rfl, hds, hys⟩ := eq_dots_of_moving ha
      rw [List.append_assoc, resolveSteps_dots follow hds, List.cons_append,
        resolveSteps_ordinary follow hs, he]
      exact ih hys
    | @follow n l s rest t hs he =>
      obtain ⟨ds, ys, rfl, hds, hys⟩ := eq_dots_of_moving ha
      have hmoving : moving (t.steps ++ ys) = t.route ++ rest := by
        rw [Path.moving_append, Path.moving_steps, hys]
      rw [List.append_assoc, resolveSteps_dots follow hds, List.cons_append,
        resolveSteps_ordinary follow hs, he]
      have hnot : ((ys ++ xs).isEmpty && !follow) = false := by
        cases hempty : (ys ++ xs).isEmpty with
        | false => rfl
        | true => simp [hend ys hempty]
      dsimp only
      rw [hnot, if_neg Bool.false_ne_true, ← List.append_assoc]
      exact ih hmoving

/-- Where a lookup that follows all links ends: in a directory, or at a name that is missing or
names a file. -/
inductive Arrives (fs : FileSystem) (a : Lookup) : Location → Prop
  | inside {m d} (h : fs.Walks a ⟨m, d, []⟩) : Arrives fs a d
  | name {m d t} (h : fs.Walks a ⟨m, d, [t]⟩) (ht : Name.Ordinary t)
      (he : ∀ e, fs.entryAt (d ++ [t]) = some e → e.isFile = true) : Arrives fs a (d ++ [t])

theorem Arrives.cons (h : fs.Step ⟨n, l, s :: moving xs⟩ b) (hs : s ≠ Name.here)
    (hb : fs.Arrives b l') : fs.Arrives ⟨n, l, moving (s :: xs)⟩ l' := by
  rw [Path.moving_cons hs]
  cases hb with
  | inside hw => exact .inside (.head h hw)
  | name hw hs he => exact .name (.head h hw) hs he

theorem arrives_of_resolveSteps (h : fs.resolveSteps true n l xs = .ok l') :
    fs.Arrives ⟨n, l, moving xs⟩ l' := by
  rw [resolveSteps_eq_ok] at h
  induction h with
  | done => exact .inside .refl
  | here _ ih => rwa [Path.moving_here]
  | up _ ih => exact Arrives.cons .up (by decide) ih
  | enter hs he _ ih => exact Arrives.cons (.enter hs he) hs.1 ih
  | last hs he =>
    rw [Path.moving_cons hs.1]
    exact .name .refl hs he
  | link _ _ hleft => cases hleft
  | through hs he _ _ ih =>
    rw [Path.moving_append, Path.moving_steps] at ih
    exact Arrives.cons (.follow hs he) hs.1 ih

/-- Where a lookup that leaves a final link alone ends: in a directory, or at the last of its own
names. -/
inductive Designates (fs : FileSystem) (n : Nat) (l : Location) (xs : List Name) : Location → Prop
  | inside {m d} (h : fs.Walks ⟨n, l, moving xs⟩ ⟨m, d, []⟩) : Designates fs n l xs d
  | name {zs t m d} (hxs : xs = zs ++ [t]) (h : fs.Walks ⟨n, l, moving zs⟩ ⟨m, d, []⟩)
      (ht : Name.Ordinary t) : Designates fs n l xs (d ++ [t])

theorem Designates.cons (h : ∀ ys, fs.Step ⟨n, l, s :: ys⟩ ⟨n', l', rest ++ ys⟩)
    (hs : s ≠ Name.here) {d : Location} {ws : List Name} (hws : moving ws = rest)
    (hlast : xs = [] → ws = []) (hb : fs.Designates n' l' (ws ++ xs) d) :
    fs.Designates n l (s :: xs) d := by
  cases hb with
  | inside hw =>
    rw [Path.moving_append, hws] at hw
    have hcons := Relation.ReflTransGen.head (h _) hw
    rw [← Path.moving_cons hs] at hcons
    exact .inside hcons
  | @name ys t m d hsplit hw ht =>
    -- the last name is one of the path itself
    have hne : xs ≠ [] := by
      intro hxs
      rw [hxs, hlast hxs, List.nil_append] at hsplit
      exact List.append_ne_nil_of_right_ne_nil ys (List.cons_ne_nil t []) hsplit.symm
    obtain ⟨zs, v, rfl⟩ := (List.eq_nil_or_concat xs).resolve_left hne
    rw [List.concat_eq_append, ← List.append_assoc] at hsplit
    obtain ⟨rfl, hv⟩ := List.append_inj' hsplit rfl
    cases hv
    rw [Path.moving_append, hws] at hw
    have hcons := Relation.ReflTransGen.head (h _) hw
    rw [← Path.moving_cons hs] at hcons
    exact .name (by simp) hcons ht

theorem designates_of_resolveSteps (h : fs.resolveSteps false n l xs = .ok l') :
    fs.Designates n l xs l' := by
  rw [resolveSteps_eq_ok] at h
  induction h with
  | done => exact .inside .refl
  | here _ ih =>
    cases ih with
    | inside hw => exact .inside (by rwa [Path.moving_here])
    | @name ys s m d hxs hw hs =>
      rw [← Path.moving_here] at hw
      exact .name (by simp [hxs]) hw hs
  | up _ ih => exact Designates.cons (fun _ => .up) (by decide) rfl (fun _ => rfl) ih
  | enter hs he _ ih => exact Designates.cons (fun _ => .enter hs he) hs.1 rfl (fun _ => rfl) ih
  | last hs => exact .name (List.nil_append _).symm .refl hs
  | link hs => exact .name (List.nil_append _).symm .refl hs
  | through hs he hfollowed _ ih =>
    have hne := hfollowed.resolve_left Bool.false_ne_true
    exact Designates.cons (fun _ => .follow hs he) hs.1 (Path.moving_steps _)
      (fun hnil => absurd hnil hne) ih

end FileSystem
end FunctionPairs
