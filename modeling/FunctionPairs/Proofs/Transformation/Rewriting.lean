import FunctionPairs.Proofs.Action
import FunctionPairs.Proofs.BodySplit
import FunctionPairs.Transformation.File

/-!
Pieces of a file with their bodies rewritten. The pieces fall into bodies and the text around
them; rewriting asks the translator for these bodies alone, in order and each once, and puts the
answers in their places with the text around them unchanged.
-/
namespace FunctionPairs

variable {σ : Type}

def weave : List String → List String → String
  | [], bs => String.join bs
  | os, [] => String.join os
  | o :: os, b :: bs => o ++ b ++ weave os bs

theorem weave_cons_cons (o b : String) (os bs : List String) :
    weave (o :: os) (b :: bs) = o ++ b ++ weave os bs := rfl

namespace SourceUnit

def cut? : SourceUnit → Option BodySplit
  | function f => if f.hasBody then some (.ofText f.text) else none
  | other _ => none

def bodies (us : List SourceUnit) : List String := (us.filterMap cut?).map BodySplit.body

def prepend (text : String) : List String → List String
  | [] => [text]
  | o :: os => (text ++ o) :: os

/-- What is around the bodies: the texts before the first, between any two, behind the last. -/
def around : List SourceUnit → List String
  | [] => [""]
  | u :: us =>
    match u.cut? with
    | some parts => parts.head :: prepend parts.tail (around us)
    | none => prepend u.text (around us)

theorem weave_prepend (text : String) (os bs : List String) :
    weave (prepend text os) bs = text ++ weave os bs := by
  cases os with
  | nil => cases bs <;> simp [prepend, weave, String.append_assoc]
  | cons o os => cases bs <;> simp [prepend, weave, String.append_assoc]

theorem length_prepend (text : String) {os : List String} (h : os ≠ []) :
    (prepend text os).length = os.length := by
  cases os with
  | nil => exact absurd rfl h
  | cons o os => rfl

theorem around_ne_nil (us : List SourceUnit) : around us ≠ [] := by
  cases us with
  | nil => exact List.cons_ne_nil _ _
  | cons u us =>
    rw [around]
    cases u.cut? with
    | some parts => exact List.cons_ne_nil _ _
    | none => cases around us <;> exact List.cons_ne_nil _ _

theorem around_cons_of_cut {u : SourceUnit} {parts : BodySplit} (h : u.cut? = some parts)
    (us : List SourceUnit) :
    around (u :: us) = parts.head :: prepend parts.tail (around us) := by
  rw [around, h]

theorem around_cons_of_whole {u : SourceUnit} (h : u.cut? = none) (us : List SourceUnit) :
    around (u :: us) = prepend u.text (around us) := by
  rw [around, h]

theorem bodies_cons_of_cut {u : SourceUnit} {parts : BodySplit} (h : u.cut? = some parts)
    (us : List SourceUnit) : bodies (u :: us) = parts.body :: bodies us := by
  unfold bodies
  rw [List.filterMap_cons_some h, List.map_cons]

theorem bodies_cons_of_whole {u : SourceUnit} (h : u.cut? = none) (us : List SourceUnit) :
    bodies (u :: us) = bodies us := by
  unfold bodies
  rw [List.filterMap_cons_none h]

theorem length_around (us : List SourceUnit) : (around us).length = (bodies us).length + 1 := by
  induction us with
  | nil => rfl
  | cons u us ih =>
    cases hcut : u.cut? with
    | some parts =>
      rw [around_cons_of_cut hcut, bodies_cons_of_cut hcut, List.length_cons, List.length_cons,
        length_prepend _ (around_ne_nil us), ih]
    | none =>
      rw [around_cons_of_whole hcut, bodies_cons_of_whole hcut,
        length_prepend _ (around_ne_nil us), ih]

theorem text_of_cut {u : SourceUnit} {parts : BodySplit} (h : u.cut? = some parts) :
    parts.head ++ parts.body ++ parts.tail = u.text := by
  cases u with
  | other text => cases h
  | function f =>
    unfold cut? at h
    dsimp only at h
    split_ifs at h
    cases h
    exact BodySplit.ofText_append f.text

theorem weave_bodies (us : List SourceUnit) :
    weave (around us) (bodies us) = String.join (us.map text) := by
  induction us with
  | nil => rfl
  | cons u us ih =>
    rw [List.map_cons, String.join_cons, ← ih]
    cases hcut : u.cut? with
    | some parts =>
      rw [around_cons_of_cut hcut, bodies_cons_of_cut hcut, weave_cons_cons, weave_prepend,
        ← text_of_cut hcut, ← String.append_assoc]
    | none => rw [around_cons_of_whole hcut, bodies_cons_of_whole hcut, weave_prepend]

end SourceUnit

/-- A translator that is asked for bodies one after the other: its answers, all of them given,
and how it stands afterwards. -/
inductive Asked (t : Translator σ) : σ → List String → List String → σ → Prop
  | nil (state : σ) : Asked t state [] [] state
  | cons {state final : σ} {body answer : String} {bodies answers : List String}
      (first : (t body state).answer = .ok answer)
      (others : Asked t (t body state).state bodies answers final) :
      Asked t state (body :: bodies) (answer :: answers) final

theorem Asked.unique {t : Translator σ} {state final final' : σ} {bodies answers answers' : List String}
    (h : Asked t state bodies answers final) (h' : Asked t state bodies answers' final') :
    answers = answers' := by
  induction h generalizing answers' with
  | nil state =>
    cases h'
    rfl
  | cons first others ih =>
    cases h' with
    | cons first' others' =>
      rw [first] at first'
      cases first'
      rw [ih others']

theorem Asked.length_answers {t : Translator σ} {state final : σ} {bodies answers : List String}
    (h : Asked t state bodies answers final) : answers.length = bodies.length := by
  induction h with
  | nil state => rfl
  | cons first others ih => rw [List.length_cons, List.length_cons, ih]

theorem Asked.passthrough {state final : σ} {bodies answers : List String}
    (h : Asked .passthrough state bodies answers final) : answers = bodies := by
  induction h with
  | nil state => rfl
  | cons first others ih =>
    cases first
    rw [ih]

theorem Asked.noted {t : Translator σ} {note : σ → List String}
    (hnote : ∀ body state, note (t body state).state = note state ++ [body]) {state final : σ}
    {bodies answers : List String} (h : Asked t state bodies answers final) :
    note final = note state ++ bodies := by
  induction h with
  | nil state => exact (List.append_nil _).symm
  | cons first others ih => rw [ih, hnote, List.append_assoc, List.singleton_append]

/-- A translator that is asked for bodies until it refuses one, which is the last of them: its
failure, and how it stands afterwards. -/
inductive Refused (t : Translator σ) : σ → List String → Failure → σ → Prop
  | here {state : σ} {body : String} {cause : Failure} (h : (t body state).answer = .error cause) :
      Refused t state [body] cause (t body state).state
  | later {state final : σ} {body answer : String} {bodies : List String} {cause : Failure}
      (first : (t body state).answer = .ok answer)
      (others : Refused t (t body state).state bodies cause final) :
      Refused t state (body :: bodies) cause final

theorem Refused.noted {t : Translator σ} {note : σ → List String}
    (hnote : ∀ body state, note (t body state).state = note state ++ [body]) {state final : σ}
    {bodies : List String} {cause : Failure} (h : Refused t state bodies cause final) :
    note final = note state ++ bodies := by
  induction h with
  | here h => exact hnote _ _
  | later first others ih => rw [ih, hnote, List.append_assoc, List.singleton_append]

namespace Transformer

open SourceUnit (bodies around cut? weave_prepend)

variable {t : Translator σ} (path : Path)

def asking (t : Translator σ) (body : String) (s : TransformState σ) : TransformState σ :=
  { s with
    translator := (t body s.translator).state
    interrupt := if (t body s.translator).stop then s.interrupt.trigger else s.interrupt }

theorem translate_eq_ok {text body answer : String} {s s' : TransformState σ} :
    (TransformStep.translate t text body s).value = (.ok answer, s') ↔
      (t body s.translator).answer = .ok answer ∧ s' = asking t body s := by
  unfold TransformStep.translate
  dsimp only
  cases (t body s.translator).answer with
  | ok a =>
    dsimp only
    rw [Prod.mk.injEq, eq_comm (b := s')]
    rfl
  | error e =>
    dsimp only
    rw [Prod.mk.injEq]
    exact ⟨fun h => (nomatch h.1), fun h => (nomatch h.1)⟩

theorem translate_eq_error {text body : String} {e : Failure} {s s' : TransformState σ} :
    (TransformStep.translate t text body s).value = (.error e, s') ↔
      ∃ cause, (t body s.translator).answer = .error cause ∧ e = .context text cause ∧
        s' = asking t body s := by
  unfold TransformStep.translate
  dsimp only
  cases (t body s.translator).answer with
  | ok a => simp
  | error cause =>
    simp only [Prod.mk.injEq, Except.error.injEq, exists_eq_left']
    rw [eq_comm (b := e), eq_comm (b := s')]
    rfl

theorem rewriteUnit_whole {u : SourceUnit} (h : u.cut? = none) :
    rewriteUnit t path u = pure (u.text, 0) := by
  cases u with
  | other text => rfl
  | function f =>
    unfold SourceUnit.cut? at h
    unfold rewriteUnit
    dsimp only at h ⊢
    split_ifs at h with hbody
    rw [if_neg hbody]
    rfl

theorem rewriteUnit_cut {u : SourceUnit} {parts : BodySplit} (h : u.cut? = some parts) :
    ∃ text, rewriteUnit t path u = (do
      let body ← TransformStep.translate t text parts.body
      pure (parts.head ++ body ++ parts.tail, 1)) := by
  cases u with
  | other text => cases h
  | function f =>
    unfold SourceUnit.cut? at h
    unfold rewriteUnit
    dsimp only at h ⊢
    split_ifs at h with hbody
    cases h
    rw [if_pos hbody]
    exact ⟨_, rfl⟩

theorem rewriteUnit_eq_ok {u : SourceUnit} {text : String} {n : Nat} {s s' : TransformState σ} :
    (rewriteUnit t path u s).value = (.ok (text, n), s') ↔
      match u.cut? with
      | none => text = u.text ∧ n = 0 ∧ s' = s
      | some parts => ∃ answer,
          (t parts.body s.translator).answer = .ok answer ∧
          text = parts.head ++ answer ++ parts.tail ∧ n = 1 ∧ s' = asking t parts.body s := by
  cases hcut : u.cut? with
  | none =>
    rw [rewriteUnit_whole path hcut, Action.value_pure]
    constructor
    · rintro ⟨⟩
      exact ⟨rfl, rfl, rfl⟩
    · rintro ⟨rfl, rfl, rfl⟩
      rfl
  | some parts =>
    obtain ⟨failure, hunit⟩ := rewriteUnit_cut (t := t) path hcut
    rw [hunit, Action.bind_eq_ok]
    constructor
    · rintro ⟨answer, s₁, htranslate, hpure⟩
      obtain ⟨hanswer, rfl⟩ := translate_eq_ok.mp htranslate
      cases hpure
      exact ⟨answer, hanswer, rfl, rfl, rfl⟩
    · rintro ⟨answer, hanswer, rfl, rfl, rfl⟩
      exact ⟨answer, _, translate_eq_ok.mpr ⟨hanswer, rfl⟩, rfl⟩

theorem rewriteUnits_cons_eq_ok {u : SourceUnit} {us : List SourceUnit} {text : String} {n : Nat}
    {s s' : TransformState σ} :
    (rewriteUnits t path (u :: us) s).value = (.ok (text, n), s') ↔
      ∃ first k s₁ rest m, (rewriteUnit t path u s).value = (.ok (first, k), s₁) ∧
        (rewriteUnits t path us s₁).value = (.ok (rest, m), s') ∧
        text = first ++ rest ∧ n = k + m := by
  rw [rewriteUnits, Action.bind_eq_ok]
  constructor
  · rintro ⟨⟨first, k⟩, s₁, hfirst, hrest⟩
    obtain ⟨⟨rest, m⟩, s₂, hrest, hpure⟩ := Action.bind_eq_ok.mp hrest
    cases hpure
    exact ⟨first, k, s₁, rest, m, hfirst, hrest, rfl, rfl⟩
  · rintro ⟨first, k, s₁, rest, m, hfirst, hrest, rfl, rfl⟩
    exact ⟨(first, k), s₁, hfirst, Action.bind_eq_ok.mpr ⟨(rest, m), s', hrest, rfl⟩⟩

theorem rewriteUnits_ok {us : List SourceUnit} {text : String} {n : Nat} {s s' : TransformState σ}
    (h : (rewriteUnits t path us s).value = (.ok (text, n), s')) :
    ∃ answers, Asked t s.translator (bodies us) answers s'.translator ∧
      text = weave (around us) answers ∧ n = (bodies us).length ∧
      s'.files = s.files ∧ s'.stats = s.stats := by
  induction us generalizing s text n with
  | nil =>
    cases h
    exact ⟨[], .nil _, rfl, rfl, rfl, rfl⟩
  | cons u us ih =>
    obtain ⟨first, k, s₁, rest, m, hfirst, hrest, rfl, rfl⟩ := (rewriteUnits_cons_eq_ok path).mp h
    obtain ⟨answers, hasked, rfl, rfl, hfiles, hstats⟩ := ih hrest
    rw [rewriteUnit_eq_ok] at hfirst
    cases hcut : u.cut? with
    | none =>
      rw [hcut] at hfirst
      obtain ⟨rfl, rfl, rfl⟩ := hfirst
      rw [SourceUnit.bodies_cons_of_whole hcut, SourceUnit.around_cons_of_whole hcut]
      exact ⟨answers, hasked, (weave_prepend _ _ _).symm, Nat.zero_add _, hfiles, hstats⟩
    | some parts =>
      rw [hcut] at hfirst
      obtain ⟨answer, hanswer, rfl, rfl, rfl⟩ := hfirst
      rw [SourceUnit.bodies_cons_of_cut hcut, SourceUnit.around_cons_of_cut hcut]
      refine ⟨answer :: answers, .cons hanswer hasked, ?_, Nat.add_comm _ _, hfiles, hstats⟩
      rw [weave_cons_cons, weave_prepend, ← String.append_assoc]

theorem rewriteUnits_of_asked {us : List SourceUnit} {s : TransformState σ} {answers : List String}
    {final : σ} (h : Asked t s.translator (bodies us) answers final) :
    ∃ text n s', (rewriteUnits t path us s).value = (.ok (text, n), s') := by
  induction us generalizing s answers with
  | nil => exact ⟨"", 0, s, rfl⟩
  | cons u us ih =>
    cases hcut : u.cut? with
    | none =>
      rw [SourceUnit.bodies_cons_of_whole hcut] at h
      obtain ⟨rest, m, s', hrest⟩ := ih h
      have hfirst : (rewriteUnit t path u s).value = (.ok (u.text, 0), s) := by
        rw [rewriteUnit_eq_ok, hcut]
        exact ⟨rfl, rfl, rfl⟩
      exact ⟨_, _, s', (rewriteUnits_cons_eq_ok path).mpr ⟨_, _, _, _, _, hfirst, hrest, rfl, rfl⟩⟩
    | some parts =>
      rw [SourceUnit.bodies_cons_of_cut hcut] at h
      cases h with
      | @cons _ _ _ answer _ answers hanswer hothers =>
        obtain ⟨rest, m, s', hrest⟩ := ih (s := asking t parts.body s) hothers
        have hfirst : (rewriteUnit t path u s).value =
            (.ok (parts.head ++ answer ++ parts.tail, 1), asking t parts.body s) := by
          rw [rewriteUnit_eq_ok, hcut]
          exact ⟨answer, hanswer, rfl, rfl, rfl⟩
        exact ⟨_, _, s', (rewriteUnits_cons_eq_ok path).mpr ⟨_, _, _, _, _, hfirst, hrest, rfl, rfl⟩⟩

theorem rewriteUnits_error {us : List SourceUnit} {e : Failure} {s s' : TransformState σ}
    (h : (rewriteUnits t path us s).value = (.error e, s')) :
    ∃ asked cause text, Refused t s.translator asked cause s'.translator ∧ asked <+: bodies us ∧
      e = .context text cause ∧ s'.files = s.files ∧ s'.stats = s.stats := by
  induction us generalizing s with
  | nil => cases h
  | cons u us ih =>
    rw [rewriteUnits] at h
    cases hcut : u.cut? with
    | none =>
      rw [rewriteUnit_whole path hcut, SourceUnit.bodies_cons_of_whole hcut] at *
      rcases Action.bind_cases h with ⟨e', herror, -⟩ | ⟨a, s₁, hok, hrest⟩
      · cases herror
      · cases hok
        rcases Action.bind_cases hrest with ⟨e', herror, he⟩ | ⟨b, s₂, -, hpure⟩
        · cases he
          exact ih herror
        · cases hpure
    | some parts =>
      obtain ⟨text, hunit⟩ := rewriteUnit_cut (t := t) path hcut
      rw [hunit] at h
      rw [SourceUnit.bodies_cons_of_cut hcut]
      rcases Action.bind_cases h with ⟨e', herror, he⟩ | ⟨a, s₁, hok, hrest⟩
      · cases he
        rcases Action.bind_cases herror with ⟨e', htranslate, he⟩ | ⟨a, s₁, -, hpure⟩
        · cases he
          obtain ⟨cause, hcause, rfl, rfl⟩ := translate_eq_error.mp htranslate
          exact ⟨[parts.body], cause, text, .here hcause, by simp, rfl, rfl, rfl⟩
        · cases hpure
      · obtain ⟨answer, s₂, htranslate, hpure⟩ := Action.bind_eq_ok.mp hok
        cases hpure
        obtain ⟨hanswer, rfl⟩ := translate_eq_ok.mp htranslate
        rcases Action.bind_cases hrest with ⟨e', herror, he⟩ | ⟨b, s₂, -, hpure⟩
        · cases he
          obtain ⟨asked, cause, text, hrefused, hasked, rfl, hfiles, hstats⟩ := ih herror
          exact ⟨parts.body :: asked, cause, text, .later hanswer hrefused,
            List.cons_prefix_cons.mpr ⟨rfl, hasked⟩, rfl, hfiles, hstats⟩
        · cases hpure

end Transformer
end FunctionPairs
