import FunctionPairs.Proofs.Transformation.Course

/-!
A translator that answers whatever it is asked and never asks for a stop. With it every body gets
its answer, and a stop signal that is clear when a run begins stays clear.
-/
namespace FunctionPairs

variable {σ α β : Type}

/-- Answers every body and lets the run go on. -/
structure Translator.Willing (t : Translator σ) : Prop where
  answers : ∀ body state, ∃ a, (t body state).answer = .ok a
  goes_on : ∀ body state, (t body state).stop = false

theorem Translator.Willing.exists_asked {t : Translator σ} (h : t.Willing) (state : σ)
    (bodies : List String) : ∃ answers final, Asked t state bodies answers final := by
  induction bodies generalizing state with
  | nil => exact ⟨[], state, .nil state⟩
  | cons body bodies ih =>
    obtain ⟨a, ha⟩ := h.answers body state
    obtain ⟨answers, final, hrest⟩ := ih (t body state).state
    exact ⟨a :: answers, final, .cons ha hrest⟩

namespace TransformStep

def Calm (m : TransformStep σ α) : Prop :=
  ∀ s, s.interrupt = .clear → (m s).value.2.interrupt = .clear

theorem calm_pure (a : α) : Calm (pure a : TransformStep σ α) := fun _ h => h

theorem calm_say (level : Level) (message : String) :
    Calm (say level message : TransformStep σ Unit) := fun _ h => h

theorem calm_files : Calm (files : TransformStep σ FileSystem) := fun _ h => h

theorem calm_stats : Calm (stats : TransformStep σ TransformStats) := fun _ h => h

theorem calm_countWith (f : TransformStats → TransformStats) :
    Calm (countWith f : TransformStep σ Unit) := fun _ h => h

theorem calm_ofLogged (l : Logged α) : Calm (Action.ofLogged l : TransformStep σ α) := fun _ h => h

theorem calm_ofExcept (x : Except Failure α) : Calm (Action.ofExcept x : TransformStep σ α) := by
  intro s h
  cases x <;> exact h

theorem calm_change (text : String) (f : FileSystem → Except SystemError FileSystem) :
    Calm (change text f : TransformStep σ Unit) := by
  intro s h
  unfold change
  split <;> exact h

theorem poll_of_clear {s : TransformState σ} (h : s.interrupt = .clear) :
    (poll s).value = (.ok (), s) := by
  unfold poll
  rw [h]
  show (Except.ok (), { s with interrupt := .clear }) = _
  rw [← h]

theorem calm_poll : Calm (poll : TransformStep σ Unit) := by
  intro s h
  rw [poll_of_clear h]
  exact h

theorem calm_translate {t : Translator σ} (ht : t.Willing) (text body : String) :
    Calm (translate t text body) := by
  intro s h
  unfold translate
  dsimp only
  split <;> simpa [ht.goes_on] using h

theorem Calm.bind {m : TransformStep σ α} {f : α → TransformStep σ β} (hm : Calm m)
    (hf : ∀ a, Calm (f a)) : Calm (m >>= f) := by
  intro s hs
  have htrans : ∀ s s' s'' : TransformState σ, (s.interrupt = .clear → s'.interrupt = .clear) →
      (s'.interrupt = .clear → s''.interrupt = .clear) →
        s.interrupt = .clear → s''.interrupt = .clear := fun _ _ _ h h' => h' ∘ h
  exact Action.bind_related htrans (hm s) (fun a s' _ => hf a s') hs

end TransformStep

namespace Transformer

open TransformStep (Calm)

variable {path copyDest dest source toDir : Path} {name : Name}

theorem calm_warnIfPresent : Calm (warnIfPresent source dest : TransformStep σ Unit) := by
  refine TransformStep.calm_files.bind fun fs => ?_
  split_ifs
  · exact TransformStep.calm_say _ _
  · exact TransformStep.calm_pure _

theorem calm_copyFile : Calm (copyFile source dest : TransformStep σ Unit) := by
  refine calm_warnIfPresent.bind fun _ => ?_
  refine (TransformStep.calm_change _ _).bind fun _ => ?_
  exact TransformStep.calm_countWith _

section Translator

variable {t : Translator σ} (ht : t.Willing)

include ht

theorem calm_rewriteUnit (u : SourceUnit) : Calm (rewriteUnit t path u) := by
  cases u with
  | other text => exact TransformStep.calm_pure _
  | function f =>
    unfold rewriteUnit
    dsimp only
    split_ifs
    · exact (TransformStep.calm_translate ht _ _).bind fun _ => TransformStep.calm_pure _
    · exact TransformStep.calm_pure _

theorem calm_rewriteUnits (units : List SourceUnit) : Calm (rewriteUnits t path units) := by
  induction units with
  | nil => exact TransformStep.calm_pure _
  | cons u units ih =>
    refine (calm_rewriteUnit ht u).bind fun _ => ?_
    exact ih.bind fun _ => TransformStep.calm_pure _

theorem calm_writeUnits (units : List SourceUnit) : Calm (writeUnits t path dest units) := by
  refine (calm_rewriteUnits ht units).bind fun _ => ?_
  refine calm_warnIfPresent.bind fun _ => ?_
  refine (TransformStep.calm_change _ _).bind fun _ => ?_
  exact (TransformStep.calm_say _ _).bind fun _ => TransformStep.calm_countWith _

theorem calm_transformText (m : LanguageModel) : Calm (transformText t m path copyDest dest) := by
  refine TransformStep.calm_files.bind fun fs => ?_
  refine (TransformStep.calm_ofLogged _).bind fun units => ?_
  cases units with
  | ok units => exact calm_writeUnits ht units
  | error e => exact (TransformStep.calm_ofLogged _).bind fun _ => calm_copyFile

end Translator

section Run

variable {t : Transformer σ} (ht : t.translator.Willing)

include ht

theorem calm_transformClaimed (m : LanguageModel) (role : FileRole) (text : String) :
    Calm (transformClaimed t m role text path copyDest toDir) := by
  cases role with
  | source => exact calm_transformText ht m
  | decompiled => exact calm_transformText ht m
  | bytecode =>
    refine TransformStep.calm_files.bind fun fs => ?_
    refine (TransformStep.calm_ofExcept _).bind fun bytes => ?_
    split_ifs
    · exact (TransformStep.calm_say _ _).bind fun _ => calm_copyFile
    · exact calm_transformText ht m

theorem calm_transformFile : Calm (transformFile t path name toDir) := by
  unfold transformFile
  dsimp only
  split
  · exact (TransformStep.calm_say _ _).bind fun _ => calm_copyFile
  · split
    · exact calm_copyFile
    · refine TransformStep.calm_stats.bind fun stats => ?_
      split_ifs
      · exact (TransformStep.calm_say _ _).bind fun _ => calm_copyFile
      · exact calm_transformClaimed ht _ _ _

theorem calm_transformEntry (d : DirPair) (name : Name) : Calm (transformEntry t d name) := by
  refine TransformStep.calm_files.bind fun fs => ?_
  refine (TransformStep.calm_ofExcept _).bind fun entry => ?_
  split_ifs
  · refine (TransformStep.calm_change _ _).bind fun _ => ?_
    exact (TransformStep.calm_countWith _).bind fun _ => TransformStep.calm_pure _
  · refine TransformStep.calm_poll.bind fun _ => ?_
    exact (calm_transformFile ht).bind fun _ => TransformStep.calm_pure _
  · exact (TransformStep.calm_say _ _).bind fun _ => TransformStep.calm_pure _

theorem Trail.calm {d : DirPair} {li lo : Location} {s s' : TransformState σ} {vs : List Visit}
    (h : Trail t d li lo s vs s') (hs : s.interrupt = .clear) : s'.interrupt = .clear := by
  induction h with
  | nil s => exact hs
  | @cons s s₁ s' v vs first rest ih =>
    obtain ⟨below, hrun⟩ := first.run
    have hcalm := calm_transformEntry ht (d.descend v.spot.above) v.spot.name s hs
    rw [hrun] at hcalm
    exact ih hcalm

end Run

end Transformer
end FunctionPairs
