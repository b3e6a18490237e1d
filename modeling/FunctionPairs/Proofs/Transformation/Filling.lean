import FunctionPairs.Proofs.Action
import FunctionPairs.Proofs.FileSystem.Placement
import FunctionPairs.Transformation.State

/-!
Steps of a transformation that change nothing but one tree of the file system, and put neither
links into it nor take directories away.
-/
namespace FunctionPairs

open FileSystem (Fills)

variable {σ α β : Type} {fs : FileSystem} {top : Location}

namespace TransformStep

def Quiet (m : TransformStep σ α) : Prop := ∀ s, (m s).value.2.files = s.files

/-- Started on these files, the step changes only the tree at `top`, and what it returns stands in
this relation to the files that it leaves. -/
def Filling (fs : FileSystem) (top : Location) (m : TransformStep σ α)
    (post : α → FileSystem → Prop) : Prop :=
  ∀ s, s.files = fs → Fills top fs (m s).value.2.files ∧
    ∀ a, (m s).value.1 = .ok a → post a (m s).value.2.files

section Quiet

theorem quiet_pure (a : α) : Quiet (pure a : TransformStep σ α) := fun _ => rfl

theorem quiet_say (level : Level) (message : String) :
    Quiet (say level message : TransformStep σ Unit) := fun _ => rfl

theorem quiet_files : Quiet (files : TransformStep σ FileSystem) := fun _ => rfl

theorem quiet_stats : Quiet (stats : TransformStep σ TransformStats) := fun _ => rfl

theorem quiet_countWith (f : TransformStats → TransformStats) :
    Quiet (countWith f : TransformStep σ Unit) := fun _ => rfl

theorem quiet_ofLogged (l : Logged α) : Quiet (Action.ofLogged l : TransformStep σ α) := fun _ => rfl

theorem quiet_ofExcept (x : Except Failure α) : Quiet (Action.ofExcept x : TransformStep σ α) := by
  intro s
  cases x <;> rfl

theorem quiet_poll : Quiet (poll : TransformStep σ Unit) := by
  intro s
  unfold poll
  split <;> rfl

theorem quiet_translate (t : Translator σ) (text body : String) :
    Quiet (translate t text body) := by
  intro s
  unfold translate
  dsimp only
  split <;> rfl

theorem Quiet.bind {m : TransformStep σ α} {f : α → TransformStep σ β} (hm : Quiet m)
    (hf : ∀ a, Quiet (f a)) : Quiet (m >>= f) := by
  intro s
  have htrans : ∀ s s' s'' : TransformState σ, s'.files = s.files → s''.files = s'.files →
      s''.files = s.files := fun _ _ _ h h' => h'.trans h
  exact Action.bind_related htrans (hm s) fun a s' _ => hf a s'

end Quiet

section Filling

variable {m : TransformStep σ α} {f : α → TransformStep σ β} {post post' : α → FileSystem → Prop}
  {after : β → FileSystem → Prop}

theorem Filling.of_quiet (hfs : fs.Plain top) (hm : Quiet m) :
    Filling fs top m fun _ fs' => fs' = fs := by
  rintro s rfl
  rw [hm s]
  exact ⟨.refl hfs, fun _ _ => rfl⟩

theorem Filling.pure (hfs : fs.Plain top) {a : α} (ha : post a fs) :
    Filling fs top (Pure.pure a : TransformStep σ α) post := by
  rintro s rfl
  refine ⟨.refl hfs, fun b hb => ?_⟩
  cases hb
  exact ha

theorem Filling.imp (h : Filling fs top m post)
    (himp : ∀ a fs', Fills top fs fs' → post a fs' → post' a fs') : Filling fs top m post' := by
  intro s hs
  obtain ⟨hfills, hpost⟩ := h s hs
  exact ⟨hfills, fun a ha => himp a _ hfills (hpost a ha)⟩

theorem Filling.bind (hm : Filling fs top m post)
    (hf : ∀ a fs', Fills top fs fs' → post a fs' → Filling fs' top (f a) after) :
    Filling fs top (m >>= f) after := by
  intro s hs
  obtain ⟨hfills, hpost⟩ := hm s hs
  cases h : (m s).value with
  | mk outcome s' =>
    rw [h] at hfills hpost
    cases outcome with
    | error e =>
      rw [Action.value_bind_of_error h]
      exact ⟨hfills, nofun⟩
    | ok a =>
      rw [Action.value_bind_of_ok h]
      obtain ⟨hfills', hafter⟩ := hf a s'.files hfills (hpost a rfl) s' rfl
      exact ⟨hfills.trans hfills', hafter⟩

theorem Filling.quiet_bind (hfs : fs.Plain top) (hm : Quiet m)
    (hf : ∀ a, Filling fs top (f a) after) : Filling fs top (m >>= f) after := by
  refine (Filling.of_quiet hfs hm).bind fun a fs' _ hfs' => ?_
  rw [hfs']
  exact hf a

theorem Filling.files_bind {f : FileSystem → TransformStep σ β} (hf : Filling fs top (f fs) after) :
    Filling fs top (files >>= f) after := by
  rintro s rfl
  exact hf s rfl

theorem Filling.change {text : String} {f : FileSystem → Except SystemError FileSystem}
    (hfs : fs.Plain top) {post : FileSystem → Prop}
    (hf : ∀ fs', f fs = .ok fs' → Fills top fs fs' ∧ post fs') :
    Filling fs top (change text f : TransformStep σ Unit) fun _ => post := by
  rintro s rfl
  unfold TransformStep.change
  cases h : f s.files with
  | error e => exact ⟨.refl hfs, nofun⟩
  | ok fs' => exact ⟨(hf fs' h).1, fun _ _ => (hf fs' h).2⟩

end Filling

end TransformStep

end FunctionPairs
