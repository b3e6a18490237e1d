import FunctionPairs.Proofs.Transformation.Naming
import FunctionPairs.Proofs.Transformation.Order
import FunctionPairs.Proofs.Transformation.Outcome

/-!
What a finished run has made of its input. A file that is rewritten comes after every entry that has
its new name, so that where several files go to one place, what lies there in the end is what the
last rewritten one has become, and a copy only where none is rewritten to it.
-/
namespace FunctionPairs

namespace Visit

def lastTo (r : List Name) (vs : List Visit) : Option Visit :=
  vs.reverse.find? fun v => v.isRewritten && v.target == r

/-- What the output is to hold at a place: what the last file rewritten to it has become, and where
there is none, what has become of the entry with the same place in the input. -/
def mirrored (r : List Name) (vs : List Visit) : Option Entry :=
  ((lastTo r vs).or (vs.find? fun v => !v.isRewritten && v.spot.names == r)).bind entry?

variable {r : List Name} {v : Visit} {vs : List Visit}

theorem lastTo_cons : lastTo r (v :: vs) =
    (lastTo r vs).or (if v.isRewritten && v.target == r then some v else none) := by
  rw [lastTo, List.reverse_cons, List.find?_append, List.find?_singleton]
  rfl

theorem lastTo_eq_none : lastTo r vs = none ↔ ∀ v ∈ vs, v.target = r → v.isRewritten = false := by
  simp only [lastTo, List.find?_eq_none, List.mem_reverse, Bool.and_eq_true, beq_iff_eq]
  grind

theorem lastTo_eq_some (h : lastTo r vs = some v) :
    v ∈ vs ∧ v.target = r ∧ v.isRewritten = true := by
  unfold lastTo at h
  have hmem := List.mem_of_find?_eq_some h
  rw [List.find?_eq_some_iff_append] at h
  have hsome := h.1
  rw [Bool.and_eq_true, beq_iff_eq] at hsome
  exact ⟨List.mem_reverse.mp hmem, hsome.2, hsome.1⟩

theorem target_of_not_rewritten (h : v.isRewritten = false) : v.target = v.spot.names := by
  obtain ⟨p, deed⟩ := v
  cases deed with
  | rewritten => cases h
  | _ => rfl

theorem isMade_of_directory (h : v.entry? = some .directory) :
    v.isMade = true ∧ v.target = v.spot.names := by
  obtain ⟨p, deed⟩ := v
  cases deed with
  | made => exact ⟨rfl, rfl⟩
  | _ => cases h

theorem isSome_entry_of_rewritten (h : v.isRewritten = true) : v.entry?.isSome = true := by
  obtain ⟨p, deed⟩ := v
  cases deed with
  | rewritten => rfl
  | _ => cases h

theorem outcome_eq_mirrored
    (h : vs.Pairwise fun v v' => v.target = v'.target → v'.isRewritten = true) :
    outcome r vs = mirrored r vs := by
  induction vs with
  | nil => rfl
  | cons v vs ih =>
    obtain ⟨hlater, hrest⟩ := List.pairwise_cons.mp h
    by_cases htarget : v.target = r
    -- behind a visit to this place there may only be files that are rewritten to it
    · cases hlast : lastTo r vs with
      | some w =>
        have hw := isSome_entry_of_rewritten (lastTo_eq_some hlast).2.2
        obtain ⟨e, he⟩ := Option.isSome_iff_exists.mp hw
        rw [outcome, ih hrest]
        simp [mirrored, lastTo_cons, hlast, he]
      | none =>
        have hnone : outcome r vs = none := by
          refine Option.eq_none_iff_forall_ne_some.mpr fun e he => ?_
          obtain ⟨x, hx, hxr, -⟩ := mem_of_outcome he
          have hnot := lastTo_eq_none.mp hlast x hx hxr
          rw [hlater x hx (htarget.trans hxr.symm)] at hnot
          cases hnot
        rw [outcome, hnone, mirrored, lastTo_cons, hlast, htarget]
        cases hv : v.isRewritten with
        | true => simp
        | false =>
          rw [target_of_not_rewritten hv] at htarget
          simp [hv, htarget]
    · have hhere : (v.isRewritten && v.target == r) = false := by simp [htarget]
      have hnot : (!v.isRewritten && v.spot.names == r) = false := by
        cases hv : v.isRewritten with
        | true => rfl
        | false => simpa [← target_of_not_rewritten hv] using htarget
      rw [outcome, ih hrest, if_neg htarget, Option.or_none, mirrored, mirrored, lastTo_cons, hhere,
        if_neg Bool.false_ne_true, Option.or_none, List.find?_cons_of_neg (by simp [hnot])]

end Visit

namespace Transformer

open FileSystem (Fills)

variable {σ : Type} {t : Transformer σ} {fs : FileSystem} {d : DirPair} {li lo : Location}
  {s s' : TransformState σ} {vs : List Visit}

theorem Trail.target_le (h : Trail t d li lo s vs s') :
    ∀ v ∈ vs, ∃ n, v.target = v.spot.above ++ [n] ∧ (n < v.spot.name ∨ n = v.spot.name) := by
  intro v hv
  have hanswered := h.answered v hv
  obtain ⟨p, deed⟩ := v
  cases deed with
  | rewritten k answers x => exact ⟨k.target, rfl, .inl (target_lt (hanswered k answers x rfl).task)⟩
  | _ => exact ⟨p.name, rfl, .inr rfl⟩

/-- A visit that goes where an earlier one went rewrites a file: an entry that keeps its name has
been met before all files that are rewritten to that name. -/
theorem Trail.succession (h : Trail t d li lo s vs s')
    (hascending : (vs.map Visit.spot).Pairwise fun p p' => p.above = p'.above → p.name < p'.name) :
    vs.Pairwise fun v v' => v.target = v'.target → v'.isRewritten = true := by
  rw [List.pairwise_map] at hascending
  refine hascending.imp_of_mem fun {v v'} hv _ hlt htarget => ?_
  by_contra hnot
  -- the later entry would have to keep a name that does not come after that of the earlier one
  obtain ⟨n, hn, hle⟩ := h.target_le v hv
  rw [hn, Visit.target_of_not_rewritten (Bool.not_eq_true _ ▸ hnot)] at htarget
  obtain ⟨habove, hname⟩ := List.append_inj' htarget rfl
  cases hname
  have hbefore := hlt habove
  rcases hle with hless | heq
  · exact List.lt_asymm hbefore hless
  · rw [heq] at hbefore
    exact List.lt_irrefl _ hbefore

theorem Trail.counted (h : Trail t d li lo s vs s') :
    s'.stats.filesTransformed = s.stats.filesTransformed + vs.countP Visit.isRewritten ∧
      s'.stats.filesTransformed + s'.stats.filesCopied =
        s.stats.filesTransformed + s.stats.filesCopied + vs.countP (·.contents?.isSome) ∧
      s'.stats.directories = s.stats.directories + vs.countP Visit.isMade := by
  induction h with
  | nil s => exact ⟨rfl, rfl, rfl⟩
  | @cons s s₁ s' v vs first rest ih =>
    obtain ⟨p, deed⟩ := v
    rw [first.stats] at ih
    simp only [List.countP_cons]
    cases deed <;>
      simp only [Visit.count, Visit.isRewritten, Visit.isMade, Visit.contents?] at ih ⊢ <;>
      simp <;> omega

theorem Trail.made (h : Trail t d li lo s vs s') (hplain : s.files.Plain lo) :
    ∀ v ∈ vs, v.isMade = true → s'.files.entryAt (lo ++ v.spot.names) = some .directory := by
  induction h with
  | nil s => exact nofun
  | @cons s s₁ s' v vs first rest ih =>
    have hplain₁ := (first.fills hplain).plain
    refine List.forall_mem_cons.mpr ⟨fun hmade => ?_, ih hplain₁⟩
    refine (rest.fills hplain₁).keeps _ _ ?_ rfl
    rw [first.entryAt hplain]
    obtain ⟨p, deed⟩ := v
    cases deed with
    | made => simp [Visit.target, Visit.entry?]
    | _ => cases hmade

section Beside

variable (hb : Beside fs d li lo)

include hb

theorem Beside.file_apart (hempty : ∀ r, r ≠ [] → fs.entryAt (lo ++ r) = none) {k : Location}
    {e : Entry} (he : fs.entryAt k = some e) (hfile : e.isFile = true) : ¬ lo <+: k := by
  rintro ⟨r, rfl⟩
  by_cases hr : r = []
  · rw [hr, List.append_nil, (FileSystem.find_eq_ok.mp hb.dest).2] at he
    cases he
    cases hfile
  · rw [hempty r hr] at he
    cases he

theorem Trail.genuine (hempty : ∀ r, r ≠ [] → fs.entryAt (lo ++ r) = none) (hm : Fills lo fs s.files)
    (h : Trail t d li lo s vs s') :
    ∀ v ∈ vs, ∀ contents, v.contents? = some contents →
      (∃ k x, fs.find true (d.source.descend v.spot.names) = .ok (k, .file contents x)) ∨
        fs.contains (d.source.descend v.spot.names) = false := by
  induction h with
  | nil s => exact nofun
  | @cons s s₁ s' v vs first rest ih =>
    have hm₁ := hm.trans (first.fills hm.plain)
    refine List.forall_mem_cons.mpr ⟨fun contents hcontents => ?_, ih hm₁⟩
    have hfound : ∃ l x, s.files.find true (d.source.descend v.spot.names) =
        .ok (l, .file contents x) := by
      have hdue := first.due
      obtain ⟨p, deed⟩ := v
      cases hdue with
      | made => cases hcontents
      | skipped => cases hcontents
      | @copied _ x hfound =>
        cases hcontents
        obtain ⟨l, hfile⟩ := hfound.file
        exact ⟨l, x, hfile⟩
      | @rewritten _ x _ _ _ hfound htask =>
        cases hcontents
        rw [(task?_eq_some.mp htask).2.2.2.2]
        obtain ⟨l, hfile⟩ := hfound.file
        exact ⟨l, x, hfile⟩
    obtain ⟨l, x, hfile⟩ := hfound
    rw [or_iff_not_imp_right, Bool.not_eq_false, FileSystem.contains_iff]
    rintro ⟨k, e, hthere⟩
    have hsame := hm.find hthere (hb.file_apart hempty (FileSystem.find_eq_ok.mp hthere).2)
    cases hsame.symm.trans hfile
    exact ⟨_, x, hthere⟩

theorem Trail.directories (hempty : ∀ r, r ≠ [] → fs.entryAt (lo ++ r) = none)
    (hs : s.files = fs) (h : Trail t d li lo s vs s')
    (hmade : ∀ v ∈ vs, v.isMade = fs.isDirectoryAt (li ++ v.spot.names))
    (hall : ∀ p, p ∈ vs.map Visit.spot ↔ fs.entryAt (li ++ p.names) ≠ none) (r : List Name) :
    s'.files.entryAt (lo ++ r) = some .directory ↔ fs.entryAt (li ++ r) = some .directory := by
  have hplain : s.files.Plain lo := hs ▸ hb.plain
  rcases List.eq_nil_or_concat r with rfl | ⟨r, n, rfl⟩
  · have hdest := (FileSystem.find_eq_ok.mp hb.dest).2
    rw [List.append_nil, List.append_nil, (FileSystem.find_eq_ok.mp hb.source).2]
    exact iff_of_true ((h.fills hplain).keeps _ _ (hs ▸ hdest) rfl) rfl
  · rw [List.concat_eq_append]
    constructor
    · intro hdir
      rw [h.entryAt hplain, hs, hempty _ (by simp), Option.or_none] at hdir
      obtain ⟨v, hv, htarget, hentry⟩ := Visit.mem_of_outcome hdir
      obtain ⟨hdone, hnames⟩ := Visit.isMade_of_directory hentry
      rw [hmade v hv, ← hnames, htarget, FileSystem.isDirectoryAt_iff] at hdone
      exact hdone
    · intro hdir
      have hthere : (⟨r, n⟩ : Spot) ∈ vs.map Visit.spot := by
        rw [hall]
        exact fun hnone => nomatch hnone.symm.trans hdir
      obtain ⟨v, hv, hspot⟩ := List.mem_map.mp hthere
      have hdone := h.made hplain v hv ?_
      · rwa [hspot] at hdone
      · rw [hmade v hv, hspot, FileSystem.isDirectoryAt_iff]
        exact hdir

end Beside

/-- What has become of an entry of the input, for what was there when the run began. A file, or a
link to one, is seen with its bytes; what is seen was there, unless it was put into the output in the
meantime and a link leads to it. It is copied under its own name, or rewritten, and then its name has
the first source suffix in the place of the suffix that it had. -/
structure Faithful (t : Transformer σ) (fs : FileSystem) (input : Path) (v : Visit) : Prop where
  seen : ∀ k contents x, fs.find true (input.descend v.spot.names) = .ok (k, .file contents x) →
    v.contents? = some contents
  genuine : ∀ contents, v.contents? = some contents →
    (∃ k x, fs.find true (input.descend v.spot.names) = .ok (k, .file contents x)) ∨
      fs.contains (input.descend v.spot.names) = false
  copied : v.isRewritten = false → ∀ contents, v.contents? = some contents →
    v.target = v.spot.names ∧ ∃ x, v.entry? = some (.file contents x)
  rewritten : ∀ k answers x, v.deed = .rewritten k answers x →
    Answered t v.spot k answers ∧
    ∃ stem extension, k.model.lang.matchingExtension k.role k.text = some extension ∧
      v.spot.name = Utf8.encode (stem ++ extension) ∧
      v.target = v.spot.above ++ [Utf8.encode (stem ++ k.model.lang.primaryExtension)]

section Run

variable {input output : Path} {force : Bool} {stats : TransformStats}

theorem Trail.faithful (hb : Beside fs ⟨input, output⟩ li lo)
    (hempty : ∀ r, r ≠ [] → fs.entryAt (lo ++ r) = none) (hm : Fills lo fs s.files)
    (h : Trail t ⟨input, output⟩ li lo s vs s') : ∀ v ∈ vs, Faithful t fs input v := by
  intro v hv
  refine ⟨fun k contents x hfind => ?_, h.genuine hb hempty hm v hv,
    fun hnot contents => v.copied_of_contents hnot, fun k answers x hdeed => ?_⟩
  · have hk := hb.file_apart hempty (FileSystem.find_eq_ok.mp hfind).2 rfl
    exact h.contents hb hm v hv k contents x hfind hk
  · have hanswered := h.answered v hv k answers x hdeed
    obtain ⟨stem, extension, hextension, hname, htarget⟩ := task?_naming hanswered.task
    refine ⟨hanswered, stem, extension, hextension, hname, ?_⟩
    rw [Visit.target, hdeed, ← htarget]

/-- A run that succeeds has visited every entry of the input, those of one directory in ascending
order. If nothing was in the output when it was made, it holds at every place what the last file
rewritten to it has become, or else the copy of the file with the same place in the input; it has
the directories of the input and no others. The files rewritten or copied are those seen, and the
directories counted those below the input. -/
theorem transformDirectory_mirrors (t : Transformer σ) (hbegun : Begun s input output force fs li lo)
    (hempty : ∀ r, r ≠ [] → fs.entryAt (lo ++ r) = none)
    (hrun : (transformDirectory t input output force s).value = (.ok stats, s')) :
    ∃ visits,
      fs.tour li [] = visits.map Visit.spot ∧
      (visits.Pairwise fun v v' => v.spot.above = v'.spot.above → v.spot.name < v'.spot.name) ∧
      (∀ p, p ∈ visits.map Visit.spot ↔ fs.entryAt (li ++ p.names) ≠ none) ∧
      (∀ v ∈ visits, Faithful t fs input v) ∧
      (∀ r, r ≠ [] → s'.files.entryAt (lo ++ r) = Visit.mirrored r visits) ∧
      (∀ r, s'.files.entryAt (lo ++ r) = some .directory ↔
        fs.entryAt (li ++ r) = some .directory) ∧
      stats.filesTransformed = visits.countP Visit.isRewritten ∧
      stats.filesTransformed + stats.filesCopied = visits.countP (·.contents?.isSome) ∧
      stats.directories = (fs.tour li []).countP fun p => fs.isDirectoryAt (li ++ p.names) := by
  have hb := hbegun.beside hempty
  have hm : Fills lo fs (entering s fs).files := .refl hb.plain
  obtain ⟨hcourse, hi, hstats⟩ := transformDirectory_course hbegun hrun
  rw [hstats stats rfl]
  cases hcourse with
  | @finished visits _ _ trail hspots =>
    rw [hb.filter_visits hm trail] at hspots
    have hascending : (fs.tour li []).Pairwise fun p p' => p.above = p'.above → p.name < p'.name :=
      FileSystem.tour_ascending hb.sound hb.distinct []
    rw [hspots] at hascending
    have hmade := trail.made_iff (.refl hb.sound) hi
    have hentry : ∀ r, r ≠ [] → s'.files.entryAt (lo ++ r) = Visit.mirrored r visits := by
      intro r hr
      have hold : (entering s fs).files.entryAt (lo ++ r) = none := hempty r hr
      rw [trail.entryAt hb.plain, hold, Option.or_none,
        Visit.outcome_eq_mirrored (trail.succession hascending)]
    have hmem : ∀ p, p ∈ visits.map Visit.spot ↔ fs.entryAt (li ++ p.names) ≠ none := by
      intro p
      rw [← hspots, FileSystem.mem_tour hb.sound]
      exact and_iff_right List.nil_prefix
    obtain ⟨htransformed, hfiles, hdirectories⟩ := trail.counted
    refine ⟨visits, hspots, List.pairwise_map.mp hascending, hmem, trail.faithful hb hempty hm,
      hentry, trail.directories hb hempty rfl hmade hmem, ?_, ?_, ?_⟩
    · exact htransformed.trans (Nat.zero_add _)
    · exact hfiles.trans (Nat.zero_add _)
    · rw [hdirectories, hspots, List.countP_map]
      refine (Nat.zero_add _).trans (List.countP_congr fun v hv => ?_)
      rw [hmade v hv]
      rfl

theorem transformDirectory_mirrors_layered :
    ∃ (stats : TransformStats) (s' : TransformState (List String)) (visits : List Visit),
      (transformDirectory doubling (.ofString "in") (.ofString "out") false
        ⟨layered, .zero, [], .clear⟩).value = (.ok stats, s') ∧
      visits.map (Spot.name ∘ Visit.spot) =
        [Utf8.encode "f.c", Utf8.encode "f.o.c", Utf8.encode "sub", Utf8.encode "g.o.c"] ∧
      Visit.mirrored [Utf8.encode "f.c"] visits =
        some (.file (Utf8.encode "//\uFFFD\nint f()\x7b1;1;\x7d\n") false) ∧
      visits.countP Visit.isRewritten = 2 ∧ visits.countP (·.contents?.isSome) = 3 := by
  have hok : (transformDirectory doubling (.ofString "in") (.ofString "out") false
      ⟨layered, .zero, [], .clear⟩).value.1 = .ok ⟨2, 2, 1, 1⟩ := by cbv
  have hrun : (transformDirectory doubling (.ofString "in") (.ofString "out") false
      ⟨layered, .zero, [], .clear⟩).value = (.ok ⟨2, 2, 1, 1⟩, _) := Prod.ext hok rfl
  obtain ⟨visits, htour, -, -, -, hmirrored, -, htransformed, hfiles, -⟩ :=
    transformDirectory_mirrors doubling (begun_layered rfl) (fun _ => empty_layered) hrun
  refine ⟨_, _, visits, hrun, ?_, ?_, htransformed.symm, hfiles.symm⟩
  · have hnames := congrArg (List.map Spot.name) htour
    rw [List.map_map] at hnames
    exact hnames.symm.trans (by cbv)
  · rw [← hmirrored _ (by simp)]
    cbv

/-- Where the output goes up from what is missing, it is taken for a fresh one although something is
in it, and that stays there beside what the input has. -/
theorem transformDirectory_mingled :
    ∃ s', (transformDirectory copying (.ofString "in") (.ofString "out/new/../../out") false
        ⟨Places.neighbours, .zero, (), .clear⟩).value = (.ok ⟨0, 0, 1, 0⟩, s') ∧
      s'.files.find true (.ofString "in") = .ok ([Utf8.encode "in"], .directory) ∧
      s'.files.find true (.ofString "out/new/../../out") =
        .ok ([Utf8.encode "out"], .directory) ∧
      s'.files.entryAt [Utf8.encode "in", Utf8.encode "old"] = none ∧
      s'.files.entryAt [Utf8.encode "out", Utf8.encode "old"] = some (.file [] false) := by
  have hok : (transformDirectory copying (.ofString "in") (.ofString "out/new/../../out") false
      ⟨Places.neighbours, .zero, (), .clear⟩).value.1 = .ok ⟨0, 0, 1, 0⟩ := by cbv
  exact ⟨_, Prod.ext hok rfl, by cbv, by cbv, by cbv, by cbv⟩

end Run

end Transformer
end FunctionPairs
