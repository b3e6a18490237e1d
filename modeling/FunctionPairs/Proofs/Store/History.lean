import FunctionPairs.Proofs.Logged
import FunctionPairs.Proofs.Store.Insertion

/-!
A store as the outcome of a history of files handed to it. Each side holds, under every identity,
the body of the last function with that identity that a successful call brought to the side; what
is built at the end is fixed by these two assignments alone. So neither failed calls nor the way
in which the calls of the two sides alternate have any bearing on it.
-/
namespace FunctionPairs.ExampleStore

/-- A file handed to a side of a store, with the files as they are at that moment. -/
structure Call where
  files : FileSystem
  side : Side
  path : Path

def Call.scraped (m : LanguageModel) (c : Call) : Except ScrapeError (List Function) :=
  match c.side with
  | .source => (m.scrapeFunctions c.files c.path).value
  | .decompiled => (Decompiled.scrape c.files c.path).value

def Call.brought (m : LanguageModel) (which : Side) (c : Call) : List (Path × Function) :=
  if c.side = which then
    match c.scraped m with
    | .ok fs => fs.map fun f => (c.path, f)
    | .error _ => []
  else []

def delivered (m : LanguageModel) (which : Side) (calls : List Call) : List (Path × Function) :=
  calls.flatMap (Call.brought m which)

def lastBody (m : LanguageModel) (root : Path) (ds : List (Path × Function)) (key : String) :
    Option String :=
  ((ds.filter fun d => d.2.hasBody && m.identity.identity root d.1 d.2.name == key).getLast?).map
    fun d => bodyOf d.2

def step (s : ExampleStore) (c : Call) : ExampleStore :=
  match (s.add c.files c.side c.path).value with
  | .ok (_, next) => next
  | .error _ => s

def run (s : ExampleStore) (calls : List Call) : ExampleStore := calls.foldl step s

/-- What is built from an assignment of bodies to identities on either side: the bodies of the
identities that both sides have, and the identities that only one of them has, all ascending. -/
structure Prescribed (source decompiled : String → Option String) (b : BuiltExamples) : Prop where
  pairs : ∃ ids : List String, ids.Pairwise (· < ·) ∧
    (∀ i, i ∈ ids ↔ (source i).isSome ∧ (decompiled i).isSome) ∧
    b.pairs.map (Prod.map some some) = ids.map fun i => (source i, decompiled i)
  missingSources_ascending : b.missingSources.Pairwise (· < ·)
  mem_missingSources : ∀ i, i ∈ b.missingSources ↔ source i = none ∧ (decompiled i).isSome
  missingDecompileds_ascending : b.missingDecompileds.Pairwise (· < ·)
  mem_missingDecompileds : ∀ i, i ∈ b.missingDecompileds ↔ (source i).isSome ∧ decompiled i = none

theorem Prescribed.unique {source decompiled : String → Option String} {b b' : BuiltExamples}
    (h : Prescribed source decompiled b) (h' : Prescribed source decompiled b') : b = b' := by
  obtain ⟨ids, hids, hmem, hpairs⟩ := h.pairs
  obtain ⟨ids', hids', hmem', hpairs'⟩ := h'.pairs
  have hi : ids = ids' := hids.eq_of_mem_iff hids' fun i => (hmem i).trans (hmem' i).symm
  have hp : b.pairs = b'.pairs := by
    have hinj : Function.Injective (Prod.map (some : String → _) (some : String → _)) :=
      (Option.some_injective _).prodMap (Option.some_injective _)
    apply List.map_injective_iff.mpr hinj
    rw [hpairs, hpairs', hi]
  have hs : b.missingSources = b'.missingSources :=
    h.missingSources_ascending.eq_of_mem_iff h'.missingSources_ascending fun i =>
      (h.mem_missingSources i).trans (h'.mem_missingSources i).symm
  have hd : b.missingDecompileds = b'.missingDecompileds :=
    h.missingDecompileds_ascending.eq_of_mem_iff h'.missingDecompileds_ascending fun i =>
      (h.mem_missingDecompileds i).trans (h'.mem_missingDecompileds i).symm
  cases b
  cases b'
  simp only [BuiltExamples.mk.injEq]
  exact ⟨hp, hs, hd⟩

theorem lastBody_append (m : LanguageModel) (root : Path) (ds es : List (Path × Function))
    (key : String) :
    lastBody m root (ds ++ es) key = (lastBody m root es key).or (lastBody m root ds key) := by
  unfold lastBody
  rw [List.filter_append, List.getLast?_append]
  cases (es.filter _).getLast? <;> rfl

theorem lastBody_singleton (m : LanguageModel) (root path : Path) (f : Function) (key : String) :
    lastBody m root [(path, f)] key =
      if f.hasBody && m.identity.identity root path f.name == key then some (bodyOf f) else none := by
  unfold lastBody
  rw [List.filter_singleton]
  cases f.hasBody && m.identity.identity root path f.name == key <;> rfl

theorem get?_insert_side (s : ExampleStore) (which : Side) (path : Path) (fs : List Function)
    (key : String) :
    Catalog.get? ((s.insert which path fs).2.side which) key =
      (lastBody s.model s.root (fs.map fun f => (path, f)) key).or
        (Catalog.get? (s.side which) key) := by
  induction fs generalizing s with
  | nil => rfl
  | cons f fs ih =>
    have hsplit : (f :: fs).map (fun f => (path, f)) =
        [(path, f)] ++ fs.map fun f => (path, f) := rfl
    rw [hsplit, lastBody_append, lastBody_singleton, Option.or_assoc]
    unfold insert
    by_cases hb : f.hasBody = true
    · rw [if_pos hb]
      refine (ih (s.insertOne which path f).2).trans ?_
      rw [insertOne_model, insertOne_root, insertOne_side, if_pos rfl, Catalog.get?_insert, hb,
        Bool.true_and]
      refine congrArg (Option.or _) ?_
      by_cases hk : key = s.identityOf path f
      · rw [if_pos hk, if_pos (by simpa [identityOf] using hk.symm)]
        rfl
      · rw [if_neg hk, if_neg (by simpa [identityOf] using Ne.symm hk)]
        rfl
    · rw [if_neg hb, ih s]
      simp [hb]

theorem insert_side_other (s : ExampleStore) {which w : Side} (h : w ≠ which) (path : Path)
    (fs : List Function) : (s.insert which path fs).2.side w = s.side w :=
  s.insert_invariant which path (P := fun t => t.side w = s.side w)
    (fun t f ht => by rw [insertOne_side, if_neg h, ht]) fs rfl

theorem add_value (s : ExampleStore) (files : FileSystem) (which : Side) (path : Path) :
    (s.add files which path).value =
      (Call.scraped s.model ⟨files, which, path⟩).map (s.insert which path) := by
  have hs : (s.scrape files which path).value = Call.scraped s.model ⟨files, which, path⟩ := by
    cases which <;> rfl
  unfold add
  rw [Logged.value_bind, hs]
  cases Call.scraped s.model ⟨files, which, path⟩ <;> rfl

theorem step_eq (s : ExampleStore) (c : Call) :
    s.step c = match c.scraped s.model with
      | .ok fs => (s.insert c.side c.path fs).2
      | .error _ => s := by
  unfold step
  rw [add_value]
  cases c.scraped s.model <;> rfl

theorem step_invariant {P : ExampleStore → Prop} {s : ExampleStore} (c : Call) (h : P s)
    (hinsert : ∀ fs, P (s.insert c.side c.path fs).2) : P (s.step c) := by
  rw [step_eq]
  cases c.scraped s.model with
  | error e => exact h
  | ok fs => exact hinsert fs

theorem step_model (s : ExampleStore) (c : Call) : (s.step c).model = s.model :=
  step_invariant (P := fun t => t.model = s.model) c rfl fun fs => s.insert_model _ _ fs

theorem step_root (s : ExampleStore) (c : Call) : (s.step c).root = s.root :=
  step_invariant (P := fun t => t.root = s.root) c rfl fun fs => s.insert_root _ _ fs

theorem Tallied.step {s : ExampleStore} (h : s.Tallied) (c : Call) : (s.step c).Tallied :=
  step_invariant c h fun fs => h.insert _ _ fs

theorem le_step_matched (s : ExampleStore) (c : Call) : s.matched ≤ (s.step c).matched :=
  step_invariant (P := fun t => s.matched ≤ t.matched) c le_rfl fun fs => s.le_insert_matched _ _ fs

theorem get?_step_side (s : ExampleStore) (c : Call) (which : Side) (key : String) :
    Catalog.get? ((s.step c).side which) key =
      (lastBody s.model s.root (c.brought s.model which) key).or
        (Catalog.get? (s.side which) key) := by
  rw [step_eq]
  unfold Call.brought
  by_cases hw : c.side = which
  · subst hw
    rw [if_pos rfl]
    cases c.scraped s.model with
    | error e => rfl
    | ok fs => exact s.get?_insert_side c.side c.path fs key
  · rw [if_neg hw]
    cases c.scraped s.model with
    | error e => rfl
    | ok fs =>
      show Catalog.get? ((s.insert c.side c.path fs).2.side which) key = _
      rw [s.insert_side_other (Ne.symm hw)]
      rfl

theorem run_cons (s : ExampleStore) (c : Call) (calls : List Call) :
    s.run (c :: calls) = (s.step c).run calls := rfl

theorem Tallied.run {s : ExampleStore} (h : s.Tallied) (calls : List Call) :
    (s.run calls).Tallied := by
  induction calls generalizing s with
  | nil => exact h
  | cons c calls ih => exact ih (h.step c)

theorem get?_run_side (s : ExampleStore) (calls : List Call) (which : Side) (key : String) :
    Catalog.get? ((s.run calls).side which) key =
      (lastBody s.model s.root (delivered s.model which calls) key).or
        (Catalog.get? (s.side which) key) := by
  induction calls generalizing s with
  | nil => rfl
  | cons c calls ih =>
    rw [run_cons, ih (s.step c), get?_step_side, step_model, step_root]
    unfold delivered
    rw [List.flatMap_cons, lastBody_append, Option.or_assoc]

theorem Tallied.prescribed {s : ExampleStore} (h : s.Tallied) :
    Prescribed (Catalog.get? s.sources) (Catalog.get? s.decompileds) s.built where
  pairs := by
    refine ⟨s.decompileds.keys.filter s.sources.contains, (h.ascending .decompiled).filter _, ?_, ?_⟩
    · intro i
      rw [List.mem_filter, Catalog.mem_keys_iff]
      exact and_comm
    · exact pairs_eq (h.ascending .decompiled)
  missingSources_ascending := (h.ascending .decompiled).filter _
  mem_missingSources i := by
    show i ∈ s.decompileds.keys.filter (!s.sources.contains ·) ↔ _
    rw [List.mem_filter, Catalog.mem_keys_iff]
    unfold Catalog.contains
    cases Catalog.get? s.sources i <;> simp
  missingDecompileds_ascending := (h.ascending .source).filter _
  mem_missingDecompileds i := by
    show i ∈ s.sources.keys.filter (!s.decompileds.contains ·) ↔ _
    rw [List.mem_filter, Catalog.mem_keys_iff]
    unfold Catalog.contains
    cases Catalog.get? s.decompileds i <;> simp

/-- What is built after any history of calls is what the delivered functions prescribe, whatever
failed in between; and it is the same for every history that delivers the same functions to
either side. -/
theorem buildExamples_run (m : LanguageModel) (root : Path) (calls : List Call) :
    Prescribed (lastBody m root (delivered m .source calls))
        (lastBody m root (delivered m .decompiled calls))
        ((empty m root).run calls).buildExamples.value ∧
      ∀ calls' : List Call, (∀ which, delivered m which calls' = delivered m which calls) →
        ((empty m root).run calls').buildExamples.value =
          ((empty m root).run calls).buildExamples.value := by
  have hrun : ∀ calls : List Call,
      Prescribed (lastBody m root (delivered m .source calls))
        (lastBody m root (delivered m .decompiled calls)) ((empty m root).run calls).built := by
    intro calls
    have hside : ∀ which, Catalog.get? (((empty m root).run calls).side which) =
        lastBody m root (delivered m which calls) := by
      intro which
      funext key
      rw [get?_run_side]
      cases which <;> exact Option.or_none
    have hp := ((tallied_empty m root).run calls).prescribed
    rw [show Catalog.get? ((empty m root).run calls).sources = _ from hside .source,
      show Catalog.get? ((empty m root).run calls).decompileds = _ from hside .decompiled] at hp
    exact hp
  refine ⟨hrun calls, ?_⟩
  intro calls' hsame
  have h' := hrun calls'
  rw [hsame .source, hsame .decompiled] at h'
  exact h'.unique (hrun calls)

end FunctionPairs.ExampleStore
