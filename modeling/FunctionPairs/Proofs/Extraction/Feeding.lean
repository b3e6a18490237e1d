import Mathlib.Algebra.GroupWithZero.Nat
import Mathlib.Algebra.Order.BigOperators.Group.List
import FunctionPairs.Extraction.Artifact
import FunctionPairs.Proofs.Dataset.Appending
import FunctionPairs.Proofs.Store.History

/-!
Feeding an artifact's files to its stores. Every store sees a file on its own, as one call or not
at all, so a feed is followed store by store. Without a stop signal a feed with limited room is
the feed with all the room there is, or it ends with enough examples at hand; and no file ever
takes examples away.
-/
namespace FunctionPairs.Extraction

variable (fs : FileSystem) (path : Path)

def offered (name : String) (s : ExampleStore) : ExampleStore :=
  match sideOf (s.model.lang.classify name) with
  | none => s
  | some side => s.step ⟨fs, side, path⟩

theorem offered_invariant {P : ExampleStore → Prop} (name : String) {s : ExampleStore}
    (step : ∀ c, P (s.step c)) (h : P s) : P (offered fs path name s) := by
  unfold offered
  cases sideOf (s.model.lang.classify name) with
  | none => exact h
  | some side => exact step _

theorem le_offered_matched (name : String) (s : ExampleStore) :
    s.matched ≤ (offered fs path name s).matched :=
  offered_invariant fs path (P := fun t => s.matched ≤ t.matched) name s.le_step_matched le_rfl

theorem offer_store (name : String) (s : ExampleStore) (r : Routed) :
    (offer fs name path s r).value.1 = offered fs path name s := by
  cases hs : sideOf (s.model.lang.classify name) with
  | none => simp only [offer, offered, hs, Logged.value_pure]
  | some side =>
    simp only [offer, offered, hs, Logged.value_bind, ExampleStore.step]
    cases (s.add fs side path).value <;> rfl

theorem offerAll_stores (name : String) (r : Routed) (stores : List ExampleStore) :
    (offerAll fs name path r stores).value.1 = stores.map (offered fs path name) := by
  induction stores generalizing r with
  | nil => rfl
  | cons s stores ih =>
    show (offer fs name path s r).value.1 :: (offerAll fs name path _ stores).value.1 = _
    rw [offer_store, ih]
    rfl

theorem route_stores (f : Feed) :
    (route fs path f).value.stores =
      f.stores.map (offered fs path (Utf8.decode (path.fileName.getD []))) :=
  offerAll_stores fs path _ _ f.stores

def storeRows (s : ExampleStore) : List Row := Dataset.rowsOf s.model.lang s.built.pairs

namespace Feed

def rows (f : Feed) : List Row := f.stores.flatMap storeRows

def Tallied (f : Feed) : Prop := ∀ s ∈ f.stores, s.Tallied

theorem tallied_start (models : List LanguageModel) (artifact : Path) :
    (Feed.start models artifact).Tallied := by
  intro s hs
  obtain ⟨m, -, rfl⟩ := List.mem_map.mp hs
  exact ExampleStore.tallied_empty m artifact

theorem pending_eq_sum (f : Feed) :
    f.pending = (f.stores.map ExampleStore.pendingExamples).sum := by
  have hfold : ∀ (stores : List ExampleStore) (k : Nat),
      stores.foldl (fun n s => n + s.pendingExamples) k =
        k + (stores.map ExampleStore.pendingExamples).sum := by
    intro stores
    induction stores with
    | nil => exact fun k => rfl
    | cons s stores ih =>
      intro k
      rw [List.foldl_cons, ih, List.map_cons, List.sum_cons, Nat.add_assoc]
  exact (hfold f.stores 0).trans (Nat.zero_add _)

theorem Tallied.length_rows {f : Feed} (h : f.Tallied) : f.rows.length = f.pending := by
  rw [pending_eq_sum, rows, List.length_flatMap]
  congr 1
  apply List.map_congr_left
  intro s hs
  rw [storeRows, Dataset.rowsOf, List.length_map]
  exact (h s hs).length_pairs

end Feed

theorem forall_route {P : ExampleStore → Prop} (step : ∀ s c, P s → P (s.step c)) {f : Feed}
    (h : ∀ s ∈ f.stores, P s) : ∀ s ∈ (route fs path f).value.stores, P s := by
  rw [route_stores]
  intro t ht
  obtain ⟨s, hs, rfl⟩ := List.mem_map.mp ht
  exact offered_invariant fs path _ (fun c => step s c (h s hs)) (h s hs)

theorem le_route_pending (f : Feed) : f.pending ≤ (route fs path f).value.pending := by
  rw [Feed.pending_eq_sum, Feed.pending_eq_sum, route_stores, List.map_map]
  apply List.sum_le_sum
  intro s _
  exact le_offered_matched fs path _ s

variable (artifact : Path) (room : Option Nat)

def fileOf : WalkItem → Option Path
  | .found path (.file ..) => some path
  | _ => none

theorem feed_cons (item : WalkItem) (items : List WalkItem) (i : Interrupt) (f : Feed) :
    (feed fs artifact room (item :: items) i f).value =
      match fileOf item with
      | none => (feed fs artifact room items i f).value
      | some p =>
        match i.poll with
        | .error e => ⟨f, i, some e⟩
        | .ok i' =>
          if isEnough room f then ⟨f, i', none⟩
          else (feed fs artifact room items i' (route fs p f).value).value := by
  cases item with
  | failed p cause => rfl
  | found p entry =>
    cases entry with
    | directory => rfl
    | link target => rfl
    | file contents executable =>
      simp only [feed, fileOf]
      cases i.poll with
      | error e => rfl
      | ok i' => by_cases h : isEnough room f = true <;> simp [h]

theorem feed_invariant {P : Feed → Prop} (step : ∀ p f, P f → P (route fs p f).value)
    (items : List WalkItem) (i : Interrupt) (f : Feed) (h : P f) :
    P (feed fs artifact room items i f).value.feed := by
  induction items generalizing i f with
  | nil => exact h
  | cons item items ih =>
    rw [feed_cons]
    cases fileOf item with
    | none => exact ih i f h
    | some p =>
      cases i.poll with
      | error e => exact h
      | ok i' =>
        by_cases he : isEnough room f = true
        · simp only [he, if_true]
          exact h
        · simp only [he]
          exact ih i' _ (step p f h)

theorem forall_feed {P : ExampleStore → Prop} (step : ∀ s c, P s → P (s.step c))
    (items : List WalkItem) (i : Interrupt) {f : Feed} (h : ∀ s ∈ f.stores, P s) :
    ∀ s ∈ (feed fs artifact room items i f).value.feed.stores, P s :=
  feed_invariant fs artifact room (P := fun g => ∀ s ∈ g.stores, P s)
    (fun p _ hg => forall_route fs p step hg) items i f h

theorem tallied_feed (items : List WalkItem) (i : Interrupt) {f : Feed} (h : f.Tallied) :
    (feed fs artifact room items i f).value.feed.Tallied :=
  forall_feed fs artifact room (fun _ c hs => hs.step c) items i h

theorem le_feed_pending (items : List WalkItem) (i : Interrupt) (f : Feed) :
    f.pending ≤ (feed fs artifact room items i f).value.feed.pending :=
  feed_invariant fs artifact room (P := fun g => f.pending ≤ g.pending)
    (fun p g hg => hg.trans (le_route_pending fs p g)) items i f le_rfl

theorem poll_clear : Interrupt.clear.poll = .ok .clear := rfl

theorem eq_interrupted_of_poll {i : Interrupt} {e : Failure} (h : i.poll = .error e) :
    e = .interrupted := by
  obtain ⟨polls⟩ := i
  rcases polls with _ | _ | n <;> cases h
  rfl

/-- With limited room the feed is the unlimited one, or it stops with enough examples pending,
of which the unlimited one has no fewer. -/
theorem feed_limited (n : Nat) (items : List WalkItem) (f : Feed) :
    let limited := (feed fs artifact (some n) items .clear f).value.feed
    let whole := (feed fs artifact none items .clear f).value.feed
    limited = whole ∨ (n ≤ limited.pending ∧ limited.pending ≤ whole.pending) := by
  induction items generalizing f with
  | nil => exact Or.inl rfl
  | cons item items ih =>
    simp only [feed_cons, poll_clear]
    cases fileOf item with
    | none => exact ih f
    | some p =>
      have hw : ¬ isEnough none f = true := Bool.false_ne_true
      by_cases hn : n ≤ f.pending
      · right
        have he : isEnough (some n) f = true := decide_eq_true hn
        simp only [he, hw, if_true]
        exact ⟨hn, (le_route_pending fs p f).trans (le_feed_pending ..)⟩
      · have he : ¬ isEnough (some n) f = true := fun h => hn (of_decide_eq_true h)
        simp only [he, hw]
        exact ih _

theorem feed_interrupt (items : List WalkItem) (i : Interrupt) (f : Feed) :
    (feed fs artifact room items i f).value.failure = some .interrupted ∨
      ((feed fs artifact room items i f).value.failure = none ∧
        (feed fs artifact room items i f).value.feed =
          (feed fs artifact room items .clear f).value.feed) := by
  induction items generalizing i f with
  | nil => exact Or.inr ⟨rfl, rfl⟩
  | cons item items ih =>
    simp only [feed_cons, poll_clear]
    cases fileOf item with
    | none => exact ih i f
    | some p =>
      cases hp : i.poll with
      | error e =>
        left
        exact congrArg some (eq_interrupted_of_poll hp)
      | ok i' =>
        by_cases he : isEnough room f = true
        · right
          simp only [he, if_true, and_self]
        · simp only [he]
          exact ih i' _

theorem feed_clear (items : List WalkItem) (f : Feed) :
    (feed fs artifact room items .clear f).value.failure = none ∧
      (feed fs artifact room items .clear f).value.interrupt = .clear := by
  induction items generalizing f with
  | nil => exact ⟨rfl, rfl⟩
  | cons item items ih =>
    simp only [feed_cons, poll_clear]
    cases fileOf item with
    | none => exact ih f
    | some p =>
      by_cases he : isEnough room f = true
      · simp only [he, if_true, and_self]
      · simp only [he]
        exact ih _

theorem feed_polls (k : Nat) (items : List WalkItem) (f : Feed) :
    let fed := (feed fs artifact none items ⟨some k⟩ f).value
    fed.failure = (if k < (items.filterMap fileOf).length then some .interrupted else none) ∧
      fed.interrupt = ⟨some (k - (items.filterMap fileOf).length)⟩ := by
  induction items generalizing k f with
  | nil => exact ⟨rfl, rfl⟩
  | cons item items ih =>
    rw [feed_cons]
    cases hitem : fileOf item with
    | none =>
      rw [List.filterMap_cons_none hitem]
      exact ih k f
    | some p =>
      rw [List.filterMap_cons_some hitem, List.length_cons]
      cases k with
      | zero => exact ⟨rfl, by rw [Nat.zero_sub]; rfl⟩
      | succ k =>
        obtain ⟨hfailure, hinterrupt⟩ := ih k (route fs p f).value
        simp only [Nat.add_lt_add_iff_right, Nat.add_sub_add_right]
        exact ⟨hfailure, hinterrupt⟩

end FunctionPairs.Extraction
