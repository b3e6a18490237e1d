import FunctionPairs.Text.Utf8
import Mathlib

-- The whole library, since the evaluation of fixed inputs unfolds functions on text from all of it.

/-!
Cuts of byte sequences that hold text. A position is a boundary if decoding gets there at the
end of a sequence, well-formed or not; to decode the two sides of a boundary on their own gives
the decoding of the whole. Every position before a byte that continues nothing is a boundary.
-/
namespace FunctionPairs.Utf8

/-- The positions between the sequences that decoding takes the bytes apart into. -/
inductive Boundary : Bytes → Nat → Prop
  | start (bs : Bytes) : Boundary bs 0
  | after {b : UInt8} {bs : Bytes} {p : Nat} (rest : Boundary (bs.drop (front b bs).2) p) :
      Boundary (b :: bs) ((front b bs).2 + 1 + p)

theorem decodeChars_nil : decodeChars [] = [] := by
  rw [decodeChars]

theorem decode_nil : decode [] = "" := by
  unfold decode
  rw [decodeChars_nil, String.ofList_nil]

theorem decodeChars_cons (b : UInt8) (bs : Bytes) :
    decodeChars (b :: bs) =
      (front b bs).1.getD replacement :: decodeChars (bs.drop (front b bs).2) := by
  rw [decodeChars]

theorem tail_cons (n : Nat) (low high c : UInt8) (cs : Bytes) :
    tail (n + 1) low high (c :: cs) =
      if low ≤ c && c ≤ high then c :: tail n 0x80 0xBF cs else [] := rfl

theorem tail_isInitial (n : Nat) (low high : UInt8) (bs : Bytes) : tail n low high bs <+: bs := by
  induction n generalizing low high bs with
  | zero => exact List.nil_prefix
  | succ n ih =>
    cases bs with
    | nil => exact List.nil_prefix
    | cons b bs =>
      rw [tail_cons]
      split_ifs
      · exact List.cons_prefix_cons.mpr ⟨rfl, ih _ _ bs⟩
      · exact List.nil_prefix

theorem tail_take (n : Nat) (low high : UInt8) (bs : Bytes) (k : Nat)
    (hk : (tail n low high bs).length ≤ k) :
    tail n low high (bs.take k) = tail n low high bs := by
  induction n generalizing low high bs k with
  | zero => rfl
  | succ n ih =>
    cases bs with
    | nil => rw [List.take_nil]
    | cons b bs =>
      cases k with
      | zero =>
        have hnil : tail (n + 1) low high (b :: bs) = [] := List.length_eq_zero_iff.mp (by omega)
        rw [hnil]
        rfl
      | succ k =>
        rw [List.take_succ_cons]
        rw [tail_cons] at hk ⊢
        rw [tail_cons]
        split_ifs with h
        · rw [if_pos h, List.length_cons] at hk
          rw [ih _ _ bs k (by omega)]
        · rfl

theorem front_eq (b : UInt8) (bs : Bytes) :
    front b bs = match lead b with
      | none => (none, 0)
      | some l =>
        if (tail l.owed l.low l.high bs).length = l.owed then
          (some (Char.ofNat (value b (tail l.owed l.low l.high bs))), l.owed)
        else (none, (tail l.owed l.low l.high bs).length) := rfl

theorem front_used {b : UInt8} {l : Lead} (hl : lead b = some l) (bs : Bytes) :
    (front b bs).2 = (tail l.owed l.low l.high bs).length := by
  rw [front_eq, hl]
  dsimp only
  split_ifs with h
  · exact h.symm
  · rfl

theorem front_take (b : UInt8) (bs : Bytes) (k : Nat) (hk : (front b bs).2 ≤ k) :
    front b (bs.take k) = front b bs := by
  cases hl : lead b with
  | none => rw [front_eq, front_eq, hl]
  | some l =>
    rw [front_used hl] at hk
    rw [front_eq, front_eq, hl]
    dsimp only
    rw [tail_take _ _ _ _ _ hk]

theorem front_le (b : UInt8) (bs : Bytes) : (front b bs).2 ≤ bs.length := by
  cases hl : lead b with
  | none =>
    rw [front_eq, hl]
    exact Nat.zero_le _
  | some l =>
    rw [front_used hl]
    exact (tail_isInitial l.owed l.low l.high bs).length_le

theorem Boundary.le_length {bs : Bytes} {p : Nat} (h : Boundary bs p) : p ≤ bs.length := by
  induction h with
  | start bs => exact Nat.zero_le _
  | @after b bs p rest ih =>
    have hused := front_le b bs
    rw [List.length_drop] at ih
    rw [List.length_cons]
    omega

theorem Boundary.decodeChars_append {bs : Bytes} {p : Nat} (h : Boundary bs p) :
    decodeChars bs = decodeChars (bs.take p) ++ decodeChars (bs.drop p) := by
  induction h with
  | start bs => rw [List.take_zero, List.drop_zero, decodeChars_nil, List.nil_append]
  | @after b bs p rest ih =>
    have hcount : (front b bs).2 + 1 + p = (front b bs).2 + p + 1 := by omega
    have hfront : front b (bs.take ((front b bs).2 + p)) = front b bs :=
      front_take b bs _ (Nat.le_add_right _ _)
    rw [hcount, List.take_succ_cons, List.drop_succ_cons, decodeChars_cons, decodeChars_cons,
      hfront, ih, List.drop_take, List.drop_drop, Nat.add_sub_cancel_left, List.cons_append]

theorem Boundary.drop {bs : Bytes} {p q : Nat} (hp : Boundary bs p) (hq : Boundary bs q)
    (hpq : p ≤ q) : Boundary (bs.drop p) (q - p) := by
  induction hp generalizing q with
  | start bs => exact hq
  | @after b bs p rest ih =>
    have hcount : (front b bs).2 + 1 + p = (front b bs).2 + p + 1 := by omega
    cases hq with
    | start => omega
    | @after _ _ r rest' =>
      have hr := ih rest' (by omega)
      rw [List.drop_drop] at hr
      rw [hcount, List.drop_succ_cons]
      convert hr using 1
      omega

def isContinuation (b : UInt8) : Bool := 0x80 ≤ b && b ≤ 0xBF

theorem isContinuation_of_mem_tail {n : Nat} {low high : UInt8} {bs : Bytes} {b : UInt8}
    (hlow : 0x80 ≤ low) (hhigh : high ≤ 0xBF) (h : b ∈ tail n low high bs) :
    isContinuation b = true := by
  induction n generalizing low high bs with
  | zero => cases h
  | succ n ih =>
    cases bs with
    | nil => cases h
    | cons c cs =>
      rw [tail_cons] at h
      split_ifs at h with hc
      · rw [Bool.and_eq_true, decide_eq_true_eq, decide_eq_true_eq] at hc
        rcases List.mem_cons.mp h with rfl | hmem
        · unfold isContinuation
          rw [Bool.and_eq_true, decide_eq_true_eq, decide_eq_true_eq]
          exact ⟨UInt8.le_trans hlow hc.1, UInt8.le_trans hc.2 hhigh⟩
        · exact ih (by decide) (by decide) hmem
      · cases h

theorem lead_range {b : UInt8} {l : Lead} (h : lead b = some l) : 0x80 ≤ l.low ∧ l.high ≤ 0xBF := by
  unfold lead at h
  split_ifs at h <;> cases h <;> exact ⟨by decide, by decide⟩

theorem isContinuation_of_lt_used {b : UInt8} {bs : Bytes} {k : Nat} (hk : k < (front b bs).2) :
    ∃ c, bs[k]? = some c ∧ isContinuation c = true := by
  cases hl : lead b with
  | none =>
    rw [front_eq, hl] at hk
    exact absurd hk (Nat.not_lt_zero k)
  | some l =>
    rw [front_used hl] at hk
    obtain ⟨hlow, hhigh⟩ := lead_range hl
    obtain ⟨others, hbs⟩ := tail_isInitial l.owed l.low l.high bs
    refine ⟨(tail l.owed l.low l.high bs).get ⟨k, hk⟩, ?_, ?_⟩
    · rw [← congrArg (·[k]?) hbs]
      exact (List.getElem?_append_left hk).trans (List.getElem?_eq_getElem hk)
    · exact isContinuation_of_mem_tail hlow hhigh (List.get_mem _ _)

theorem boundary_of_not_continuation {bs : Bytes} {p : Nat} (hp : p ≤ bs.length)
    (h : ∀ b, bs[p]? = some b → isContinuation b = false) : Boundary bs p := by
  induction hn : bs.length using Nat.strongRecOn generalizing bs p with
  | ind n ih =>
    cases bs with
    | nil =>
      rw [Nat.le_zero.mp hp]
      exact .start []
    | cons b bs =>
      rcases Nat.lt_or_ge (front b bs).2 p with hlt | hle
      · obtain ⟨q, rfl⟩ : ∃ q, p = (front b bs).2 + 1 + q := ⟨p - ((front b bs).2 + 1), by omega⟩
        have hlen : (bs.drop (front b bs).2).length < n := by
          rw [List.length_drop, ← hn, List.length_cons]
          omega
        refine .after (ih _ hlen ?_ ?_ rfl)
        · rw [List.length_cons] at hp
          rw [List.length_drop]
          omega
        · intro c hc
          apply h c
          rw [List.getElem?_drop] at hc
          rw [Nat.add_right_comm, List.getElem?_cons_succ]
          exact hc
      · cases p with
        | zero => exact .start _
        | succ k =>
          -- the position lies inside the first sequence
          obtain ⟨c, hc, hcont⟩ := isContinuation_of_lt_used (k := k) hle
          have hfalse := h c (by rw [List.getElem?_cons_succ]; exact hc)
          rw [hcont] at hfalse
          cases hfalse

end FunctionPairs.Utf8
