import FunctionPairs.Proofs.Text.Boundary
import Mathlib.Tactic.Common

/-!
Encoding after decoding. Each well-formed sequence is the encoding of the character it decodes
to, so bytes that are text throughout are decoded without loss and encoded to themselves.
-/
namespace FunctionPairs.Utf8

theorem lead_cases {b : UInt8} {l : Lead} (h : lead b = some l) :
    (b.toNat < 0x80 ∧ l.owed = 0) ∨
    (0xC2 ≤ b.toNat ∧ b.toNat < 0xE0 ∧ l.owed = 1) ∨
    (0xE0 ≤ b.toNat ∧ b.toNat < 0xF0 ∧ l.owed = 2 ∧ (b.toNat = 0xE0 → 0xA0 ≤ l.low.toNat) ∧
      (b.toNat = 0xED → l.high.toNat ≤ 0x9F)) ∨
    (0xF0 ≤ b.toNat ∧ b.toNat < 0xF5 ∧ l.owed = 3 ∧ (b.toNat = 0xF0 → 0x90 ≤ l.low.toNat) ∧
      (b.toNat = 0xF4 → l.high.toNat ≤ 0x8F)) := by
  unfold lead at h
  simp only [UInt8.lt_iff_toNat_lt, ← UInt8.toNat_inj, UInt8.reduceToNat] at h
  split_ifs at h <;> cases h
  · exact .inl ⟨by omega, rfl⟩
  · exact .inr (.inl ⟨by omega, by omega, rfl⟩)
  · exact .inr (.inr (.inl ⟨by omega, by omega, rfl, fun _ => by decide, fun _ => by omega⟩))
  · exact .inr (.inr (.inl ⟨by omega, by omega, rfl, fun _ => by omega, fun _ => by decide⟩))
  · exact .inr (.inr (.inl ⟨by omega, by omega, rfl, fun _ => by omega, fun _ => by omega⟩))
  · exact .inr (.inr (.inr ⟨by omega, by omega, rfl, fun _ => by decide, fun _ => by omega⟩))
  · exact .inr (.inr (.inr ⟨by omega, by omega, rfl, fun _ => by omega, fun _ => by omega⟩))
  · exact .inr (.inr (.inr ⟨by omega, by omega, rfl, fun _ => by omega, fun _ => by decide⟩))

theorem tail_complete {n : Nat} {low high : UInt8} {bs : Bytes}
    (h : (tail (n + 1) low high bs).length = n + 1) :
    ∃ c cs, bs = c :: cs ∧ low.toNat ≤ c.toNat ∧ c.toNat ≤ high.toNat ∧
      tail (n + 1) low high bs = c :: tail n 0x80 0xBF cs ∧ (tail n 0x80 0xBF cs).length = n := by
  cases bs with
  | nil => cases h
  | cons c cs =>
    rw [tail_cons] at h ⊢
    split_ifs at h ⊢ with hc
    · rw [Bool.and_eq_true, decide_eq_true_eq, decide_eq_true_eq] at hc
      exact ⟨c, cs, rfl, hc.1, hc.2, rfl, Nat.succ.inj h⟩

theorem toNat_ofNat_of_valid {n : Nat} (h : n.isValidChar) : (Char.ofNat n).val.toNat = n := by
  have hofNat : Char.ofNat n = Char.ofNatAux n h := dif_pos h
  rw [hofNat]
  rfl

theorem ofNat_eq_of_toNat {n : Nat} {b : UInt8} (h : n = b.toNat) : UInt8.ofNat n = b := by
  rw [h]
  exact UInt8.ofNat_toNat

theorem encode_one {b : UInt8} (hb : b.toNat < 0x80) :
    String.utf8EncodeChar (Char.ofNat b.toNat) = [b] := by
  have hval : (Char.ofNat b.toNat).val.toNat = b.toNat := toNat_ofNat_of_valid (Or.inl (by omega))
  unfold String.utf8EncodeChar
  simp only [hval]
  rw [if_pos (by omega), ofNat_eq_of_toNat rfl]

theorem encode_two {b c : UInt8} (hb : 0xC2 ≤ b.toNat) (hb' : b.toNat < 0xE0)
    (hc : 0x80 ≤ c.toNat) (hc' : c.toNat ≤ 0xBF) :
    String.utf8EncodeChar (Char.ofNat (b.toNat % 32 * 64 + c.toNat % 64)) = [b, c] := by
  have hval := toNat_ofNat_of_valid (n := b.toNat % 32 * 64 + c.toNat % 64) (Or.inl (by omega))
  unfold String.utf8EncodeChar
  simp only [hval]
  rw [if_neg (by omega), if_pos (by omega), ofNat_eq_of_toNat (b := b) (by omega),
    ofNat_eq_of_toNat (b := c) (by omega)]

theorem encode_three {b c d : UInt8} (hb : 0xE0 ≤ b.toNat) (hb' : b.toNat < 0xF0)
    (hc : 0x80 ≤ c.toNat) (hc' : c.toNat ≤ 0xBF) (hd : 0x80 ≤ d.toNat) (hd' : d.toNat ≤ 0xBF)
    (hlow : b.toNat = 0xE0 → 0xA0 ≤ c.toNat) (hhigh : b.toNat = 0xED → c.toNat ≤ 0x9F) :
    String.utf8EncodeChar
      (Char.ofNat ((b.toNat % 16 * 64 + c.toNat % 64) * 64 + d.toNat % 64)) = [b, c, d] := by
  have hval := toNat_ofNat_of_valid
    (n := (b.toNat % 16 * 64 + c.toNat % 64) * 64 + d.toNat % 64) (by
      show _ < 0xd800 ∨ 0xdfff < _ ∧ _ < 0x110000
      omega)
  unfold String.utf8EncodeChar
  simp only [hval]
  rw [if_neg (by omega), if_neg (by omega), if_pos (by omega),
    ofNat_eq_of_toNat (b := b) (by omega), ofNat_eq_of_toNat (b := c) (by omega),
    ofNat_eq_of_toNat (b := d) (by omega)]

theorem encode_four {b c d e : UInt8} (hb : 0xF0 ≤ b.toNat) (hb' : b.toNat < 0xF5)
    (hc : 0x80 ≤ c.toNat) (hc' : c.toNat ≤ 0xBF) (hd : 0x80 ≤ d.toNat) (hd' : d.toNat ≤ 0xBF)
    (he : 0x80 ≤ e.toNat) (he' : e.toNat ≤ 0xBF)
    (hlow : b.toNat = 0xF0 → 0x90 ≤ c.toNat) (hhigh : b.toNat = 0xF4 → c.toNat ≤ 0x8F) :
    String.utf8EncodeChar
      (Char.ofNat (((b.toNat % 8 * 64 + c.toNat % 64) * 64 + d.toNat % 64) * 64 + e.toNat % 64)) =
        [b, c, d, e] := by
  have hval := toNat_ofNat_of_valid
    (n := ((b.toNat % 8 * 64 + c.toNat % 64) * 64 + d.toNat % 64) * 64 + e.toNat % 64) (by
      show _ < 0xd800 ∨ 0xdfff < _ ∧ _ < 0x110000
      omega)
  unfold String.utf8EncodeChar
  simp only [hval]
  rw [if_neg (by omega), if_neg (by omega), if_neg (by omega),
    ofNat_eq_of_toNat (b := b) (by omega), ofNat_eq_of_toNat (b := c) (by omega),
    ofNat_eq_of_toNat (b := d) (by omega), ofNat_eq_of_toNat (b := e) (by omega)]

theorem encode_front {b : UInt8} {bs : Bytes} {c : Char} {used : Nat}
    (h : front b bs = (some c, used)) : String.utf8EncodeChar c = b :: bs.take used := by
  cases hl : lead b with
  | none =>
    rw [front_eq, hl] at h
    cases h
  | some l =>
    rw [front_eq, hl] at h
    dsimp only at h
    split_ifs at h with hlen
    · have hrange := lead_range hl
      have hlow : 0x80 ≤ l.low.toNat := hrange.1
      have hhigh : l.high.toNat ≤ 0xBF := hrange.2
      cases h
      rcases lead_cases hl with ⟨hb, ho⟩ | ⟨hb, hb', ho⟩ | ⟨hb, hb', ho, hE0, hED⟩ |
        ⟨hb, hb', ho, hF0, hF4⟩
      · rw [ho] at hlen ⊢
        exact encode_one hb
      · rw [ho] at hlen ⊢
        obtain ⟨c, cs, rfl, hc, hc', ht, -⟩ := tail_complete hlen
        rw [ht]
        exact encode_two hb hb' (by omega) (by omega)
      · rw [ho] at hlen ⊢
        obtain ⟨c, cs, rfl, hc, hc', ht, hlen'⟩ := tail_complete hlen
        obtain ⟨d, ds, rfl, hd, hd', ht', -⟩ := tail_complete hlen'
        rw [ht, ht']
        exact encode_three hb hb' (by omega) (by omega) hd hd' (by omega) (by omega)
      · rw [ho] at hlen ⊢
        obtain ⟨c, cs, rfl, hc, hc', ht, hlen'⟩ := tail_complete hlen
        obtain ⟨d, ds, rfl, hd, hd', ht', hlen''⟩ := tail_complete hlen'
        obtain ⟨e, es, rfl, he, he', ht'', -⟩ := tail_complete hlen''
        rw [ht, ht', ht'']
        exact encode_four hb hb' (by omega) (by omega) hd hd' he he' (by omega) (by omega)
    · cases h

theorem decodeChars?_cons (b : UInt8) (bs : Bytes) :
    decodeChars? (b :: bs) = match front b bs with
      | (none, _) => none
      | (some c, used) => (decodeChars? (bs.drop used)).map (c :: ·) := by
  cases hf : front b bs with
  | mk c used => cases c <;> simp [decodeChars?, hf]

theorem decodeChars?_some {bs : Bytes} {cs : List Char} (h : decodeChars? bs = some cs) :
    decodeChars bs = cs ∧ cs.flatMap String.utf8EncodeChar = bs := by
  induction hn : bs.length using Nat.strongRecOn generalizing bs cs with
  | ind n ih =>
    cases bs with
    | nil =>
      rw [decodeChars?] at h
      cases h
      exact ⟨decodeChars_nil, rfl⟩
    | cons b bs =>
      rw [decodeChars?_cons] at h
      cases hf : front b bs with
      | mk c used =>
        rw [hf] at h
        cases c with
        | none => cases h
        | some c =>
          obtain ⟨ds, hds, rfl⟩ := Option.map_eq_some_iff.mp h
          have hlen : (bs.drop used).length < n := by
            rw [List.length_drop, ← hn, List.length_cons]
            omega
          obtain ⟨hdec, henc⟩ := ih _ hlen hds rfl
          constructor
          · rw [decodeChars_cons, hf, hdec]
            rfl
          · rw [List.flatMap_cons, henc, encode_front hf, List.cons_append, List.take_append_drop]

theorem decode?_some {bs : Bytes} {text : String} (h : decode? bs = some text) :
    decode bs = text ∧ encode text = bs := by
  obtain ⟨cs, hcs, rfl⟩ := Option.map_eq_some_iff.mp h
  obtain ⟨hdec, henc⟩ := decodeChars?_some hcs
  constructor
  · exact congrArg String.ofList hdec
  · unfold encode
    rw [String.toList_ofList, henc]

end FunctionPairs.Utf8
