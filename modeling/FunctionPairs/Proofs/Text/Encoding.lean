import FunctionPairs.Proofs.Text.RoundTrip

/-!
Decoding after encoding. The encoding of a character is read back as this character, whatever
follows it, so text is decoded to itself; bytes of a longer encoding are never those of ASCII.
-/
namespace FunctionPairs.Utf8

theorem lead_one {b : UInt8} (h : b.toNat < 0x80) : lead b = some ⟨0, 0x80, 0xBF⟩ := by
  unfold lead
  rw [if_pos (UInt8.lt_iff_toNat_lt.mpr h)]

theorem lead_two {b : UInt8} (h : 0xC2 ≤ b.toNat) (h' : b.toNat < 0xE0) :
    lead b = some ⟨1, 0x80, 0xBF⟩ := by
  unfold lead
  simp only [UInt8.lt_iff_toNat_lt, ← UInt8.toNat_inj, UInt8.reduceToNat]
  rw [if_neg (by omega), if_neg (by omega), if_pos (by omega)]

theorem lead_three {b : UInt8} (h : 0xE0 ≤ b.toNat) (h' : b.toNat < 0xF0) :
    ∃ low high, lead b = some ⟨2, low, high⟩ ∧
      low.toNat = (if b.toNat = 0xE0 then 0xA0 else 0x80) ∧
      high.toNat = (if b.toNat = 0xED then 0x9F else 0xBF) := by
  unfold lead
  simp only [UInt8.lt_iff_toNat_lt, ← UInt8.toNat_inj, UInt8.reduceToNat]
  rw [if_neg (by omega), if_neg (by omega), if_neg (by omega)]
  by_cases hE0 : b.toNat = 0xE0
  · exact ⟨_, _, if_pos hE0, by rw [if_pos hE0]; rfl, by rw [if_neg (by omega)]; rfl⟩
  rw [if_neg hE0, if_neg hE0]
  by_cases hED : b.toNat = 0xED
  · exact ⟨_, _, if_pos hED, rfl, by rw [if_pos hED]; rfl⟩
  rw [if_neg hED, if_neg hED]
  exact ⟨_, _, if_pos h', rfl, rfl⟩

theorem lead_four {b : UInt8} (h : 0xF0 ≤ b.toNat) (h' : b.toNat < 0xF5) :
    ∃ low high, lead b = some ⟨3, low, high⟩ ∧
      low.toNat = (if b.toNat = 0xF0 then 0x90 else 0x80) ∧
      high.toNat = (if b.toNat = 0xF4 then 0x8F else 0xBF) := by
  unfold lead
  simp only [UInt8.lt_iff_toNat_lt, ← UInt8.toNat_inj, UInt8.reduceToNat]
  rw [if_neg (by omega), if_neg (by omega), if_neg (by omega), if_neg (by omega),
    if_neg (by omega), if_neg (by omega)]
  by_cases hF0 : b.toNat = 0xF0
  · exact ⟨_, _, if_pos hF0, by rw [if_pos hF0]; rfl, by rw [if_neg (by omega)]; rfl⟩
  rw [if_neg hF0, if_neg hF0]
  by_cases hF4 : b.toNat = 0xF4
  · refine ⟨_, _, (if_neg (by omega)).trans (if_pos hF4), rfl, by rw [if_pos hF4]; rfl⟩
  rw [if_neg hF4]
  exact ⟨_, _, if_pos (by omega), rfl, by rw [if_neg hF4]; rfl⟩

theorem tail_step {n : Nat} {low high c : UInt8} (cs : Bytes) (hlow : low.toNat ≤ c.toNat)
    (hhigh : c.toNat ≤ high.toNat) :
    tail (n + 1) low high (c :: cs) = c :: tail n 0x80 0xBF cs := by
  rw [tail_cons]
  apply if_pos
  rw [Bool.and_eq_true, decide_eq_true_eq, decide_eq_true_eq]
  exact ⟨hlow, hhigh⟩

theorem tail_continuation {n : Nat} {c : UInt8} (cs : Bytes) (hlow : 0x80 ≤ c.toNat)
    (hhigh : c.toNat ≤ 0xBF) : tail (n + 1) 0x80 0xBF (c :: cs) = c :: tail n 0x80 0xBF cs :=
  tail_step cs hlow hhigh

theorem front_of_tail {b : UInt8} {n : Nat} {low high : UInt8} {bs : Bytes} {t : Bytes}
    (hl : lead b = some ⟨n, low, high⟩) (ht : tail n low high bs = t) (hn : t.length = n) :
    front b bs = (some (Char.ofNat (value b t)), n) := by
  rw [front_eq, hl]
  dsimp only
  rw [ht, if_pos hn]

theorem toNat_ofNat {n : Nat} (h : n < 256) : (UInt8.ofNat n).toNat = n := by
  rw [UInt8.toNat_ofNat']
  exact Nat.mod_eq_of_lt h

theorem front_one {b : UInt8} (rest : Bytes) (hb : b.toNat < 0x80) :
    front b rest = (some (Char.ofNat b.toNat), 0) :=
  front_of_tail (lead_one hb) rfl rfl

theorem front_two {b c : UInt8} (rest : Bytes) (hb : 0xC2 ≤ b.toNat) (hb' : b.toNat < 0xE0)
    (hc : 0x80 ≤ c.toNat) (hc' : c.toNat ≤ 0xBF) :
    front b (c :: rest) = (some (Char.ofNat (b.toNat % 32 * 64 + c.toNat % 64)), 1) :=
  front_of_tail (lead_two hb hb') (tail_step rest hc hc') rfl

theorem front_three {b c d : UInt8} (rest : Bytes) (hb : 0xE0 ≤ b.toNat) (hb' : b.toNat < 0xF0)
    (hc : 0x80 ≤ c.toNat) (hc' : c.toNat ≤ 0xBF) (hd : 0x80 ≤ d.toNat) (hd' : d.toNat ≤ 0xBF)
    (hlow : b.toNat = 0xE0 → 0xA0 ≤ c.toNat) (hhigh : b.toNat = 0xED → c.toNat ≤ 0x9F) :
    front b (c :: d :: rest) =
      (some (Char.ofNat ((b.toNat % 16 * 64 + c.toNat % 64) * 64 + d.toNat % 64)), 2) := by
  obtain ⟨low, high, hl, hlo, hhi⟩ := lead_three hb hb'
  have hcl : low.toNat ≤ c.toNat := by split_ifs at hlo <;> omega
  have hch : c.toNat ≤ high.toNat := by split_ifs at hhi <;> omega
  have ht : tail 2 low high (c :: d :: rest) = [c, d] := by
    rw [tail_step _ hcl hch, tail_continuation rest hd hd']
    rfl
  exact front_of_tail hl ht rfl

theorem front_four {b c d e : UInt8} (rest : Bytes) (hb : 0xF0 ≤ b.toNat) (hb' : b.toNat < 0xF5)
    (hc : 0x80 ≤ c.toNat) (hc' : c.toNat ≤ 0xBF) (hd : 0x80 ≤ d.toNat) (hd' : d.toNat ≤ 0xBF)
    (he : 0x80 ≤ e.toNat) (he' : e.toNat ≤ 0xBF)
    (hlow : b.toNat = 0xF0 → 0x90 ≤ c.toNat) (hhigh : b.toNat = 0xF4 → c.toNat ≤ 0x8F) :
    front b (c :: d :: e :: rest) =
      (some (Char.ofNat
        (((b.toNat % 8 * 64 + c.toNat % 64) * 64 + d.toNat % 64) * 64 + e.toNat % 64)), 3) := by
  obtain ⟨low, high, hl, hlo, hhi⟩ := lead_four hb hb'
  have hcl : low.toNat ≤ c.toNat := by split_ifs at hlo <;> omega
  have hch : c.toNat ≤ high.toNat := by split_ifs at hhi <;> omega
  have ht : tail 3 low high (c :: d :: e :: rest) = [c, d, e] := by
    rw [tail_step _ hcl hch, tail_continuation _ hd hd', tail_continuation rest he he']
    rfl
  exact front_of_tail hl ht rfl

theorem front_encode (c : Char) (rest : Bytes) :
    ∃ b bs, String.utf8EncodeChar c = b :: bs ∧ front b (bs ++ rest) = (some c, bs.length) := by
  have hback : ∀ n, n = c.val.toNat → Char.ofNat n = c := by
    rintro n rfl
    exact Char.ofNat_toNat c
  have hvalid : c.val.toNat < 0xD800 ∨ 0xDFFF < c.val.toNat ∧ c.val.toNat < 0x110000 := c.valid
  unfold String.utf8EncodeChar
  generalize c.val.toNat = v at hback hvalid
  dsimp only
  -- one case for each length; the bytes are told by their values, and so is what they add up to
  split_ifs with h1 h2 h3
  · have hb : (UInt8.ofNat v).toNat = v := toNat_ofNat (by omega)
    refine ⟨_, [], rfl, ?_⟩
    rw [front_one _ (by omega), hback _ hb]
    rfl
  · have hb := toNat_ofNat (n := v / 64 % 0x20 + 0xc0) (by omega)
    have hc := toNat_ofNat (n := v % 0x40 + 0x80) (by omega)
    refine ⟨_, _, rfl, ?_⟩
    rw [List.singleton_append, front_two rest (by omega) (by omega) (by omega) (by omega),
      hback _ (by omega)]
    rfl
  · have hb := toNat_ofNat (n := v / 4096 % 0x10 + 0xe0) (by omega)
    have hc := toNat_ofNat (n := v / 64 % 0x40 + 0x80) (by omega)
    have hd := toNat_ofNat (n := v % 0x40 + 0x80) (by omega)
    refine ⟨_, _, rfl, ?_⟩
    rw [List.cons_append, List.singleton_append, front_three rest (by omega) (by omega) (by omega)
      (by omega) (by omega) (by omega) (by omega) (by omega), hback _ (by omega)]
    rfl
  · have hb := toNat_ofNat (n := v / 262144 % 0x08 + 0xf0) (by omega)
    have hc := toNat_ofNat (n := v / 4096 % 0x40 + 0x80) (by omega)
    have hd := toNat_ofNat (n := v / 64 % 0x40 + 0x80) (by omega)
    have he := toNat_ofNat (n := v % 0x40 + 0x80) (by omega)
    refine ⟨_, _, rfl, ?_⟩
    rw [List.cons_append, List.cons_append, List.singleton_append,
      front_four rest (by omega) (by omega) (by omega) (by omega) (by omega) (by omega)
        (by omega) (by omega) (by omega) (by omega), hback _ (by omega)]
    rfl

theorem decodeChars?_encode (cs : List Char) :
    decodeChars? (cs.flatMap String.utf8EncodeChar) = some cs := by
  induction cs with
  | nil => rw [List.flatMap_nil, decodeChars?]
  | cons c cs ih =>
    obtain ⟨b, bs, hc, hfront⟩ := front_encode c (cs.flatMap String.utf8EncodeChar)
    rw [List.flatMap_cons, hc, List.cons_append, decodeChars?_cons, hfront]
    dsimp only
    rw [List.drop_left, ih]
    rfl

theorem decode?_encode (s : String) : decode? (encode s) = some s := by
  unfold decode? encode
  rw [decodeChars?_encode, Option.map_some, String.ofList_toList]

theorem decodeChars_encode (s : String) : decodeChars (encode s) = s.toList :=
  (decodeChars?_some (decodeChars?_encode s.toList)).1

theorem encode_append (s t : String) : encode (s ++ t) = encode s ++ encode t := by
  unfold encode
  rw [String.toList_append, List.flatMap_append]

theorem encode_ofList (cs : List Char) :
    encode (String.ofList cs) = cs.flatMap String.utf8EncodeChar := by
  unfold encode
  rw [String.toList_ofList]

theorem encodeChar_ascii {c : Char} (h : c.toNat < 0x80) :
    String.utf8EncodeChar c = [UInt8.ofNat c.toNat] := by
  have hv : c.val.toNat ≤ 0x7f := Nat.le_of_lt_succ h
  unfold String.utf8EncodeChar
  dsimp only
  rw [if_pos hv]
  rfl

theorem mem_of_mem_decodeChars {bs : Bytes} {c : Char} (hc : c.toNat < 0x80)
    (h : c ∈ decodeChars bs) : UInt8.ofNat c.toNat ∈ bs := by
  induction hn : bs.length using Nat.strongRecOn generalizing bs with
  | ind n ih =>
    cases bs with
    | nil =>
      rw [decodeChars_nil] at h
      cases h
    | cons b bs =>
      rw [decodeChars_cons, List.mem_cons] at h
      rcases h with hfirst | hrest
      · cases hf : front b bs with
        | mk found used =>
          rw [hf] at hfirst
          cases found with
          | none =>
            have hc' : c = replacement := hfirst
            rw [hc'] at hc
            exact absurd hc (by decide)
          | some d =>
            have hd : c = d := hfirst
            have hbytes := encode_front hf
            rw [← hd, encodeChar_ascii hc, List.cons.injEq] at hbytes
            rw [hbytes.1]
            exact List.mem_cons_self
      · have hlen : (bs.drop (front b bs).2).length < n := by
          rw [List.length_drop, ← hn, List.length_cons]
          omega
        exact List.mem_cons_of_mem b (List.mem_of_mem_drop (ih _ hlen hrest rfl))

theorem decodeChars_append {b : UInt8} (hb : isContinuation b = false) (bs rest : Bytes) :
    decodeChars (bs ++ b :: rest) = decodeChars bs ++ decodeChars (b :: rest) := by
  have hboundary : Boundary (bs ++ b :: rest) bs.length := by
    apply boundary_of_not_continuation
    · rw [List.length_append]
      exact Nat.le_add_right _ _
    · intro c hc
      rw [List.getElem?_append_right (Nat.le_refl _), Nat.sub_self, List.getElem?_cons_zero] at hc
      cases hc
      exact hb
  rw [hboundary.decodeChars_append, List.take_left, List.drop_left]

theorem high_of_mem_encodeChar {c : Char} (h : 0x80 ≤ c.toNat) {b : UInt8}
    (hb : b ∈ String.utf8EncodeChar c) : 0x80 ≤ b.toNat := by
  have hv : ¬ c.val.toNat ≤ 0x7f := Nat.not_le.mpr h
  unfold String.utf8EncodeChar at hb
  dsimp only at hb
  rw [if_neg hv] at hb
  split_ifs at hb <;> simp only [List.mem_cons, List.not_mem_nil, or_false] at hb
  · rcases hb with rfl | rfl <;> rw [toNat_ofNat (by omega)] <;> omega
  · rcases hb with rfl | rfl | rfl <;> rw [toNat_ofNat (by omega)] <;> omega
  · rcases hb with rfl | rfl | rfl | rfl <;> rw [toNat_ofNat (by omega)] <;> omega

end FunctionPairs.Utf8
