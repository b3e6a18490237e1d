import FunctionPairs.Dataset.Json
import FunctionPairs.Proofs.Text.Encoding

/-!
How texts are spelled in a stored dataset. A quoted text is a quote, the spelling of each of its
characters, and a quote; it is read back as the text, whatever follows it.
-/
namespace FunctionPairs.Dataset

open Utf8 (encode encodeChar_ascii toNat_ofNat high_of_mem_encodeChar)

def shortEscapes : List (Char × Char) :=
  [('"', '"'), ('\\', '\\'), ('\x08', 'b'), ('\t', 't'), ('\n', 'n'), ('\x0c', 'f'), ('\r', 'r')]

/-- The one spelling of a character in a compact text: a short escape where there is one, its
number in lower-case hexadecimal for the other control characters, and else itself. -/
inductive Spelled : Char → List Char → Prop
  | plain {c : Char} (visible : 0x20 ≤ c.toNat) (quote : c ≠ '"') (backslash : c ≠ '\\') :
      Spelled c [c]
  | short {c letter : Char} (listed : (c, letter) ∈ shortEscapes) : Spelled c ['\\', letter]
  | numbered {c : Char} (control : c.toNat < 0x20) (unlisted : ∀ letter, (c, letter) ∉ shortEscapes) :
      Spelled c ['\\', 'u', '0', '0', hexDigit (c.toNat / 16), hexDigit (c.toNat % 16)]

theorem spelled_escapeChar (c : Char) : Spelled c (escapeChar c) := by
  unfold escapeChar
  split_ifs with h1 h2 h3 h4 h5 h6 h7 h8
  · rw [h1]
    exact .short (by decide)
  · rw [h2]
    exact .short (by decide)
  · rw [h3]
    exact .short (by decide)
  · rw [h4]
    exact .short (by decide)
  · rw [h5]
    exact .short (by decide)
  · rw [h6]
    exact .short (by decide)
  · rw [h7]
    exact .short (by decide)
  · refine .numbered h8 fun letter hmem => ?_
    simp only [shortEscapes, List.mem_cons, Prod.mk.injEq, List.not_mem_nil, or_false] at hmem
    tauto
  · exact .plain (Nat.not_lt.mp h8) h1 h2

theorem mark_same {c : Char} (h : isSpace (code c) = false) (rest : Bytes) :
    mark c (code c :: rest) = some rest := by
  unfold mark skipSpace
  rw [List.dropWhile_cons_of_neg (by simp [h])]
  exact if_pos rfl

theorem mark_other {c : Char} {b : UInt8} (h : isSpace b = false) (hb : b ≠ code c)
    (rest : Bytes) : mark c (b :: rest) = none := by
  unfold mark skipSpace
  rw [List.dropWhile_cons_of_neg (by simp [h])]
  exact if_neg hb

theorem stringBytes_cons (fuel : Nat) (b : UInt8) (bs : Bytes) :
    stringBytes (fuel + 1) (b :: bs) =
      if b = code '"' then some ([], bs)
      else if b = code '\\' then
        match bs with
        | [] => none
        | e :: more =>
          if e = code 'u' then do
            let (c, rest) ← numbered more
            let (text, rest) ← stringBytes fuel rest
            return (String.utf8EncodeChar c ++ text, rest)
          else do
            let plain ← plainEscape? e
            let (text, rest) ← stringBytes fuel more
            return (plain :: text, rest)
      else if b < 0x20 then none
      else do
        let (text, rest) ← stringBytes fuel bs
        return (b :: text, rest) := rfl

theorem stringBytes_plain {ps : Bytes}
    (hps : ∀ b ∈ ps, b ≠ code '"' ∧ b ≠ code '\\' ∧ ¬ b < 0x20) (fuel : Nat) (bs : Bytes) :
    stringBytes (fuel + ps.length) (ps ++ bs) =
      (stringBytes fuel bs).map fun r => (ps ++ r.1, r.2) := by
  induction ps with
  | nil => 
    show stringBytes fuel bs = _
    cases stringBytes fuel bs <;> rfl
  | cons p ps ih =>
    obtain ⟨hquote, hback, hlow⟩ := hps p (List.mem_cons_self)
    have ih := ih fun b hb => hps b (List.mem_cons_of_mem p hb)
    rw [List.length_cons, ← Nat.add_assoc, List.cons_append, stringBytes_cons, if_neg hquote,
      if_neg hback, if_neg hlow, ih]
    cases stringBytes fuel bs <;> rfl

theorem stringBytes_short {e p : UInt8} (he : e ≠ code 'u') (hp : plainEscape? e = some p)
    (fuel : Nat) (bs : Bytes) :
    stringBytes (fuel + 1) (code '\\' :: e :: bs) =
      (stringBytes fuel bs).map fun r => (p :: r.1, r.2) := by
  rw [stringBytes_cons, if_neg (by decide), if_pos rfl]
  dsimp only
  rw [if_neg he, hp, Option.bind_eq_bind, Option.bind_some]
  cases stringBytes fuel bs <;> rfl

theorem hexValue?_hexDigit {n : Nat} (h : n < 16) : hexValue? (code (hexDigit n)) = some n := by
  have hall : ∀ n < 16, hexValue? (code (hexDigit n)) = some n := by decide
  exact hall n h

theorem stringBytes_numbered {n : Nat} (h : n < 0x20) (fuel : Nat) (bs : Bytes) :
    stringBytes (fuel + 1)
        (code '\\' :: code 'u' :: code '0' :: code '0' :: code (hexDigit (n / 16)) ::
          code (hexDigit (n % 16)) :: bs) =
      (stringBytes fuel bs).map fun r => (String.utf8EncodeChar (Char.ofNat n) ++ r.1, r.2) := by
  have hunit : unit (code '0' :: code '0' :: code (hexDigit (n / 16)) ::
      code (hexDigit (n % 16)) :: bs) = some (n, bs) := by
    have hzero : hexValue? (code '0') = some 0 := by decide
    have hhigh := hexValue?_hexDigit (n := n / 16) (by omega)
    have hlow := hexValue?_hexDigit (n := n % 16) (by omega)
    unfold unit
    simp only [hzero, hhigh, hlow, Option.bind_eq_bind, Option.bind_some, Option.pure_def]
    congr 2
    omega
  have hchar : numbered (code '0' :: code '0' :: code (hexDigit (n / 16)) ::
      code (hexDigit (n % 16)) :: bs) = some (Char.ofNat n, bs) := by
    have hsmall : (decide (n < 0xD800) || decide (0xE000 ≤ n)) = true := by
      rw [decide_eq_true (by omega), Bool.true_or]
    unfold numbered
    rw [hunit, Option.bind_eq_bind, Option.bind_some]
    exact if_pos hsmall
  rw [stringBytes_cons, if_neg (by decide), if_pos rfl]
  dsimp only
  rw [if_pos rfl, hchar, Option.bind_eq_bind, Option.bind_some]
  cases stringBytes fuel bs <;> rfl

theorem encodeChar_code {c : Char} (h : c.toNat < 0x80) : String.utf8EncodeChar c = [code c] :=
  encodeChar_ascii h

theorem ne_code_of_toNat_ne {b : UInt8} {c : Char} (h : c.toNat < 0x80) (hne : b.toNat ≠ c.toNat) :
    b ≠ code c := by
  rintro rfl
  exact hne (toNat_ofNat (Nat.lt_trans h (by decide)))

theorem plain_of_mem_encodeChar {c : Char} (visible : 0x20 ≤ c.toNat) (hquote : c ≠ '"')
    (hback : c ≠ '\\') {b : UInt8} (hb : b ∈ String.utf8EncodeChar c) :
    b ≠ code '"' ∧ b ≠ code '\\' ∧ ¬ b < 0x20 := by
  have hne : ∀ d : Char, c ≠ d → d.toNat < 0x80 → b.toNat = c.toNat ∨ 0x80 ≤ b.toNat → b ≠ code d := by
    intro d hcd hd hb
    apply ne_code_of_toNat_ne hd
    intro he
    rcases hb with hb | hb
    · exact hcd (Char.toNat_inj.mp (hb.symm.trans he))
    · omega
  have hb' : b.toNat = c.toNat ∨ 0x80 ≤ b.toNat := by
    rcases Nat.lt_or_ge c.toNat 0x80 with hlt | hge
    · rw [encodeChar_ascii hlt, List.mem_singleton] at hb
      exact .inl (by rw [hb]; exact toNat_ofNat (by omega))
    · exact .inr (high_of_mem_encodeChar hge hb)
  refine ⟨hne _ hquote (by decide) hb', hne _ hback (by decide) hb', ?_⟩
  rw [UInt8.lt_iff_toNat_lt]
  show ¬ b.toNat < 0x20
  omega

theorem stringBytes_spelled {c : Char} {t : List Char} (h : Spelled c t) (bs : Bytes) {fuel : Nat}
    (hfuel : (t.flatMap String.utf8EncodeChar).length ≤ fuel) :
    ∃ left, fuel ≤ left + (t.flatMap String.utf8EncodeChar).length ∧
      stringBytes fuel (t.flatMap String.utf8EncodeChar ++ bs) =
        (stringBytes left bs).map fun r => (String.utf8EncodeChar c ++ r.1, r.2) := by
  cases h with
  | plain visible hquote hback =>
    rw [List.flatMap_singleton] at hfuel ⊢
    obtain ⟨left, rfl⟩ := Nat.exists_eq_add_of_le' hfuel
    exact ⟨left, Nat.le_refl _,
      stringBytes_plain (fun b hb => plain_of_mem_encodeChar visible hquote hback hb) left bs⟩
  | @short letter listed =>
    have hall : ∀ p ∈ shortEscapes, p.1.toNat < 0x80 ∧ p.2.toNat < 0x80 ∧ code p.2 ≠ code 'u' ∧
        plainEscape? (code p.2) = some (code p.1) := by decide
    obtain ⟨hc, hletter, hu, hplain⟩ := hall _ listed
    have hbytes : ['\\', letter].flatMap String.utf8EncodeChar = [code '\\', code letter] := by
      rw [List.flatMap_cons, List.flatMap_singleton, encodeChar_code hletter]
      rfl
    rw [hbytes] at hfuel ⊢
    obtain ⟨left, rfl⟩ := Nat.exists_eq_add_of_le' hfuel
    refine ⟨left + 1, Nat.add_le_add_right (Nat.le_add_right left 1) _, ?_⟩
    rw [encodeChar_code hc]
    exact stringBytes_short hu hplain (left + 1) bs
  | numbered control unlisted =>
    have hdigit : ∀ n < 16, (hexDigit n).toNat < 0x80 := by decide
    have hbytes : ['\\', 'u', '0', '0', hexDigit (c.toNat / 16), hexDigit (c.toNat % 16)].flatMap
        String.utf8EncodeChar = [code '\\', code 'u', code '0', code '0',
          code (hexDigit (c.toNat / 16)), code (hexDigit (c.toNat % 16))] := by
      simp only [List.flatMap_cons, List.flatMap_nil, encodeChar_code (hdigit (c.toNat / 16) (by omega)),
        encodeChar_code (hdigit (c.toNat % 16) (by omega))]
      rfl
    rw [hbytes] at hfuel ⊢
    obtain ⟨left, rfl⟩ := Nat.exists_eq_add_of_le' hfuel
    refine ⟨left + 5, Nat.add_le_add_right (Nat.le_add_right left 5) _, ?_⟩
    have hread := stringBytes_numbered control (left + 5) bs
    rw [Char.ofNat_toNat] at hread
    exact hread

theorem stringBytes_escaped (cs : List Char) (rest : Bytes) {fuel : Nat}
    (hfuel : ((cs.flatMap escapeChar).flatMap String.utf8EncodeChar).length < fuel) :
    stringBytes fuel
        ((cs.flatMap escapeChar).flatMap String.utf8EncodeChar ++ code '"' :: rest) =
      some (cs.flatMap String.utf8EncodeChar, rest) := by
  induction cs generalizing fuel with
  | nil =>
    obtain ⟨left, rfl⟩ := Nat.exists_eq_add_of_le' hfuel
    exact (stringBytes_cons left _ rest).trans (if_pos rfl)
  | cons c cs ih =>
    rw [List.flatMap_cons, List.flatMap_append, List.length_append] at hfuel
    have hfirst : ((escapeChar c).flatMap String.utf8EncodeChar).length ≤ fuel := by omega
    obtain ⟨left, hleft, hread⟩ := stringBytes_spelled (spelled_escapeChar c)
      ((cs.flatMap escapeChar).flatMap String.utf8EncodeChar ++ code '"' :: rest) hfirst
    rw [List.flatMap_cons, List.flatMap_append, List.append_assoc, hread, ih (by omega),
      List.flatMap_cons]
    rfl

theorem encode_quote (s : String) :
    encode (quote s) =
      code '"' :: ((s.toList.flatMap escapeChar).flatMap String.utf8EncodeChar ++ [code '"']) := by
  have hmark : encode "\"" = [code '"'] := by decide
  unfold quote
  rw [Utf8.encode_append, Utf8.encode_append, hmark, Utf8.encode_ofList, List.singleton_append,
    List.cons_append]

theorem string_quote (s : String) (rest : Bytes) :
    string (encode (quote s) ++ rest) = some (s, rest) := by
  unfold string stringBody
  rw [encode_quote, List.cons_append, mark_same (by decide), Option.bind_some, List.append_assoc,
    List.singleton_append, stringBytes_escaped _ _ (by rw [List.length_append]; omega),
    Option.bind_eq_bind, Option.bind_some]
  have hdecode : Utf8.decode? (s.toList.flatMap String.utf8EncodeChar) = some s :=
    Utf8.decode?_encode s
  dsimp only
  rw [hdecode]
  rfl

end FunctionPairs.Dataset
