import FunctionPairs.Proofs.Dataset.Spelling

/-!
Reading a stored dataset. Each part is read back in front of what follows it: the cap, the
columns, the members one after the other, and so the whole object.
-/
namespace FunctionPairs.Dataset

open Utf8 (encode encodeChar_ascii toNat_ofNat)

/-! Counts. -/

theorem isDigit_code {c : Char} (h : c.isDigit = true) :
    isDigit (code c) = true ∧ isSpace (code c) = false ∧
      (code c - code '0').toNat = c.toNat - '0'.toNat ∧ (code c).toNat = c.toNat := by
  have hrange : 48 ≤ c.toNat ∧ c.toNat ≤ 57 := by
    simpa [Char.isDigit, UInt32.le_iff_toNat_le] using h
  have hcode : (code c).toNat = c.toNat := toNat_ofNat (Nat.lt_of_le_of_lt hrange.2 (by decide))
  have hlow : code '0' ≤ code c := by
    rw [UInt8.le_iff_toNat_le, hcode]
    exact hrange.1
  have hhigh : code c ≤ code '9' := by
    rw [UInt8.le_iff_toNat_le, hcode]
    exact hrange.2
  refine ⟨?_, ?_, ?_, hcode⟩
  · unfold isDigit
    rw [decide_eq_true hlow, decide_eq_true hhigh, Bool.and_self]
  · have hne : ∀ d : Char, d.toNat < 48 → code c ≠ code d := by
      intro d hd
      apply ne_code_of_toNat_ne (by omega)
      omega
    unfold isSpace
    simp only [hne ' ' (by decide), hne '\n' (by decide), hne '\t' (by decide),
      hne '\r' (by decide), decide_false, Bool.or_self]
  · rw [UInt8.toNat_sub_of_le _ _ hlow, hcode]
    rfl

theorem digitsValue_code {cs : List Char} (h : ∀ c ∈ cs, c.isDigit = true) (n : Nat) :
    (cs.map code).foldl (fun n d => n * 10 + (d - code '0').toNat) n = Nat.ofDigitChars 10 cs n := by
  induction cs generalizing n with
  | nil => rw [Nat.ofDigitChars_nil]; rfl
  | cons c cs ih =>
    have hc := isDigit_code (h c List.mem_cons_self)
    rw [List.map_cons, List.foldl_cons, hc.2.2.1, Nat.ofDigitChars_cons, Nat.mul_comm n 10]
    exact ih (fun d hd => h d (List.mem_cons_of_mem c hd)) _

theorem head?_toDigits {n : Nat} (h : 0 < n) : (Nat.toDigits 10 n).head? ≠ some '0' := by
  induction n using Nat.strongRecOn with
  | ind n ih =>
    rcases Nat.lt_or_ge n 10 with hlt | hge
    · rw [Nat.toDigits_of_lt_base hlt, List.head?_cons]
      intro hzero
      have hzero := Option.some.inj hzero
      rw [Nat.digitChar_eq_zero] at hzero
      omega
    · have hne : Nat.toDigits 10 (n / 10) ≠ [] := Nat.toDigits_ne_nil
      rw [Nat.toDigits_of_base_le (by decide) hge, List.head?_append_of_ne_nil _ hne]
      exact ih (n / 10) (by omega) (by omega)

theorem not_padded_toDigits (n : Nat) :
    (decide (1 < ((Nat.toDigits 10 n).map code).length) &&
      decide (((Nat.toDigits 10 n).map code).head? = some (code '0'))) = false := by
  rcases Nat.eq_zero_or_pos n with rfl | hpos
  · rw [Nat.toDigits_zero]
    rfl
  · obtain ⟨c, cs, hcs⟩ := List.exists_cons_of_ne_nil (Nat.toDigits_ne_nil (n := n) (b := 10))
    have hhead := head?_toDigits hpos
    rw [hcs, List.head?_cons, ne_eq, Option.some.injEq] at hhead
    have hdigit : c.isDigit = true :=
      Nat.isDigit_of_mem_toDigits (by decide) (by decide) (hcs ▸ List.mem_cons_self)
    have hne : code c ≠ code '0' := by
      intro he
      have hcode := (isDigit_code hdigit).2.2.2
      rw [he] at hcode
      exact hhead (Char.toNat_inj.mp hcode.symm)
    rw [hcs, List.map_cons, List.head?_cons,
      decide_eq_false (fun h => hne (Option.some.inj h)), Bool.and_false]

theorem encode_toString (n : Nat) : encode (toString n) = (Nat.toDigits 10 n).map code := by
  have hascii : ∀ cs : List Char, (∀ c ∈ cs, c.isDigit = true) →
      cs.flatMap String.utf8EncodeChar = cs.map code := by
    intro cs hcs
    induction cs with
    | nil => rfl
    | cons c cs ih =>
      have hdigit : c.toNat ≤ 57 := by
        have hc := hcs c List.mem_cons_self
        simp only [Char.isDigit, Bool.and_eq_true, decide_eq_true_eq] at hc
        exact hc.2
      rw [List.flatMap_cons, encodeChar_code (by omega),
        ih fun d hd => hcs d (List.mem_cons_of_mem c hd)]
      rfl
  rw [Nat.toString_eq_ofList_toDigits, Utf8.encode_ofList]
  exact hascii _ fun c hc => Nat.isDigit_of_mem_toDigits (by decide) (by decide) hc

theorem count_toString {n : Nat} (h : n ≤ Decimal.maxCount) (rest : Bytes) :
    count (encode (toString n) ++ code ',' :: rest) = some (n, code ',' :: rest) := by
  have hdigits : ∀ c ∈ Nat.toDigits 10 n, c.isDigit = true := fun c hc =>
    Nat.isDigit_of_mem_toDigits (by decide) (by decide) hc
  have hall : ∀ d ∈ (Nat.toDigits 10 n).map code, isDigit d = true := by
    intro d hd
    obtain ⟨c, hc, rfl⟩ := List.mem_map.mp hd
    exact (isDigit_code (hdigits c hc)).1
  obtain ⟨c, cs, hcs⟩ := List.exists_cons_of_ne_nil (Nat.toDigits_ne_nil (n := n) (b := 10))
  have hspace : skipSpace (encode (toString n) ++ code ',' :: rest) =
      (Nat.toDigits 10 n).map code ++ code ',' :: rest := by
    have hc := (isDigit_code (hdigits c (hcs ▸ List.mem_cons_self))).2.1
    rw [encode_toString, hcs, List.map_cons, List.cons_append]
    unfold skipSpace
    rw [List.dropWhile_cons_of_neg (by simp [hc])]
  have htake : ((Nat.toDigits 10 n).map code ++ code ',' :: rest).takeWhile isDigit =
      (Nat.toDigits 10 n).map code := by
    rw [List.takeWhile_append_of_pos hall, List.takeWhile_cons_of_neg (by decide), List.append_nil]
  have hdrop : ((Nat.toDigits 10 n).map code ++ code ',' :: rest).dropWhile isDigit =
      code ',' :: rest := by
    rw [List.dropWhile_append_of_pos hall, List.dropWhile_cons_of_neg (by decide)]
  have hvalue : digitsValue ((Nat.toDigits 10 n).map code) = n := by
    unfold digitsValue
    rw [digitsValue_code hdigits, Nat.ofDigitChars_ten_toDigits]
  have hempty : ((Nat.toDigits 10 n).map code).isEmpty = false := by
    rw [hcs]
    rfl
  unfold count
  simp only [hspace, htake, hdrop, hvalue, hempty, not_padded_toDigits, List.head?_cons,
    Option.map_some, Option.getD_some]
  rw [if_neg (by decide), if_pos h]

/-! Columns. -/

theorem encode_intercalate (t : String) (ts : List String) :
    encode (",".intercalate (t :: ts)) = encode t ++ ts.flatMap fun u => code ',' :: encode u := by
  have hcomma : encode "," = [code ','] := by decide
  induction ts generalizing t with
  | nil => rw [String.intercalate_singleton, List.flatMap_nil, List.append_nil]
  | cons u ts ih =>
    rw [String.intercalate_cons_cons, Utf8.encode_append, Utf8.encode_append, ih, hcomma,
      List.flatMap_cons]
    simp only [List.append_assoc, List.cons_append, List.nil_append]

section Columns

variable {α : Type} {item : Reader α} {f : α → String}

theorem length_le_flatMap (f : α → String) (as : List α) :
    as.length ≤ (as.flatMap fun a => code ',' :: encode (f a)).length := by
  induction as with
  | nil => exact Nat.le_refl 0
  | cons a as ih =>
    simp only [List.flatMap_cons, List.length_append, List.length_cons]
    omega

theorem itemsFrom_next {first : Bool} {bs bs' rest : Bytes} {a : α} (fuel : Nat)
    (hopen : mark ']' bs = none) (hcomma : (if first then some bs else mark ',' bs) = some bs')
    (hitem : item bs' = some (a, rest)) :
    itemsFrom item (fuel + 1) first bs =
      (itemsFrom item fuel false rest).map fun r => (a :: r.1, r.2) := by
  have hrun : itemsFrom item (fuel + 1) first bs =
      (if first then some bs else mark ',' bs).bind fun bs => (item bs).bind fun r =>
        (itemsFrom item fuel false r.2).bind fun s => some (r.1 :: s.1, s.2) := by
    rw [itemsFrom, hopen]
    cases first <;> rfl
  rw [hrun, hcomma, Option.bind_some, hitem, Option.bind_some]
  cases itemsFrom item fuel false rest <;> rfl

theorem itemsFrom_flatMap (hitem : ∀ a rest, item (encode (f a) ++ rest) = some (a, rest))
    (as : List α) (rest : Bytes) {fuel : Nat} (hfuel : as.length < fuel) :
    itemsFrom item fuel false
        ((as.flatMap fun a => code ',' :: encode (f a)) ++ code ']' :: rest) =
      some (as, rest) := by
  induction as generalizing fuel with
  | nil =>
    obtain ⟨left, rfl⟩ := Nat.exists_eq_add_of_le' hfuel
    rw [List.flatMap_nil, List.nil_append]
    unfold itemsFrom
    rw [mark_same (by decide)]
  | cons a as ih =>
    obtain ⟨left, rfl⟩ : ∃ left, fuel = left + 1 := ⟨fuel - 1, by omega⟩
    have hleft : as.length < left := Nat.lt_of_succ_lt_succ hfuel
    rw [List.flatMap_cons, List.cons_append, List.cons_append, List.append_assoc]
    have hopen : ∀ bs, mark ']' (code ',' :: bs) = none := mark_other (by decide) (by decide)
    have hcomma : ∀ bs, mark ',' (code ',' :: bs) = some bs := mark_same (by decide)
    rw [itemsFrom_next _ (hopen _) ((if_neg Bool.false_ne_true).trans (hcomma _)) (hitem a _), ih hleft]
    rfl

theorem array_intercalate (hitem : ∀ a rest, item (encode (f a) ++ rest) = some (a, rest))
    (hquote : ∀ a, ∃ t, encode (f a) = code '"' :: t) (as : List α) (rest : Bytes) :
    array item (encode ("[" ++ ",".intercalate (as.map f) ++ "]") ++ rest) = some (as, rest) := by
  have hopen : encode "[" = [code '['] := by decide
  have hclose : encode "]" = [code ']'] := by decide
  rw [Utf8.encode_append, Utf8.encode_append, hopen, hclose, List.append_assoc, List.append_assoc,
    List.singleton_append, List.singleton_append]
  unfold array
  rw [mark_same (by decide), Option.bind_eq_bind, Option.bind_some]
  cases as with
  | nil =>
    have hnil : encode (",".intercalate (List.map f [])) = [] := rfl
    rw [hnil, List.nil_append]
    unfold itemsFrom
    rw [mark_same (by decide)]
  | cons a as =>
    obtain ⟨t, ht⟩ := hquote a
    have hnext : ∀ bs, mark ']' (encode (f a) ++ bs) = none := by
      intro bs
      rw [ht, List.cons_append]
      exact mark_other (by decide) (by decide) _
    have htail : (as.map f).flatMap (fun u => code ',' :: encode u) =
        as.flatMap fun a => code ',' :: encode (f a) := List.flatMap_map ..
    rw [List.map_cons, encode_intercalate, htail, List.append_assoc]
    rw [itemsFrom_next _ (hnext _) (if_pos rfl) (hitem a _), itemsFrom_flatMap hitem as rest]
    · rfl
    · have hlength := length_le_flatMap f as
      simp only [List.length_append, List.length_cons]
      omega

end Columns

theorem quote_head (s : String) : ∃ t, encode (quote s) = code '"' :: t := ⟨_, encode_quote s⟩

theorem array_string (ss : List String) (rest : Bytes) :
    array string (encode (quoteAll ss) ++ rest) = some (ss, rest) :=
  array_intercalate string_quote quote_head ss rest

theorem lang_quote (l : Lang) (rest : Bytes) :
    lang (encode (quote l.key) ++ rest) = some (l, rest) := by
  obtain ⟨t, ht⟩ := quote_head l.key
  have hplain : mark '\x7b' (encode (quote l.key) ++ rest) = none := by
    rw [ht, List.cons_append]
    exact mark_other (by decide) (by decide) _
  have hname : langName? l.key = some l := by cases l <;> rfl
  unfold lang
  rw [hplain]
  dsimp only
  rw [string_quote, Option.bind_eq_bind, Option.bind_some, hname]
  rfl

theorem array_lang (ls : List Lang) (rest : Bytes) :
    array lang (encode (quoteAll (ls.map Lang.key)) ++ rest) = some (ls, rest) := by
  unfold quoteAll
  rw [List.map_map]
  exact array_intercalate lang_quote (fun l => quote_head l.key) ls rest

/-! The object. -/

theorem members_of_open {first : Bool} {p : Partial} {bs : Bytes} (fuel : Nat)
    (hopen : mark '\x7d' bs = none) :
    members (fuel + 1) first p bs =
      (if first then some bs else mark ',' bs).bind fun bs => (string bs).bind fun k =>
        (mark ':' k.2).bind fun bs => (member p k.1 bs).bind fun q =>
          members fuel false q.1 q.2 := by
  rw [members, hopen]
  cases first <;> rfl

theorem members_next {first : Bool} {p p' : Partial} {bs bs₁ bs₂ bs₃ rest : Bytes} {key : String}
    (fuel : Nat) (hopen : mark '\x7d' bs = none)
    (hcomma : (if first then some bs else mark ',' bs) = some bs₁)
    (hkey : string bs₁ = some (key, bs₂)) (hcolon : mark ':' bs₂ = some bs₃)
    (hvalue : member p key bs₃ = some (p', rest)) :
    members (fuel + 1) first p bs = members fuel false p' rest := by
  rw [members_of_open fuel hopen, hcomma, Option.bind_some, hkey, Option.bind_some, hcolon,
    Option.bind_some, hvalue, Option.bind_some]

theorem members_written {p p' : Partial} {key : String} {value rest : Bytes} (first : Bool)
    (hvalue : member p key (value ++ rest) = some (p', rest)) (fuel : Nat) :
    members (fuel + 1) first p
        ((if first then [] else [code ',']) ++ (encode (quote key) ++ code ':' :: (value ++ rest))) =
      members fuel false p' rest := by
  obtain ⟨t, ht⟩ := quote_head key
  have hcolon : ∀ bs, mark ':' (code ':' :: bs) = some bs := mark_same (by decide)
  cases first with
  | true =>
    rw [if_pos rfl, List.nil_append]
    refine members_next fuel ?_ (if_pos rfl) (string_quote key _) (hcolon _) hvalue
    rw [ht, List.cons_append]
    exact mark_other (by decide) (by decide) _
  | false =>
    rw [if_neg Bool.false_ne_true, List.singleton_append]
    refine members_next fuel (mark_other (by decide) (by decide) _) ?_ (string_quote key _)
      (hcolon _) hvalue
    exact (if_neg Bool.false_ne_true).trans (mark_same (by decide) _)

theorem encode_toJson (d : Dataset) :
    encode d.toJson = code '\x7b' :: (encode (quote "max_len") ++ code ':' ::
      (encode (toString d.maxLen) ++ code ',' :: (encode (quote "sources") ++ code ':' ::
        (encode (quoteAll d.sources) ++ code ',' :: (encode (quote "decompileds") ++ code ':' ::
          (encode (quoteAll d.decompileds) ++ code ',' :: (encode (quote "code_types") ++ code ':' ::
            (encode (quoteAll (d.langs.map Lang.key)) ++ [code '\x7d'])))))))) := by
  have h1 : encode "\x7b\"max_len\":" = code '\x7b' :: (encode (quote "max_len") ++ [code ':']) := by
    decide
  have h2 : encode ",\"sources\":" = code ',' :: (encode (quote "sources") ++ [code ':']) := by
    decide
  have h3 : encode ",\"decompileds\":" =
      code ',' :: (encode (quote "decompileds") ++ [code ':']) := by decide
  have h4 : encode ",\"code_types\":" =
      code ',' :: (encode (quote "code_types") ++ [code ':']) := by decide
  have h5 : encode "\x7d" = [code '\x7d'] := by decide
  unfold toJson
  simp only [Utf8.encode_append, h1, h2, h3, h4, h5, List.append_assoc, List.cons_append,
    List.nil_append]

theorem once_none {α β : Type} {reader : Reader α} {bs rest : Bytes} {a : α}
    (h : reader bs = some (a, rest)) (f : Option α → β) :
    ((once none reader bs).map fun r => (f r.1, r.2)) = some (f (some a), rest) := by
  unfold once
  rw [h]
  rfl

theorem objectForm_toJson (d : Dataset) (h : d.maxLen ≤ Decimal.maxCount) :
    objectForm (encode d.toJson) = some (d, []) := by
  have hmax : ∀ rest, member .none "max_len" (encode (toString d.maxLen) ++ code ',' :: rest) =
      some (⟨some d.maxLen, none, none, none⟩, code ',' :: rest) := fun rest =>
    once_none (count_toString h rest) fun v => (⟨v, none, none, none⟩ : Partial)
  have hsources : ∀ rest, member ⟨some d.maxLen, none, none, none⟩ "sources"
      (encode (quoteAll d.sources) ++ rest) =
      some (⟨some d.maxLen, some d.sources, none, none⟩, rest) := fun rest =>
    once_none (array_string d.sources rest) fun v =>
      (⟨some d.maxLen, v, none, none⟩ : Partial)
  have hdecompileds : ∀ rest, member ⟨some d.maxLen, some d.sources, none, none⟩ "decompileds"
      (encode (quoteAll d.decompileds) ++ rest) =
      some (⟨some d.maxLen, some d.sources, some d.decompileds, none⟩, rest) := fun rest =>
    once_none (array_string d.decompileds rest) fun v =>
      (⟨some d.maxLen, some d.sources, v, none⟩ : Partial)
  have hlangs : ∀ rest, member ⟨some d.maxLen, some d.sources, some d.decompileds, none⟩
      "code_types" (encode (quoteAll (d.langs.map Lang.key)) ++ rest) =
      some (⟨some d.maxLen, some d.sources, some d.decompileds, some d.langs⟩, rest) := fun rest =>
    once_none (array_lang d.langs rest) fun v =>
      (⟨some d.maxLen, some d.sources, some d.decompileds, v⟩ : Partial)
  have hend : ∀ fuel p, members (fuel + 1) false p [code '\x7d'] = some (p, []) := by
    intro fuel p
    unfold members
    rw [mark_same (by decide)]
  have hmembers : ∀ fuel, members (fuel + 5) true .none
      (encode (quote "max_len") ++ code ':' :: (encode (toString d.maxLen) ++ code ',' ::
        (encode (quote "sources") ++ code ':' :: (encode (quoteAll d.sources) ++ code ',' ::
          (encode (quote "decompileds") ++ code ':' :: (encode (quoteAll d.decompileds) ++ code ',' ::
            (encode (quote "code_types") ++ code ':' ::
              (encode (quoteAll (d.langs.map Lang.key)) ++ [code '\x7d'])))))))) =
      some (⟨some d.maxLen, some d.sources, some d.decompileds, some d.langs⟩, []) := by
    intro fuel
    refine (members_written true (hmax _) (fuel + 4)).trans ?_
    refine (members_written false (hsources _) (fuel + 3)).trans ?_
    refine (members_written false (hdecompileds _) (fuel + 2)).trans ?_
    refine (members_written false (hlangs _) (fuel + 1)).trans ?_
    exact hend fuel _
  have hlength : ∀ rest : Bytes, ∃ fuel,
      (encode (quote "max_len") ++ code ':' :: rest).length + 1 = fuel + 5 := by
    intro rest
    refine ⟨(encode (quote "max_len") ++ code ':' :: rest).length - 4, ?_⟩
    have hkey : (encode (quote "max_len")).length = 9 := by decide
    rw [List.length_append, hkey]
    omega
  unfold objectForm
  rw [encode_toJson, mark_same (by decide), Option.bind_eq_bind, Option.bind_some]
  obtain ⟨fuel, hfuel⟩ := hlength _
  rw [hfuel, hmembers fuel]
  rfl

theorem ofJson_toJson (d : Dataset) (h : d.maxLen ≤ Decimal.maxCount) :
    ofJson (encode d.toJson) = some d := by
  have hobject : (mark '[' (encode d.toJson)).isSome = false := by
    rw [encode_toJson, mark_other (by decide) (by decide)]
    rfl
  unfold ofJson
  rw [hobject]
  dsimp only
  rw [if_neg Bool.false_ne_true, objectForm_toJson d h]
  rfl

/-! What is read has a cap of 64 bits. -/

theorem le_of_count {bs rest : Bytes} {n : Nat} (h : count bs = some (n, rest)) :
    n ≤ Decimal.maxCount := by
  unfold count at h
  dsimp only at h
  split at h
  · cases h
  · split at h
    · next hle =>
      cases h
      exact hle
    · cases h

def Partial.Capped (p : Partial) : Prop := ∀ n ∈ p.maxLen, n ≤ Decimal.maxCount

theorem capped_of_member {p p' : Partial} {key : String} {bs rest : Bytes} (hp : p.Capped)
    (h : member p key bs = some (p', rest)) : p'.Capped := by
  unfold member at h
  split at h <;> obtain ⟨⟨v, left⟩, hv, hp'⟩ := Option.map_eq_some_iff.mp h <;> cases hp'
  · unfold once at hv
    split at hv
    · cases hv
    · obtain ⟨⟨n, left⟩, hn, hsome⟩ := Option.map_eq_some_iff.mp hv
      cases hsome
      intro m hm
      rw [← Option.some.inj hm]
      exact le_of_count hn
  all_goals exact hp

theorem capped_of_members {fuel : Nat} {first : Bool} {p p' : Partial} {bs rest : Bytes}
    (hp : p.Capped) (h : members fuel first p bs = some (p', rest)) : p'.Capped := by
  induction fuel generalizing first p bs with
  | zero => simp [members] at h
  | succ fuel ih =>
    cases hopen : mark '\x7d' bs with
    | some left =>
      simp only [members, hopen, Option.some.injEq, Prod.mk.injEq] at h
      rw [← h.1]
      exact hp
    | none =>
      simp only [members_of_open fuel hopen, Option.bind_eq_some_iff] at h
      obtain ⟨bs₁, -, ⟨key, bs₂⟩, -, bs₃, -, ⟨q, left⟩, hq, h⟩ := h
      exact ih (capped_of_member hp hq) h

theorem maxLen_of_ofJson {d : Dataset} {bs : Bytes} (h : ofJson bs = some d) :
    d.maxLen ≤ Decimal.maxCount := by
  have hforms : ∀ rest, arrayForm bs = some (d, rest) ∨ objectForm bs = some (d, rest) →
      d.maxLen ≤ Decimal.maxCount := by
    rintro rest (harray | hobject)
    · simp only [arrayForm, Option.bind_eq_bind, Option.bind_eq_some_iff, Option.pure_def,
        Option.some.injEq, Prod.mk.injEq] at harray
      obtain ⟨bs₁, -, ⟨n, bs₂⟩, hn, _, -, _, -, _, -, _, -, _, -, _, -, _, -, rfl, -⟩ := harray
      exact le_of_count hn
    · simp only [objectForm, Option.bind_eq_bind, Option.bind_eq_some_iff, Option.pure_def,
        Option.some.injEq, Prod.mk.injEq] at hobject
      obtain ⟨bs₁, -, ⟨p, bs₂⟩, hp, e, he, rfl, -⟩ := hobject
      have hcapped := capped_of_members (p := .none) (by simp [Partial.Capped, Partial.none]) hp
      simp only [Partial.complete?, Option.bind_eq_bind, Option.bind_eq_some_iff, Option.pure_def,
        Option.some.injEq] at he
      obtain ⟨n, hn, _, -, _, -, _, -, rfl⟩ := he
      exact hcapped n hn
  have hrun : ofJson bs =
      ((if (mark '[' bs).isSome then arrayForm else objectForm) bs).bind fun r =>
        if (skipSpace r.2).isEmpty then some r.1 else none := rfl
  rw [hrun, Option.bind_eq_some_iff] at h
  obtain ⟨⟨e, rest⟩, he, h⟩ := h
  have hed : e = d := by
    split at h <;> cases h
    rfl
  rw [hed] at he
  split at he
  · exact hforms rest (.inl he)
  · exact hforms rest (.inr he)

end FunctionPairs.Dataset
