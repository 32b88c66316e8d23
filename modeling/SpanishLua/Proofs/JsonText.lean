import Mathlib.Data.List.Basic
import SpanishLua.Json.Reader

namespace SpanishLua.Proofs.JsonText

open SpanishLua.Json

/-- What may stand after a value that was written. It does not carry a number on. -/
def Follows (rest : List Char) : Prop :=
  ∀ c ∈ rest.head?, c = ',' ∨ c = '\n'

/-- A text is read as `a`, whatever gap stands before it, and nothing after it is taken. -/
def ReadsBack {α : Type} (read : List Char → Step α) (text : List Char) (a : α) : Prop :=
  ∀ gap rest, (∀ c ∈ gap, isGap c = true) → Follows rest →
    read (gap ++ (text ++ rest)) = .ok (a, rest)

theorem follows_nil : Follows [] := by
  intro c hc
  simp at hc

theorem follows_comma (s : List Char) : Follows (',' :: s) := by
  intro c hc
  exact .inl (Option.some.inj hc).symm

theorem follows_newLine (level : Nat) (s : List Char) : Follows (newLine level ++ s) := by
  intro c hc
  exact .inr (Option.some.inj hc).symm

theorem isGap_newLine (level : Nat) : ∀ c ∈ newLine level, isGap c = true := by
  intro c hc
  rcases List.mem_cons.mp hc with rfl | hc
  · rfl
  · obtain rfl := List.eq_of_mem_replicate hc
    rfl

theorem skipGap_append {gap : List Char} (h : ∀ c ∈ gap, isGap c = true) (s : List Char) :
    skipGap (gap ++ s) = skipGap s :=
  List.dropWhile_append_of_pos h

theorem skipGap_cons {c : Char} (h : isGap c = false) (s : List Char) :
    skipGap (c :: s) = c :: s :=
  List.dropWhile_cons_of_neg (by simp [h])

section Strings

theorem hexValue?_hexDigit : ∀ n < 16, hexValue? (hexDigit n) = some n := by
  decide

theorem readHex_control {n : Nat} (h : n < 0x20) (s : List Char) :
    readHex ('0' :: '0' :: hexDigit (n / 16) :: hexDigit (n % 16) :: s) = .ok (n, s) := by
  have hzero : hexValue? '0' = some 0 := by decide
  have hhigh := hexValue?_hexDigit (n / 16) (by omega)
  have hlow := hexValue?_hexDigit (n % 16) (by omega)
  simp only [readHex, hzero, hhigh, hlow, Except.ok.injEq, Prod.mk.injEq, and_true]
  omega

theorem readString_escape {care : Care} {s rest : List Char} {c : Char}
    (h : readEscape care s = .ok (c, rest)) :
    readString care ('\\' :: s) =
      (readString care rest).map fun (body, rest) => (c :: body, rest) := by
  rw [readString]
  simp only [Char.reduceEq, if_false, if_true]
  split
  · rename_i hescape
    rw [h] at hescape
    simp at hescape
  · rename_i hescape
    rw [h] at hescape
    obtain ⟨rfl, rfl⟩ := Prod.mk.inj (Except.ok.inj hescape)
    cases readString care rest <;> rfl

theorem readString_quotedChar (c : Char) (s : List Char) :
    readString .full (quotedChar c ++ s) =
      (readString .full s).map fun (body, rest) => (c :: body, rest) := by
  rw [quotedChar]
  split_ifs with hquote hslash hb hf hn hr ht hcontrol
  · subst hquote
    exact readString_escape rfl
  · subst hslash
    exact readString_escape rfl
  · subst hb
    exact readString_escape rfl
  · subst hf
    exact readString_escape rfl
  · subst hn
    exact readString_escape rfl
  · subst hr
    exact readString_escape rfl
  · subst ht
    exact readString_escape rfl
  · apply readString_escape
    change readUnicodeEscape .full
      ('0' :: '0' :: hexDigit (c.toNat / 16) :: hexDigit (c.toNat % 16) :: s) = _
    simp only [readUnicodeEscape, readHex_control hcontrol]
    rw [if_neg (by decide), if_neg (by omega), if_neg (by omega), Char.ofNat_toNat]
  · rw [List.singleton_append, readString, if_neg hquote, if_neg hslash, if_neg hcontrol]
    cases readString .full s <;> rfl

theorem readString_flatMap (s rest : List Char) :
    readString .full (s.flatMap quotedChar ++ '"' :: rest) = .ok (s, rest) := by
  induction s with
  | nil =>
      rw [List.flatMap_nil, List.nil_append, readString]
      simp
  | cons c s ih =>
      rw [List.flatMap_cons, List.append_assoc, readString_quotedChar, ih]
      rfl

theorem quoted_append (s rest : List Char) :
    quoted s ++ rest = '"' :: (s.flatMap quotedChar ++ '"' :: rest) := by
  simp [quoted]

theorem readsBack_text (s : List Char) : ReadsBack readText (quoted s) s := by
  intro gap rest hgap _
  rw [readText, quoted_append, skipGap_append hgap, skipGap_cons (by decide)]
  simp only [if_true]
  exact readString_flatMap s rest

theorem readsBack_key {s gap rest : List Char} (hgap : ∀ c ∈ gap, isGap c = true) :
    readKey .full (gap ++ (quoted s ++ rest)) = .ok (s, rest) := by
  rw [readKey, quoted_append, skipGap_append hgap, skipGap_cons (by decide)]
  simp only [if_true]
  exact readString_flatMap s rest

end Strings

section Numbers

theorem le_ofDigitChars (n : Nat) (digits : List Char) : n ≤ Nat.ofDigitChars 10 digits n := by
  rw [Nat.ofDigitChars_eq_ofDigitChars_zero]
  have hpos : 0 < 10 ^ digits.length := Nat.pow_pos (by decide)
  have hle := Nat.le_mul_of_pos_left n hpos
  omega

theorem takeDigits_eq {digits : List Char} {n : Nat}
    (h : Nat.ofDigitChars 10 digits n < UInt64.size) :
    takeDigits n digits = (Nat.ofDigitChars 10 digits n, []) := by
  induction digits generalizing n with
  | nil => rfl
  | cons c digits ih =>
      rw [Nat.ofDigitChars_cons] at h
      have hnext : 10 * n + (c.toNat - 0x30) < UInt64.size :=
        Nat.lt_of_le_of_lt (le_ofDigitChars _ digits) h
      rw [takeDigits, if_pos hnext, Nat.ofDigitChars_cons]
      exact ih h

theorem digitsValue_eq (digits : List Char) : digitsValue digits = Nat.ofDigitChars 10 digits 0 :=
  Nat.ofDigitChars_eq_foldl.symm

theorem roundBinary_le (n : Nat) : roundBinary n ≤ n + Nat.pow 2 (n.log2 + 1 - 53) := by
  have hwhole := Nat.div_mul_le_self n (Nat.pow 2 (n.log2 + 1 - 53))
  rw [roundBinary]
  split
  · omega
  · rw [Nat.add_mul]
    omega

theorem pow_le_sub {a b c : Nat} (hab : a ≤ b) (hbc : b < c) :
    Nat.pow 2 a ≤ Nat.pow 2 c - Nat.pow 2 b := by
  have hsmall : Nat.pow 2 a ≤ Nat.pow 2 b := Nat.pow_le_pow_right (by decide) hab
  have hlarge : Nat.pow 2 (b + 1) ≤ Nat.pow 2 c := Nat.pow_le_pow_right (by decide) hbc
  have hdouble : Nat.pow 2 (b + 1) = Nat.pow 2 b * 2 := rfl
  omega

theorem roundBinary_lt {n : Nat} (h : n < UInt64.size) : roundBinary n < floatLimit := by
  have hunit : Nat.pow 2 (n.log2 + 1 - 53) ≤ Nat.pow 2 64 := by
    apply Nat.pow_le_pow_right (by decide)
    have hlog : n.log2 < 64 ∨ n = 0 := by
      rcases Nat.eq_zero_or_pos n with hzero | hpos
      · exact .inr hzero
      · exact .inl ((Nat.log2_lt (Nat.ne_of_gt hpos)).mpr h)
    rcases hlog with hlog | rfl
    · omega
    · decide
  have hsum : UInt64.size + Nat.pow 2 64 = Nat.pow 2 65 := by decide
  have hlimit : Nat.pow 2 65 ≤ floatLimit := by
    -- Lean would work out powers with known exponents.
    rw [floatLimit]
    generalize hlarge : 1024 = m
    generalize hsmall : 970 = n
    exact pow_le_sub (by omega) (by omega)
  have hround := roundBinary_le n
  omega

theorem isTooLarge_whole {digits : List Char} (h : digitsValue digits < UInt64.size) :
    isTooLarge digits [] 0 = false := by
  have hone : roundBinary 1 = 1 := by decide
  have hround := roundBinary_lt h
  rw [digitsValue_eq] at h hround
  simp only [isTooLarge, takeDigits_eq h]
  simp [takeDigits, maxPower, hone, hround]

theorem isDigit_of_mem {c : Char} {n : Nat} (h : c ∈ Nat.toDigits 10 n) : isDigit c = true := by
  have hdigit := Nat.isDigit_of_mem_toDigits (by decide) (by decide) h
  simpa [isDigit, Char.isDigit, UInt32.le_iff_toNat_le] using hdigit

theorem head?_toDigits_ne_zero {n : Nat} (h : 0 < n) :
    (Nat.toDigits 10 n).head? ≠ some '0' := by
  induction n using Nat.strongRecOn with
  | ind n ih =>
      rw [Nat.toDigits_eq_if (by decide)]
      split
      · rename_i hlt
        have hdigit : ∀ n < 10, 0 < n → n.digitChar ≠ '0' := by decide
        simpa using hdigit n hlt h
      · rename_i hlt
        rw [List.head?_append_of_ne_nil _ Nat.toDigits_ne_nil]
        exact ih (n / 10) (by omega) (by omega)

theorem toDigits_ne_zero_cons (n : Nat) (c : Char) (digits : List Char) :
    Nat.toDigits 10 n ≠ '0' :: c :: digits := by
  intro h
  rcases Nat.eq_zero_or_pos n with rfl | hpos
  · simp [Nat.toDigits_zero] at h
  · exact head?_toDigits_ne_zero hpos (by rw [h]; rfl)

theorem readDigits_append {digits rest : List Char} (hdigits : ∀ c ∈ digits, isDigit c = true)
    (hne : digits ≠ []) (hrest : ∀ c ∈ rest.head?, isDigit c = false) :
    readDigits .full (digits ++ rest) = .ok (digits, rest) := by
  have htake : rest.takeWhile isDigit = [] := by
    cases rest with
    | nil => rfl
    | cons c rest => exact List.takeWhile_cons_of_neg (by simp [hrest c rfl])
  have hdrop : rest.dropWhile isDigit = rest := by
    cases rest with
    | nil => rfl
    | cons c rest => exact List.dropWhile_cons_of_neg (by simp [hrest c rfl])
  simp only [readDigits, List.takeWhile_append_of_pos hdigits, htake,
    List.dropWhile_append_of_pos hdigits, hdrop, List.append_nil]
  simp [hne]

theorem isDigit_of_follows {rest : List Char} (h : Follows rest) :
    ∀ c ∈ rest.head?, isDigit c = false := by
  intro c hc
  rcases h c hc with rfl | rfl <;> decide

theorem readInteger_toDigits (n : Nat) {rest : List Char} (h : Follows rest) :
    readInteger .full (Nat.toDigits 10 n ++ rest) = .ok (Nat.toDigits 10 n, rest) := by
  rw [readInteger, readDigits_append (fun c hc => isDigit_of_mem hc) Nat.toDigits_ne_nil
    (isDigit_of_follows h)]
  split
  · rename_i hzero
    exact absurd (Prod.mk.inj (Except.ok.inj hzero)).1 (toDigits_ne_zero_cons n _ _)
  · rfl

theorem readFraction_of_follows {rest : List Char} (h : Follows rest) :
    readFraction .full rest = .ok ([], rest) := by
  rw [readFraction]
  rintro s rfl
  rcases h '.' rfl with hdot | hdot <;> simp at hdot

theorem readExponent_of_follows {rest : List Char} (h : Follows rest) :
    readExponent .full rest = .ok (none, rest) := by
  rw [readExponent]
  · rintro s rfl
    rcases h 'e' rfl with hletter | hletter <;> simp at hletter
  · rintro s rfl
    rcases h 'E' rfl with hletter | hletter <;> simp at hletter

theorem readUnsigned_toDigits (n : UInt64) {rest : List Char} (h : Follows rest) :
    readUnsigned .full false (Nat.toDigits 10 n.toNat ++ rest) = .ok (.natural n, rest) := by
  have hvalue : digitsValue (Nat.toDigits 10 n.toNat) = n.toNat := by
    rw [digitsValue_eq, Nat.ofDigitChars_ten_toDigits]
  have hsize : digitsValue (Nat.toDigits 10 n.toNat) < UInt64.size := by
    rw [hvalue]
    exact n.toNat_lt_size
  simp only [readUnsigned, readInteger_toDigits n.toNat h, readFraction_of_follows h,
    readExponent_of_follows h]
  simp [isTooLarge_whole hsize, hvalue, n.toNat_lt_size]

end Numbers
section Lists

variable {σ : Type} {item : σ → List Char → Step σ} {a b : σ} {closing : Char}

/-- Parts between brackets, each on a line of its own. -/
def listing (opening closing : Char) (level : Nat) : List (List Char) → List Char
  | [] => [opening, closing]
  | part :: parts =>
      opening :: newLine (level + 1) ++ part ++
        parts.flatMap (fun part => ',' :: newLine (level + 1) ++ part) ++ newLine level ++ [closing]

/-- Parts are read one after the other, from the state `a` to the state `b`. Each starts with a
quote, so that none is taken for the end of the list. -/
inductive ReadsAll (item : σ → List Char → Step σ) : σ → List (List Char) → σ → Prop
  | nil {a : σ} : ReadsAll item a [] a
  | cons {a b c : σ} {part : List Char} {parts : List (List Char)} :
      part.head? = some '"' → ReadsBack (item a) part b → ReadsAll item b parts c →
        ReadsAll item a (part :: parts) c

theorem prettyItems_eq (level : Nat) (items : List Value) :
    prettyItems level items =
      (items.map (Value.pretty level)).flatMap fun part => ',' :: newLine level ++ part := by
  induction items with
  | nil => rfl
  | cons item items ih => simp [prettyItems, ih]

/-- A key and the text of its value. -/
def member (key value : List Char) : List Char :=
  quoted key ++ ':' :: ' ' :: value

theorem head?_member (key value : List Char) : (member key value).head? = some '"' :=
  rfl

theorem prettyMembers_eq (level : Nat) (members : List (List Char × Value)) :
    prettyMembers level members =
      (members.map fun m => member m.1 (m.2.pretty level)).flatMap fun part =>
        ',' :: newLine level ++ part := by
  induction members with
  | nil => rfl
  | cons m members ih => simp [prettyMembers, member, ih]

theorem pretty_array (level : Nat) (items : List Value) :
    (Value.array items).pretty level =
      listing '[' ']' level (items.map (Value.pretty (level + 1))) := by
  cases items with
  | nil => rfl
  | cons item items => simp [Value.pretty, listing, prettyItems_eq]

theorem pretty_object (level : Nat) (members : List (List Char × Value)) :
    (Value.object members).pretty level =
      listing '\x7b' '\x7d' level (members.map fun m => member m.1 (m.2.pretty (level + 1))) := by
  cases members with
  | nil => rfl
  | cons m members => simp [Value.pretty, listing, member, prettyMembers_eq]

theorem readSeparator_comma (hclosing : closing ≠ ',') (s : List Char) :
    readSeparator closing (',' :: s) = .ok (true, s) := by
  rw [readSeparator, skipGap_cons (by decide)]
  simp [hclosing.symm]

theorem readSeparator_closing (hgap : isGap closing = false) (level : Nat) (s : List Char) :
    readSeparator closing (newLine level ++ closing :: s) = .ok (false, s) := by
  rw [readSeparator, skipGap_append (isGap_newLine level), skipGap_cons hgap]
  simp

theorem foldItems_parts (hclosing : closing ≠ ',') (hgap : isGap closing = false)
    {level : Nat} {part rest : List Char} {parts : List (List Char)} (gap : List Char)
    (hblank : ∀ c ∈ gap, isGap c = true) (h : ReadsAll item a (part :: parts) b) :
    foldItems item closing a (gap ++ (part ++
        (parts.flatMap (fun part => ',' :: newLine (level + 1) ++ part) ++
          (newLine level ++ closing :: rest)))) = .ok (b, rest) := by
  induction parts generalizing a part gap with
  | nil =>
      obtain _ | ⟨-, hread, hrest⟩ := h
      cases hrest
      rw [foldItems, List.flatMap_nil, List.nil_append,
        hread gap _ hblank (follows_newLine level _)]
      simp only [readSeparator_closing hgap]
  | cons next parts ih =>
      obtain _ | ⟨-, hread, hrest⟩ := h
      rw [foldItems]
      simp only [List.flatMap_cons, List.cons_append, List.append_assoc,
        hread gap _ hblank (follows_comma _), readSeparator_comma hclosing]
      rw [if_pos]
      · exact ih _ (isGap_newLine (level + 1)) hrest
      · simp only [List.length_append, List.length_cons]
        omega

theorem foldBracketed_listing (opening : Char) {closing : Char} (level : Nat)
    {parts : List (List Char)} (h : ReadsAll item a parts b) (rest : List Char)
    (hclosing : closing ≠ ',') (hquote : closing ≠ '"') (hgap : isGap closing = false) :
    ∃ s, listing opening closing level parts ++ rest = opening :: s ∧
      foldBracketed item closing a s = .ok (b, rest) := by
  cases parts with
  | nil =>
      cases h
      refine ⟨closing :: rest, rfl, ?_⟩
      rw [foldBracketed, skipGap_cons hgap]
      simp
  | cons part parts =>
      refine ⟨newLine (level + 1) ++ (part ++
        (parts.flatMap (fun part => ',' :: newLine (level + 1) ++ part) ++
          (newLine level ++ closing :: rest))), by simp [listing], ?_⟩
      have hhead := h
      obtain _ | ⟨hhead, -, -⟩ := hhead
      obtain ⟨part, rfl⟩ : ∃ s, part = '"' :: s := by
        cases part with
        | nil => simp at hhead
        | cons c s => exact ⟨s, by rw [Option.some.inj hhead]⟩
      rw [foldBracketed, skipGap_append (isGap_newLine _), List.cons_append,
        skipGap_cons (by decide)]
      simp only [if_neg hquote.symm]
      exact foldItems_parts hclosing hgap [] (by simp) h

end Lists

section Arrays

variable {α : Type} {item : List Char → Step α} {text : α → List Char} {values : List α}

theorem readsAll_appendItem (h : ∀ a ∈ values, ReadsBack item (text a) a)
    (hquote : ∀ a ∈ values, (text a).head? = some '"') (before : List α) :
    ReadsAll (appendItem item) before (values.map text) (before ++ values) := by
  induction values generalizing before with
  | nil =>
      rw [List.append_nil]
      exact .nil
  | cons a values ih =>
      rw [List.forall_mem_cons] at h hquote
      refine .cons (b := before ++ [a]) hquote.1 ?_ ?_
      · intro gap rest hgap hrest
        rw [appendItem, h.1 gap rest hgap hrest]
      · have hmore := ih h.2 hquote.2 (before ++ [a])
        rwa [← List.append_cons] at hmore

theorem readsBack_array (level : Nat) (h : ∀ a ∈ values, ReadsBack item (text a) a)
    (hquote : ∀ a ∈ values, (text a).head? = some '"') :
    ReadsBack (readArray item) (listing '[' ']' level (values.map text)) values := by
  intro gap rest hgap _
  obtain ⟨s, hs, hread⟩ := foldBracketed_listing '[' level (readsAll_appendItem h hquote []) rest
    (show ']' ≠ ',' by decide) (by decide) (by decide)
  rw [readArray, hs, skipGap_append hgap, skipGap_cons (by decide)]
  simpa using hread

end Arrays

section Objects

variable {α : Type} {key value : List Char} {a : α}

theorem readColon_member (s : List Char) : readColon (':' :: s) = .ok ((), s) := by
  rw [readColon, skipGap_cons (by decide)]
  simp

theorem readsBack_appendMember {read : List Char → Step α} (h : ReadsBack read value a)
    (before : List (List Char × α)) :
    ReadsBack (appendMember .full read before) (member key value) (before ++ [(key, a)]) := by
  intro gap rest hgap hrest
  have hvalue := h [' '] rest (by simp [isGap]) hrest
  rw [List.singleton_append] at hvalue
  rw [appendMember, member, List.append_assoc, readsBack_key hgap]
  simp only [List.cons_append, readColon_member, hvalue]

theorem readsAll_appendMember {read : List Char → Step α} (text : α → List Char)
    {members : List (List Char × α)} (h : ∀ m ∈ members, ReadsBack read (text m.2) m.2)
    (before : List (List Char × α)) :
    ReadsAll (appendMember .full read) before (members.map fun m => member m.1 (text m.2))
      (before ++ members) := by
  induction members generalizing before with
  | nil =>
      rw [List.append_nil]
      exact .nil
  | cons m members ih =>
      rw [List.forall_mem_cons] at h
      refine .cons (b := before ++ [m]) (head?_member _ _) (readsBack_appendMember h.1 before) ?_
      have hmore := ih h.2 (before ++ [m])
      rwa [← List.append_cons] at hmore

theorem readsBack_object {read : List Char → Step α} (text : α → List Char) (level : Nat)
    {members : List (List Char × α)} (h : ∀ m ∈ members, ReadsBack read (text m.2) m.2) :
    ReadsBack (readObject read)
      (listing '\x7b' '\x7d' level (members.map fun m => member m.1 (text m.2))) members := by
  intro gap rest hgap _
  obtain ⟨s, hs, hread⟩ := foldBracketed_listing '\x7b' level (readsAll_appendMember text h [])
    rest (show '\x7d' ≠ ',' by decide) (by decide) (by decide)
  rw [readObject, hs, skipGap_append hgap, skipGap_cons (by decide)]
  simpa using hread

end Objects

section Records

variable {ρ : Type} {fields : List (RecordField ρ)} {r r' : ρ}

/-- Texts under the keys of fields, in order, take a record from one state to another. -/
inductive Fills : ρ → List (RecordField ρ × List Char) → ρ → Prop
  | nil {r : ρ} : Fills r [] r
  | cons {r r' r'' : ρ} {field : RecordField ρ} {value : List Char}
      {written : List (RecordField ρ × List Char)} :
      ReadsBack (field.read r) value r' → Fills r' written r'' →
        Fills r ((field, value) :: written) r''

theorem readsBack_named {field : RecordField ρ} {value : List Char} {seen : List (List Char)}
    (hfield : fields.find? (·.key = field.key) = some field) (hseen : field.key ∉ seen)
    (h : ReadsBack (field.read r) value r') :
    ReadsBack (readNamed fields (seen, r)) (member field.key value) (field.key :: seen, r') := by
  intro gap rest hgap hrest
  have hvalue := h [' '] rest (by simp [isGap]) hrest
  rw [List.singleton_append] at hvalue
  rw [readNamed, member, List.append_assoc, readsBack_key hgap]
  simp only [hfield]
  rw [if_neg (by simpa using hseen)]
  simp only [List.cons_append, readColon_member, hvalue]

theorem readsAll_named (before : List (RecordField ρ)) {written : List (RecordField ρ × List Char)}
    (hfields : fields = before ++ written.map Prod.fst) (hkeys : (fields.map (·.key)).Nodup)
    (h : Fills r written r') :
    ReadsAll (readNamed fields) ((before.map (·.key)).reverse, r)
      (written.map fun w => member w.1.key w.2) ((fields.map (·.key)).reverse, r') := by
  induction h generalizing before with
  | nil =>
      rw [hfields, List.map_nil, List.append_nil]
      exact .nil
  | @cons r _ _ field value written hread hmore ih =>
      have hsplit : fields = (before ++ [field]) ++ written.map Prod.fst := by simp [hfields]
      have hnew : field.key ∉ before.map (·.key) := by
        intro hmem
        rw [hfields, List.map_append, List.nodup_append] at hkeys
        exact hkeys.2.2 _ hmem _ (by simp) rfl
      have hfield : fields.find? (·.key = field.key) = some field := by
        rw [hfields, List.find?_append, List.find?_eq_none.mpr]
        · simp
        · intro other hother
          simp only [decide_eq_true_eq]
          rintro heq
          exact hnew (heq ▸ List.mem_map_of_mem hother)
      refine .cons (head?_member _ _) (readsBack_named hfield (by simpa using hnew) hread) ?_
      simpa using ih (before ++ [field]) hsplit

theorem readsBack_record (level : Nat) (written : List (RecordField ρ × List Char))
    (hkeys : (written.map fun w => w.1.key).Nodup) (h : Fills r written r') :
    ReadsBack (readRecord (written.map Prod.fst) r)
      (listing '\x7b' '\x7d' level (written.map fun w => member w.1.key w.2)) r' := by
  intro gap rest hgap _
  have hkeys' : ((written.map Prod.fst).map (·.key)).Nodup := by rwa [List.map_map]
  obtain ⟨s, hs, hread⟩ := foldBracketed_listing '\x7b' level (readsAll_named [] rfl hkeys' h) rest
    (show '\x7d' ≠ ',' by decide) (by decide) (by decide)
  rw [readRecord, hs, skipGap_append hgap, skipGap_cons (by decide)]
  simp only [Char.reduceEq, if_false, if_true]
  rw [List.map_nil, List.reverse_nil, List.nil_append] at hread
  rw [hread]

end Records

section Values

variable (depth level : Nat)

theorem readsBack_null : ReadsBack (readValue .full depth) (Value.null.pretty level) .null := by
  intro gap rest hgap _
  have htext : Value.null.pretty level = 'n' :: "ull".toList := by
    rw [Value.pretty]
    decide
  have hletters : "ull".toList = ['u', 'l', 'l'] := by decide
  rw [readValue, htext, skipGap_append hgap, List.cons_append, skipGap_cons (by decide)]
  simp [hletters, readLetters]

theorem readsBack_string (s : List Char) :
    ReadsBack (readValue .full depth) ((Value.string s).pretty level) (.string s) := by
  intro gap rest hgap _
  have hdigit : isDigit '"' = false := by decide
  rw [readValue, Value.pretty, quoted_append, skipGap_append hgap, skipGap_cons (by decide)]
  simp [hdigit, readString_flatMap]

theorem readsBack_natural (n : UInt64) :
    ReadsBack (readValue .full depth) ((Value.natural n).pretty level) (.natural n) := by
  intro gap rest hgap hrest
  have hread := readUnsigned_toDigits n hrest
  have hdigits : ∀ c ∈ Nat.toDigits 10 n.toNat, isDigit c = true := fun c hc => isDigit_of_mem hc
  rw [readValue, Value.pretty]
  cases hsplit : Nat.toDigits 10 n.toNat with
  | nil => exact absurd hsplit Nat.toDigits_ne_nil
  | cons c digits =>
      have hdigit : isDigit c = true := hdigits c (by simp [hsplit])
      have hne (d : Char) (hd : isDigit d = false) : c ≠ d := by
        rintro rfl
        simp [hd] at hdigit
      have hblank : isGap c = false := by
        simp [isGap, hne ' ' (by decide), hne '\n' (by decide), hne '\t' (by decide),
          hne '\r' (by decide)]
      rw [hsplit] at hread
      rw [skipGap_append hgap, List.cons_append, skipGap_cons hblank]
      simpa [hne 'n' (by decide), hne 't' (by decide), hne 'f' (by decide), hne '-' (by decide),
        hdigit] using hread

theorem readsBack_members {members : List (List Char × Value)}
    (h : ∀ m ∈ members, ReadsBack (readValue .full depth) (m.2.pretty (level + 1)) m.2) :
    ReadsBack (readValue .full (depth + 1)) ((Value.object members).pretty level)
      (.object members) := by
  intro gap rest hgap _
  obtain ⟨s, hs, hread⟩ := foldBracketed_listing '\x7b' level
    (readsAll_appendMember (Value.pretty (level + 1)) h []) rest (show '\x7d' ≠ ',' by decide)
    (by decide) (by decide)
  have hdigit : isDigit '\x7b' = false := by decide
  rw [readValue, pretty_object, hs, skipGap_append hgap, skipGap_cons (by decide)]
  simp [hdigit, hread]

end Values

theorem readAll_of_readsBack {α : Type} {read : List Char → Step α} {text : List Char} {a : α}
    (h : ReadsBack read text a) : readAll read text = .ok a := by
  have hread := h [] [] (by simp) follows_nil
  rw [List.nil_append, List.append_nil] at hread
  rw [readAll, hread]
  rfl

end SpanishLua.Proofs.JsonText
