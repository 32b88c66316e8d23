import SpanishLua.Proofs.Severing
import SpanishLua.Proofs.Storing

/-!
A keyword as a whole word. A table takes every identifier as a keyword, and a keyword is looked for
between two places where words start or end. But not all characters of identifiers are characters of
words: a superscript digit is none, nor are the letters that were added last. Where such a character
meets others inside an identifier, a word ends.
-/

namespace SpanishLua.Proofs.WholeWords

open SpanishLua.Code
open SpanishLua.Text
open SpanishLua.Proofs.Characters
open SpanishLua.Proofs.Scanning
open SpanishLua.Proofs.Recognisers
open SpanishLua.Proofs.Tables
open SpanishLua.Proofs.Storing
open SpanishLua.Proofs.Places
open SpanishLua.Proofs.Severing

/-- The word stands somewhere in the text between two places where words start or end. -/
def Delimited (word text : List Char) : Prop :=
  ∃ before rest, text = before ++ (word ++ rest) ∧
    atBoundary before.reverse (word ++ rest) = true ∧ endsAt before.reverse word rest = true

/-- All characters of the text may stand in an identifier. -/
def Identifying (s : List Char) : Prop :=
  ∀ c ∈ s, continuesIdentifier c = true

theorem identifying_of_isIdentifier {s : List Char} (h : isIdentifier s = true) :
    s ≠ [] ∧ Identifying s := by
  refine ⟨?_, continuesIdentifier_of_isIdentifier h⟩
  rintro rfl
  exact absurd h (by decide)

/-- Behind `before`, the claims of `find` on `after` all put `target` for `source`. -/
def Puts (source target : List Char) (find : Recogniser) (before after : List Char) : Prop :=
  ∀ left right hit, after = left ++ right → find (left.reverse ++ before) right = some hit →
    hit.taken = source ∧ hit.text = target

section Scans

variable {find : Recogniser} {source target before : List Char}

theorem Puts.of_cons {c : Char} {rest : List Char}
    (h : Puts source target find before (c :: rest)) :
    Puts source target find (c :: before) rest := by
  intro left right hit hsplit hfind
  exact h (c :: left) right hit (by rw [hsplit]; rfl) (by simpa using hfind)

theorem Puts.of_append {taken rest : List Char}
    (h : Puts source target find before (taken ++ rest)) :
    Puts source target find (taken.reverse ++ before) rest := by
  intro left right hit hsplit hfind
  exact h (taken ++ left) right hit (by rw [hsplit, List.append_assoc]) (by simpa using hfind)

theorem Puts.length (hsound : Sound find) {after : List Char}
    (h : Puts source target find before after) :
    (replaceFrom find before after).length + (claimsFrom find before after).length * source.length =
      after.length + (claimsFrom find before after).length * target.length := by
  induction before, after using scan_induction hsound with
  | nil before => simp [replaceFrom_nil, claimsFrom_nil]
  | kept before c rest hfind ih =>
      have hrest := ih h.of_cons
      rw [replaceFrom_kept hfind, claimsFrom_kept hfind, List.length_cons, List.length_cons]
      omega
  | claimed before hit rest hfind ih =>
      have hrest := ih h.of_append
      obtain ⟨htaken, htext⟩ := h [] _ hit rfl hfind
      rw [replaceFrom_claimed hsound hfind, claimsFrom_claimed hsound hfind, List.length_cons,
        List.length_append, List.length_append, htaken, htext, Nat.succ_mul, Nat.succ_mul]
      rw [htaken] at hrest
      omega

theorem Puts.claims_eq_nil (hsound : Sound find) {after : List Char}
    (h : Puts source target find before after) (hne : target ≠ source)
    (hsame : replaceFrom find before after = after) : claimsFrom find before after = [] := by
  have hlength := h.length hsound
  rw [hsame, Nat.add_left_cancel_iff] at hlength
  by_contra hclaims
  have hpos : 0 < (claimsFrom find before after).length := List.length_pos_iff.mpr hclaims
  have hequal : source.length = target.length := Nat.eq_of_mul_eq_mul_left hpos hlength
  -- with equal lengths the text shows at the first claim what is put there
  clear hlength hpos
  induction before, after using scan_induction hsound with
  | nil before => exact hclaims (claimsFrom_nil find before)
  | kept before c rest hfind ih =>
      rw [replaceFrom_kept hfind] at hsame
      rw [claimsFrom_kept hfind] at hclaims
      exact ih h.of_cons (List.cons.inj hsame).2 hclaims
  | claimed before hit rest hfind ih =>
      obtain ⟨htaken, htext⟩ := h [] _ hit rfl hfind
      rw [replaceFrom_claimed hsound hfind, htaken, htext] at hsame
      exact hne (List.append_inj hsame hequal.symm).1

theorem eq_none_of_claims_eq_nil (hsound : Sound find) {after left right : List Char}
    (h : claimsFrom find before after = []) (hsplit : after = left ++ right) :
    find (left.reverse ++ before) right = none := by
  induction before, after using scan_induction hsound generalizing left with
  | nil before =>
      obtain ⟨rfl, rfl⟩ := List.append_eq_nil_iff.mp hsplit.symm
      cases hfind : find ([].reverse ++ before) [] with
      | none => rfl
      | some hit =>
          obtain ⟨hne, hprefix⟩ := hsound _ _ hit hfind
          exact absurd (List.prefix_nil.mp hprefix) hne
  | kept before c rest hfind ih =>
      rw [claimsFrom_kept hfind] at h
      rcases left with _ | ⟨d, left⟩
      · rw [List.nil_append] at hsplit
        rw [← hsplit]
        exact hfind
      · obtain ⟨rfl, hrest⟩ := List.cons.inj hsplit
        rw [List.reverse_cons, List.append_assoc]
        exact ih h hrest
  | claimed before hit rest hfind ih =>
      rw [claimsFrom_claimed hsound hfind] at h
      exact absurd h (by simp)

end Scans

theorem Identifying.inMemberPosition {before : List Char} (h : Identifying before) :
    inMemberPosition before = false := by
  rcases before with _ | ⟨c, before⟩
  · rfl
  · rw [Bool.eq_false_iff, Ne, inMemberPosition_cons]
    have hc := h c (by simp)
    rintro (rfl | ⟨rfl, -⟩)
    · exact absurd hc (by decide)
    · exact absurd hc (by decide)

theorem Identifying.elseIf_quiet {s : List Char} (h : Identifying s) : Quiet Keyword.elseIf s := by
  apply elseIf_quiet_of_no_blank
  intro c hc
  by_contra hblank
  have hidentifier : continuesIdentifier c = false :=
    forall_blank (p := fun c => continuesIdentifier c = false) (by decide +kernel)
      (by simpa using hblank)
  rw [h c hc] at hidentifier
  exact absurd hidentifier (by decide)

theorem delimited_self_iff {s : List Char} :
    Delimited s s ↔ atBoundary [] (s ++ []) = true ∧ endsAt [] s [] = true := by
  constructor
  · rintro ⟨before, rest, hsplit, hdelimited⟩
    have hlength := congrArg List.length hsplit
    simp only [List.length_append] at hlength
    obtain rfl : before = [] := List.length_eq_zero_iff.mp (by omega)
    obtain rfl : rest = [] := List.length_eq_zero_iff.mp (by omega)
    exact hdelimited
  · intro hdelimited
    exact ⟨[], [], by simp, hdelimited⟩

theorem delimited_self_iff_headIsWord {s : List Char} :
    Delimited s s ↔ headIsWord s = true ∧ headIsWord s.reverse = true := by
  have hleft : atBoundary [] (s ++ []) = headIsWord s := by
    rw [List.append_nil]
    exact Bool.false_bne _
  have hright : endsAt [] s [] = headIsWord s.reverse := by
    rw [endsAt, List.append_nil]
    exact Bool.bne_false _
  rw [delimited_self_iff, hleft, hright]

/-- A character of identifiers that is a character of words or not, as asked for. -/
def letter (word : Bool) : Char :=
  if word then 'a' else '²'

theorem isWord_letter (word : Bool) : isWord (letter word) = word := by
  cases word <;> decide +kernel

theorem continuesIdentifier_letter (word : Bool) : continuesIdentifier (letter word) = true := by
  cases word <;> decide +kernel

/-- Every text of characters of identifiers starts a longer one in which it is delimited. -/
theorem exists_delimited {s : List Char} (hne : s ≠ []) (hs : Identifying s) :
    ∃ w, w ≠ [] ∧ Identifying w ∧ Delimited s (s ++ w) := by
  have hreverse : s.reverse ≠ [] := by simpa using hne
  let left := letter !headIsWord s
  let right := letter !headIsWord s.reverse
  have hleft : isWord left = !headIsWord s := isWord_letter _
  have hright : isWord right = !headIsWord s.reverse := isWord_letter _
  -- the text once more, between two characters that are unlike its ends
  refine ⟨left :: (s ++ [right]), by simp, ?_, s ++ [left], [right], by simp, ?_, ?_⟩
  · intro c hc
    simp only [List.mem_cons, List.mem_append, List.not_mem_nil, or_false] at hc
    rcases hc with rfl | hc | rfl
    · exact continuesIdentifier_letter _
    · exact hs c hc
    · exact continuesIdentifier_letter _
  · rw [List.reverse_concat, atBoundary, headIsWord_append hne]
    change (isWord left != headIsWord s) = true
    rw [hleft]
    cases headIsWord s <;> rfl
  · rw [endsAt, atBoundary, headIsWord_append hreverse]
    change (headIsWord s.reverse != isWord right) = true
    rw [hright]
    cases headIsWord s.reverse <;> rfl

section Keyword

variable {v : Vocabulary} {source target before after : List Char} {hit : Hit}
  (hwords : v.words = [source]) (htarget : v.target? source = some target)

include hwords htarget

theorem keyword_eq_some_iff :
    Keyword.keyword v before after = some hit ↔
      ∃ rest, after = source ++ rest ∧ atBoundary before (source ++ rest) = true ∧
        endsAt before source rest = true ∧
        hit = ⟨source, if inMemberPosition before then source else target⟩ := by
  constructor
  · intro h
    rw [keyword_eq_constant] at h
    obtain ⟨word, hword, rest, rfl, hleft, hright, rfl⟩ := exists_of_constant h
    obtain rfl : word = source := by simpa [hwords] using hword
    exact ⟨rest, rfl, hleft, hright, by rw [htarget, Option.getD_some]⟩
  · rintro ⟨rest, rfl, hleft, hright, rfl⟩
    rw [Keyword.keyword, if_pos hleft, hwords, firstWord?, List.findSome?_singleton,
      isPrefixOf?_eq_some_iff.mpr rfl, Option.bind_some, if_pos hright, htarget, Option.getD_some]

theorem keyword_puts (hafter : Identifying after) :
    Puts source target (Keyword.keyword v) [] after := by
  rintro left right hit rfl h
  obtain ⟨rest, -, -, -, rfl⟩ := (keyword_eq_some_iff hwords htarget).mp h
  have hmember : inMemberPosition (left.reverse ++ []) = false :=
    Identifying.inMemberPosition fun c hc => hafter c (by simpa using .inl (by simpa using hc))
  rw [hmember]
  exact ⟨rfl, rfl⟩

/-- In a text of characters of identifiers the only keyword stays as it is exactly if its target is
the same or it is nowhere delimited. -/
theorem replaceAll_keyword_eq_iff (hne : source ≠ []) (hafter : Identifying after) :
    replaceAll (Keyword.keyword v) after = after ↔
      target = source ∨ ¬ Delimited source after := by
  have hsound : Sound (Keyword.keyword v) := constant_sound (by simpa [hwords] using hne)
  have hputs := keyword_puts hwords htarget hafter
  constructor
  · intro hsame
    rw [or_iff_not_imp_left]
    rintro hchanged ⟨before, rest, hsplit, hleft, hright⟩
    have hnone := eq_none_of_claims_eq_nil hsound (hputs.claims_eq_nil hsound hchanged hsame) hsplit
    rw [List.append_nil] at hnone
    have hclaim := (keyword_eq_some_iff hwords htarget).mpr ⟨rest, rfl, hleft, hright, rfl⟩
    rw [hnone] at hclaim
    exact absurd hclaim (by simp)
  · intro h
    apply Quiet.replaceAll_eq _ hsound
    intro before right hit hsplit hclaim
    rcases h with hsame | hnowhere
    · obtain ⟨htaken, htext⟩ := hputs before right hit hsplit (by simpa using hclaim)
      rw [htaken, htext, hsame]
    · obtain ⟨rest, rfl, hleft, hright, -⟩ := (keyword_eq_some_iff hwords htarget).mp hclaim
      exact absurd ⟨before, rest, hsplit, hleft, hright⟩ hnowhere

theorem replaceAll_keyword_self (hne : source ≠ []) (hsource : Identifying source) :
    replaceAll (Keyword.keyword v) source = target ↔
      target = source ∨ headIsWord source = true ∧ headIsWord source.reverse = true := by
  rw [← delimited_self_iff_headIsWord]
  by_cases hdelimited : Delimited source source
  · have hsound : Sound (Keyword.keyword v) := constant_sound (by simpa [hwords] using hne)
    obtain ⟨hleft, hright⟩ := delimited_self_iff.mp hdelimited
    let hit : Hit := ⟨source, target⟩
    have hclaim : Keyword.keyword v [] hit.taken = some hit :=
      (keyword_eq_some_iff hwords htarget).mpr ⟨[], by simp [hit], hleft, hright, rfl⟩
    exact iff_of_true (replaceFrom_whole hsound hclaim) (.inr hdelimited)
  · have hsame := (replaceAll_keyword_eq_iff hwords htarget hne hsource).mpr (.inr hdelimited)
    rw [hsame, or_iff_left hdelimited, eq_comm]

end Keyword

section Table

variable {r : Rule} {table : RuleTable} (hcategory : r.category = .keyword)
  (h : RuleTable.empty.insert r = .ok table)

include hcategory h

theorem identifying_source : r.source.toList ≠ [] ∧ Identifying r.source.toList := by
  have hfits := (fits_of_insert h).2
  rw [if_neg (by rw [hcategory]; decide)] at hfits
  exact identifying_of_isIdentifier hfits

theorem rules_insert_empty (category : Category) :
    table.rules category = if category = .keyword then [r] else [] := by
  rw [RuleTable.rules, entries_of_insert h]
  by_cases hkeyword : category = .keyword
  · simp [hkeyword, hcategory, RuleTable.empty]
  · simp [hkeyword, hcategory, RuleTable.empty, Ne.symm hkeyword]

theorem words_insert_empty :
    (Vocabulary.ofTable table .keyword).words = [r.source.toList] := by
  rw [Vocabulary.ofTable, rules_insert_empty hcategory h, if_pos rfl]
  simp [Vocabulary.longestFirst]

theorem target?_insert_empty :
    (Vocabulary.ofTable table .keyword).target? r.source.toList = some r.target.toList := by
  apply target?_of_rule (WellFormed.insert wellFormed_empty h)
  rw [rules_insert_empty hcategory h, if_pos rfl]
  exact List.mem_singleton_self r

theorem rewriteWords_insert_empty {code : List Char} (hcode : Quiet Keyword.elseIf code) :
    rewriteWords table code = replaceAll (Keyword.keyword (.ofTable table .keyword)) code := by
  have hquiet : Quiet (Keyword.globalFunction (.ofTable table .globalFunction)) code := by
    intro before after hit _ hclaim
    obtain ⟨word, hword, -⟩ := exists_of_globalFunction hclaim
    obtain ⟨r', hr', -⟩ := mem_words_ofTable.mp hword
    rw [rules_insert_empty hcategory h, if_neg (by decide)] at hr'
    exact absurd hr' List.not_mem_nil
  rw [rewriteWords, Keyword.apply, hcode.replaceAll_eq elseIf_sound,
    hquiet.replaceAll_eq (globalFunction_sound _)]

theorem rewriteWords_of_words (hsource : ∀ c ∈ r.source.toList, isWord c = true) :
    rewriteWords table r.source.toList = r.target.toList ∧
      ∀ w, w ≠ [] → (∀ c ∈ w, isWord c = true) →
        rewriteWords table (r.source.toList ++ w) = r.source.toList ++ w := by
  have hrun : WordRun r.source.toList := ⟨(identifying_source hcategory h).1, hsource⟩
  have hwords := words_insert_empty hcategory h
  have hruns : ∀ w ∈ (Vocabulary.ofTable table .keyword).words, WordRun w := by
    rw [hwords]
    intro w hw
    exact List.mem_singleton.mp hw ▸ hrun
  have hquiet : ∀ {s : List Char}, WordRun s → Quiet Keyword.elseIf s := fun hs =>
    elseIf_quiet_of_no_blank fun c hc => isBlank_of_isWord (hs.2 c hc)
  constructor
  · rw [rewriteWords_insert_empty hcategory h (hquiet hrun), keyword_eq_constant,
      replaceAll_constant_of_mem hruns (by simp [hwords]), target?_insert_empty hcategory h,
      Option.getD_some]
  · intro w hne hw
    have hlonger : WordRun (r.source.toList ++ w) := hrun.append ⟨hne, hw⟩
    rw [rewriteWords_insert_empty hcategory h (hquiet hlonger), keyword_eq_constant,
      replaceAll_constant_of_notMem hruns hlonger (by simpa [hwords] using hne)]

end Table

/-- A keyword that an empty table takes is replaced on its own exactly if its first and its last
character are those of words. Longer identifiers that start with it stay where it is not delimited
in them, and there always is one in which it is. Among words alone, a keyword is replaced only where
it is the whole word. A keyword that is its own target changes nothing. -/
theorem rewriteWords_whole_word {r : Rule} {table : RuleTable} (hcategory : r.category = .keyword)
    (h : RuleTable.empty.insert r = .ok table) :
    let source := r.source.toList
    let target := r.target.toList
    (rewriteWords table source = target ↔
        target = source ∨ headIsWord source = true ∧ headIsWord source.reverse = true) ∧
      ((∀ w, w ≠ [] → Identifying w → rewriteWords table (source ++ w) = source ++ w) ↔
        target = source) ∧
      (∀ w, Identifying w →
        (rewriteWords table (source ++ w) = source ++ w ↔
          target = source ∨ ¬ Delimited source (source ++ w))) ∧
      ((∀ c ∈ source, isWord c = true) →
        rewriteWords table source = target ∧
          ∀ w, w ≠ [] → (∀ c ∈ w, isWord c = true) →
            rewriteWords table (source ++ w) = source ++ w) := by
  intro source target
  obtain ⟨hne, hsource⟩ := identifying_source hcategory h
  have hwords := words_insert_empty hcategory h
  have htarget := target?_insert_empty hcategory h
  have hlonger : ∀ w, Identifying w →
      (rewriteWords table (source ++ w) = source ++ w ↔
        target = source ∨ ¬ Delimited source (source ++ w)) := by
    intro w hw
    have hidentifying : Identifying (source ++ w) := by
      intro c hc
      exact (List.mem_append.mp hc).elim (hsource c) (hw c)
    rw [rewriteWords_insert_empty hcategory h hidentifying.elseIf_quiet]
    exact replaceAll_keyword_eq_iff hwords htarget hne hidentifying
  refine ⟨?_, ⟨?_, ?_⟩, hlonger, rewriteWords_of_words hcategory h⟩
  · rw [rewriteWords_insert_empty hcategory h hsource.elseIf_quiet]
    exact replaceAll_keyword_self hwords htarget hne hsource
  · intro hstays
    obtain ⟨w, hnew, hw, hdelimited⟩ := exists_delimited hne hsource
    exact ((hlonger w hw).mp (hstays w hnew hw)).resolve_right (not_not.mpr hdelimited)
  · intro hsame w _ hw
    exact (hlonger w hw).mpr (.inl hsame)

theorem rewriteWords_whole_word_fin :
    let r : Rule := ⟨.keyword, "fin", "end", none⟩
    RuleTable.empty.insert r = .ok ⟨[r]⟩ ∧
      rewriteWords ⟨[r]⟩ "fin".toList = "end".toList ∧
      rewriteWords ⟨[r]⟩ ("fin".toList ++ "al".toList) = "fin".toList ++ "al".toList := by
  intro r
  have hinsert : RuleTable.empty.insert r = .ok ⟨[r]⟩ := by decide
  have hsource : WordRun "fin".toList := by decide
  have hrest : WordRun "al".toList := by decide
  obtain ⟨hself, hlonger⟩ := (rewriteWords_whole_word rfl hinsert).2.2.2 hsource.2
  exact ⟨hinsert, hself, hlonger "al".toList hrest.1 hrest.2⟩

/-- A superscript digit ends a word, so it hides a keyword that ends in it and gives away one that
it follows. -/
theorem rewriteWords_superscript :
    let square : Rule := ⟨.keyword, "x²", "cuadrado", none⟩
    let fin : Rule := ⟨.keyword, "fin", "end", none⟩
    RuleTable.empty.insert square = .ok ⟨[square]⟩ ∧ RuleTable.empty.insert fin = .ok ⟨[fin]⟩ ∧
      continuesIdentifier '²' = true ∧
      rewriteWords ⟨[square]⟩ "x²".toList = "x²".toList ∧
      rewriteWords ⟨[fin]⟩ "fin²".toList = "end²".toList := by
  decide +kernel

end SpanishLua.Proofs.WholeWords
