import SpanishLua.Proofs.Evaluation
import SpanishLua.Proofs.Grammar
import SpanishLua.Proofs.Severing
import SpanishLua.Proofs.Untouched

namespace SpanishLua.Proofs.Shades

open SpanishLua.Code
open SpanishLua.Text
open SpanishLua.Proofs.Characters
open SpanishLua.Proofs.Scanning
open SpanishLua.Proofs.Recognisers
open SpanishLua.Proofs.Sweep
open SpanishLua.Proofs.Tables
open SpanishLua.Proofs.Grammar
open SpanishLua.Proofs.Lines
open SpanishLua.Proofs.Bounds
open SpanishLua.Proofs.Seams
open SpanishLua.Proofs.Defaults
open SpanishLua.Proofs.Places
open SpanishLua.Proofs.Invariance
open SpanishLua.Proofs.Stages
open SpanishLua.Proofs.Words
open SpanishLua.Proofs.Evaluation
open SpanishLua.Proofs.Untouched
open SpanishLua.Proofs.Severing

/-- ASCII letters, digits and underscores, no digit first. -/
def isAsciiName : List Char → Bool
  | [] => false
  | c :: rest => (c.isAlpha || c == '_') && rest.all fun d => d.isAlphanum || d == '_'

/-- A line that asks for the bright shade of a name. -/
def brightLine (name : List Char) : List Char :=
  "c = ".toList ++ (name ++ "_brillante".toList)

/-- A line that asks for the shade of a literal text. -/
def shadeLine (text : List Char) : List Char :=
  "c = BrickColor.new(\"Bright ".toList ++ (text ++ "\")".toList)

theorem wordRun_of_isAsciiName {name : List Char} (h : isAsciiName name = true) :
    WordRun name := by
  have hascii : ∀ c : Char, c.isAlphanum = true → c.toNat < 128 := by
    intro c hc
    have hbelow : ∀ {last : UInt32}, c.val ≤ last → last.toNat < 128 → c.toNat < 128 :=
      fun hle => Nat.lt_of_le_of_lt (UInt32.le_iff_toNat_le.mp hle)
    rcases Bool.or_eq_true_iff.mp hc with hletter | hdigit
    · rcases Bool.or_eq_true_iff.mp hletter with hupper | hlower
      · exact hbelow (of_decide_eq_true hupper).2 (by decide)
      · exact hbelow (of_decide_eq_true (Bool.and_eq_true_iff.mp hlower).2) (by decide)
    · exact hbelow (of_decide_eq_true (Bool.and_eq_true_iff.mp hdigit).2) (by decide)
  have hword : ∀ c : Char, (c.isAlphanum || c == '_') = true → isWord c = true := by
    intro c hc
    rcases Bool.or_eq_true_iff.mp hc with hc | hc
    · exact forall_ascii (p := fun c => c.isAlphanum = true → isWord c = true)
        (by decide) (hascii c hc) hc
    · rw [eq_of_beq hc]
      decide
  rcases name with _ | ⟨c, rest⟩
  · simp [isAsciiName] at h
  · rw [isAsciiName, Bool.and_eq_true, List.all_eq_true] at h
    refine ⟨by simp, fun d hd => hword d ?_⟩
    rcases List.mem_cons.mp hd with rfl | hd
    · rw [Char.isAlphanum, Bool.or_right_comm, h.1, Bool.true_or]
    · exact h.2 d hd

theorem default_sources (r : Rule) (hr : r ∈ RuleTable.default.entries) :
    (r.category = .enumConstant →
      r.source.toList ≠ "c".toList ∧ ¬ Enumeration.brightEnding <:+ r.source.toList) ∧
    (r.category = .keyword → r.source.toList ≠ "Bright".toList) := by
  have hsources : ∀ x ∈ spellings.val,
      (x.category = .enumConstant →
        x.source ≠ "c".toList ∧ ¬ Enumeration.brightEnding <:+ x.source) ∧
      (x.category = .keyword → x.source ≠ "Bright".toList) := by
    decide +kernel
  exact forall_default hsources r hr

theorem bright_eq_some_iff {before after : List Char} {hit : Hit} :
    Enumeration.bright before after = some hit ↔
      headIsWord before = false ∧ ∃ colour, WordRun colour ∧ ∃ rest,
        after = colour ++ Enumeration.brightEnding ++ rest ∧ headIsWord rest = false ∧
        hit = ⟨colour ++ Enumeration.brightEnding,
          "BrickColor.new(\"Bright ".toList ++ colour ++ "\")".toList⟩ := by
  constructor
  · intro h
    obtain ⟨hboundary, colour, hcolour, rest, rfl, hright, rfl⟩ := exists_of_bright h
    rw [atBoundary_of_head ((hcolour.append wordRun_brightEnding).headIsWord_append rest)]
      at hboundary
    exact ⟨hboundary, colour, hcolour, rest, rfl, hright, rfl⟩
  · rintro ⟨hleft, colour, hcolour, rest, rfl, hright, rfl⟩
    have hwhole := hcolour.append wordRun_brightEnding
    have hrun : wordRun (colour ++ Enumeration.brightEnding ++ rest) =
        colour ++ Enumeration.brightEnding := hwhole.takeWhile_append hright
    have hstem : stemOf? Enumeration.brightEnding (colour ++ Enumeration.brightEnding) =
        some colour := stemOf?_eq_some_iff.mpr ⟨hcolour.1, rfl⟩
    have hboundary := (atBoundary_of_head (hwhole.headIsWord_append rest)).mpr hleft
    simp only [Enumeration.bright, hboundary, ↓reduceIte, hrun, hstem, Option.map_some]

theorem bright_eq_none {before word rest : List Char} (hword : WordRun word)
    (hrest : headIsWord rest = false) (hending : ¬ Enumeration.brightEnding <:+ word) :
    Enumeration.bright before (word ++ rest) = none := by
  cases h : Enumeration.bright before (word ++ rest) with
  | none => rfl
  | some hit =>
      obtain ⟨-, colour, hcolour, tail, hsplit, hright, -⟩ := bright_eq_some_iff.mp h
      have hrun := hcolour.append wordRun_brightEnding
      obtain ⟨rfl, -⟩ := word_append_inj hword hrun hrest hright hsplit
      exact absurd (List.suffix_append _ _) hending

theorem bright_wordWise : WordWise Enumeration.bright where
  sound := bright_sound
  starts := by
    intro before after hit h
    obtain ⟨hleft, colour, hcolour, rest, rfl, -⟩ := bright_eq_some_iff.mp h
    exact ⟨hleft, (hcolour.append wordRun_brightEnding).headIsWord_append rest⟩
  behind := by
    intro before before' after halike
    ext hit
    simp only [bright_eq_some_iff, halike.word]
  ahead := by
    intro before hit rest rest' hrest h
    obtain ⟨hleft, colour, hcolour, tail, htail, hright, rfl⟩ := bright_eq_some_iff.mp h
    obtain rfl := List.append_cancel_left htail
    exact bright_eq_some_iff.mpr ⟨hleft, colour, hcolour, rest', rfl, hrest ▸ hright, rfl⟩

/-- A stage that goes by words and stops at quotes changes only the name of the shade. -/
theorem replaceAll_shadeLine {find : Recogniser} {name : List Char} (h : WordWise find)
    (hquote : Severs '"' find) (hopening : Quiet find "c = BrickColor.new(".toList)
    (hbright : ∀ hit, find [] ("Bright".toList ++ (" ".toList ++ name)) = some hit →
      PutsBack "Bright".toList hit) :
    replaceAll find (shadeLine name) = shadeLine (replaceAll find name) := by
  have hline : ∀ text, shadeLine text = "c = BrickColor.new(".toList ++
      '"' :: (("Bright".toList ++ (" ".toList ++ text)) ++ '"' :: ")".toList) := by
    intro text
    rw [List.append_assoc, List.append_assoc]
    rfl
  have hbegin : replaceFrom find [] "c = BrickColor.new(".toList = "c = BrickColor.new(".toList :=
    hopening.replaceAll_eq h.sound
  have hname : replaceFrom find [] ("Bright".toList ++ (" ".toList ++ name)) =
      "Bright".toList ++ (" ".toList ++ replaceAll find name) := by
    have hblank : " ".toList.all (fun c => !isWord c) = true := by decide
    have halike : Alike (" ".toList.reverse ++ ("Bright".toList.reverse ++ [])) [] :=
      alike_nil (by decide) (by decide) (by decide) _
    rw [h.replaceFrom_word (by decide) hbright, h.replaceFrom_gap (by simpa using hblank),
      h.replaceFrom_alike halike, replaceAll]
  have hend : ∀ before, replaceFrom find before ")".toList = ")".toList := by
    intro before
    have hnone : find before [')'] = none := h.eq_none_of_head (by decide)
    change replaceFrom find before [')'] = [')']
    rw [replaceFrom_kept hnone, replaceFrom_nil]
  have halike : ∀ before, Alike ('"' :: before) [] :=
    alike_nil (by decide) (by decide) (by decide)
  rw [hline, hline, replaceAll, hquote.replaceFrom_append h.sound, hbegin,
    h.replaceFrom_alike (halike _), hquote.replaceFrom_append h.sound, hname, hend]

theorem free_opening : Free Dialect "c = BrickColor.new(".toList := by
  decide +kernel

theorem keyword_shadeLine (name : List Char) :
    replaceAll (Keyword.keyword (vocabulary .keyword)) (shadeLine name) =
      shadeLine (replaceAll (Keyword.keyword (vocabulary .keyword)) name) := by
  have hruns := wordRun_of_mem_vocabulary (by decide : Category.keyword ≠ .enumMember)
  rw [keyword_eq_constant]
  apply replaceAll_shadeLine (constant_wordWise hruns) (constant_severs hruns (by decide))
    (constant_quiet free_opening (by decide))
  intro hit h
  obtain ⟨word, hword, rest, hsplit, hstands, -⟩ := (constant_eq_some_iff hruns).mp h
  obtain ⟨r, hr, rfl⟩ := mem_words_ofTable.mp hword
  obtain ⟨hmem, hcategory⟩ := mem_rules_iff.mp hr
  have hbright := (word_append_inj (by decide) hstands.wordRun rfl hstands.right hsplit).1
  exact absurd hbright.symm ((default_sources r hmem).2 hcategory)

theorem translateLine_of_lastCode {t : Translator} {line : List Char} (h : LastCode line) :
    t.translateLine line = rewriteCode t.lexicon line := by
  rw [translateLine_eq, translateSegments, nameAll_eq_nameEach, partition_of_lastCode h]
  rcases line with _ | ⟨c, line⟩
  · rfl
  · have hcode : nameEach t.lexicon.services none (codeOf (c :: line)) = [.code (c :: line)] := rfl
    rw [hcode, translateCode_code]
    cases rewriteCode t.lexicon (c :: line) with
    | error e => rfl
    | ok lua => exact congrArg Except.ok (List.append_nil lua)

section Line

variable {name : List Char} (hname : WordRun name)

include hname

theorem wordRun_bright : WordRun (name ++ "_brillante".toList) :=
  hname.append wordRun_brightEnding

theorem notMem_brightLine {c : Char} (hword : isWord c = false) (hc : c ∉ "c = ".toList) :
    c ∉ brightLine name := by
  intro hmem
  rcases List.mem_append.mp hmem with hmem | hmem
  · exact hc hmem
  · rw [(wordRun_bright hname).2 c hmem] at hword
    exact absurd hword (by decide)

theorem hasRun_brightLine {word : List Char} (h : HasRun (brightLine name) word) :
    word = "c".toList ∨ Enumeration.brightEnding <:+ word := by
  have hseam : Seam "c = ".toList (name ++ "_brillante".toList) := .of_last (by decide)
  rcases (hasRun_append hseam).mp h with h | h
  · have hfree : Free (· ≠ "c".toList) "c = ".toList := by decide
    exact .inl (not_not.mp (hfree word h))
  · rw [hasRun_wordRun (wordRun_bright hname)] at h
    exact .inr ⟨name, h.symm⟩

theorem quiet_of_words {find : Recogniser} (words : List (List Char))
    (hclaims : ∀ before after hit, find before after = some hit →
      ∃ word ∈ words, ∃ rest, after = word ++ rest ∧ Stands before word rest)
    (hwords : ∀ word ∈ words, word ≠ "c".toList ∧ ¬ Enumeration.brightEnding <:+ word) :
    Quiet find (brightLine name) := by
  intro before after hit hsplit hfind
  obtain ⟨word, hword, rest, rfl, hstands⟩ := hclaims _ after hit hfind
  obtain ⟨hc, hending⟩ := hwords word hword
  exact absurd (hasRun_brightLine hname ⟨before, rest, hsplit, hstands⟩) (not_or.mpr ⟨hc, hending⟩)

theorem quiet_before_bright :
    ∀ find ∈ early (.ofTable RuleTable.default) ++ (late (.ofTable RuleTable.default)).take 6,
      Quiet find (brightLine name) := by
  have hcolon : ':' ∉ brightLine name := notMem_brightLine hname (by decide) (by decide)
  have hparen : '(' ∉ brightLine name := notMem_brightLine hname (by decide) (by decide)
  have hdot : '.' ∉ brightLine name := notMem_brightLine hname (by decide) (by decide)
  simp only [early, late, List.cons_append, List.nil_append, List.take_succ_cons, List.take_zero,
    List.forall_mem_cons, List.not_mem_nil, false_implies, implies_true, and_true]
  -- a recogniser wants a mark that the line does not have, or it goes by words
  refine ⟨?_, ?_, ?_, ?_, ?_, ?_, ?_, ?_⟩
  · apply quiet_of_words hname [Service.accessor]
    · intro before after hit h
      obtain ⟨rest, hafter, hstands, -⟩ := lookup_eq_some_iff.mp h
      exact ⟨_, by simp, rest, hafter, hstands⟩
    · decide
  · exact method_quiet_of_notMem hcolon
  · exact constructor_quiet_of_notMem hparen
  · exact instanceFactory_quiet_of_notMem hparen
  · apply quiet_of_notMem hdot
    intro before after hit h
    obtain ⟨rest, rfl⟩ := exists_of_property_head h
    simp
  · apply quiet_of_notMem hdot
    intro before after hit h
    obtain ⟨word, -, rest, rfl, -⟩ := exists_of_mathFunction h
    simp [Member.mathLibrary]
  · apply quiet_of_notMem hdot
    intro before after hit h
    obtain ⟨family, -, member, rest, rfl, -⟩ := exists_of_item h
    simp
  · have hruns := wordRun_of_mem_vocabulary (by decide : Category.enumConstant ≠ .enumMember)
    apply quiet_of_words hname (vocabulary .enumConstant).words
    · intro before after hit h
      obtain ⟨word, hword, rest, hafter, hstands, -⟩ := (constant_eq_some_iff hruns).mp h
      exact ⟨word, hword, rest, hafter, hstands⟩
    · intro word hword
      obtain ⟨r, hr, rfl⟩ := mem_words_ofTable.mp hword
      obtain ⟨hmem, hcategory⟩ := mem_rules_iff.mp hr
      exact (default_sources r hmem).1 hcategory

theorem replaceAll_bright : replaceAll Enumeration.bright (brightLine name) = shadeLine name := by
  obtain ⟨hit, hhit⟩ : ∃ hit : Hit, hit = ⟨name ++ Enumeration.brightEnding,
    "BrickColor.new(\"Bright ".toList ++ name ++ "\")".toList⟩ := ⟨_, rfl⟩
  have hline : brightLine name = "c".toList ++ (" = ".toList ++ hit.taken) := by
    rw [hhit, brightLine, ← List.append_assoc]
    rfl
  have hclaim : Enumeration.bright (" = ".toList.reverse ++ ("c".toList.reverse ++ []))
      hit.taken = some hit :=
    bright_eq_some_iff.mpr ⟨by decide, name, hname, [], by rw [hhit, List.append_nil], rfl, hhit⟩
  have hstays : ∀ hit', Enumeration.bright [] ("c".toList ++ (" = ".toList ++ hit.taken)) =
      some hit' → PutsBack "c".toList hit' := by
    intro hit' h
    rw [bright_eq_none (by decide) rfl (by decide)] at h
    exact absurd h (by simp)
  have hgap : " = ".toList.all (fun c => !isWord c) = true := by decide
  rw [replaceAll, hline, bright_wordWise.replaceFrom_word (by decide) hstays,
    bright_wordWise.replaceFrom_gap (by simpa using hgap), replaceFrom_whole bright_sound hclaim,
    hhit, List.append_assoc]
  rfl

theorem rewriteCode_brightLine :
    rewriteCode (.ofTable RuleTable.default) (brightLine name) =
      .ok (rewriteWords RuleTable.default (shadeLine name)) := by
  have hvisible : ∃ c ∈ brightLine name, isBlank c = false :=
    ⟨'c', by simp [brightLine], by decide⟩
  have hparen : '(' ∉ brightLine name := notMem_brightLine hname (by decide) (by decide)
  rw [rewriteCode_of_quiet default_wellFormed hvisible (fun b _ => broken?_of_notMem hparen)
    (quiet_before_bright hname)]
  -- what is left are the bright shades and then the three stages of the pass over words
  change Except.ok
    (rewriteWords RuleTable.default (replaceAll Enumeration.bright (brightLine name))) = _
  rw [replaceAll_bright hname]

theorem elseIf_shadeLine : replaceAll Keyword.elseIf (shadeLine name) = shadeLine name := by
  have hquiet : Quiet Keyword.elseIf name :=
    elseIf_quiet_of_no_blank fun c hc => isBlank_of_isWord (hname.2 c hc)
  rw [replaceAll_shadeLine elseIf_wordWise (elseIf_severs (by decide) (by decide))
    (elseIf_quiet free_opening), hquiet.replaceAll_eq elseIf_sound]
  intro hit h
  obtain ⟨gap, -, -, rest, hsplit, -⟩ := elseIf_eq_some_iff.mp h
  have hhead : some 'B' = some 's' := congrArg List.head? hsplit
  exact absurd hhead (by decide)

theorem globalFunction_shadeLine :
    replaceAll (Keyword.globalFunction (vocabulary .globalFunction)) (shadeLine name) =
      shadeLine name := by
  have hruns := wordRun_of_mem_vocabulary (by decide : Category.globalFunction ≠ .enumMember)
  have hclaims : ∀ before after hit,
      Keyword.globalFunction (vocabulary .globalFunction) before after = some hit →
        '(' ∈ after := by
    intro before after hit h
    obtain ⟨word, -, gap, -, rest, rfl, -⟩ := exists_of_globalFunction h
    simp
  have hparen : '(' ∉ name := fun hmem => absurd (hname.2 '(' hmem) (by decide)
  have hquiet : Quiet (Keyword.globalFunction (vocabulary .globalFunction)) name := by
    rintro before after hit rfl h
    exact absurd (hclaims _ after hit h) fun hmem => hparen (by simp [hmem])
  rw [replaceAll_shadeLine (globalFunction_wordWise hruns)
    (globalFunction_severs hruns (by decide) (by decide) (by decide))
    (globalFunction_quiet free_opening), hquiet.replaceAll_eq (globalFunction_sound _)]
  intro hit h
  have hmem := hclaims _ _ hit h
  rw [← List.append_assoc, List.mem_append] at hmem
  rcases hmem with hmem | hmem
  · exact absurd hmem (by decide)
  · exact absurd hmem hparen

theorem translateLine_brightLine {extra : List String} {t : Translator}
    (ht : Translator.ofTable RuleTable.default extra = .ok t) :
    t.translateLine (brightLine name) =
      .ok (shadeLine (replaceAll (Keyword.keyword (vocabulary .keyword)) name)) := by
  have hfree : QuoteFree (brightLine name) := by
    intro c hc
    by_contra hquote
    have hquote : isQuote c = true := by simpa using hquote
    have hmarks : "c = ".toList.all (fun c => !isQuote c) = true := by decide
    refine notMem_brightLine hname (isWord_of_isQuote hquote) (fun hmem => ?_) hc
    have hmark := List.all_eq_true.mp hmarks c hmem
    rw [hquote] at hmark
    exact absurd hmark (by decide)
  rw [translateLine_of_lastCode (.inl hfree), (ofTable_eq_ok ht).2.2, rewriteCode_brightLine hname,
    rewriteWords, Keyword.apply, elseIf_shadeLine hname, globalFunction_shadeLine hname,
    keyword_shadeLine]

end Line

theorem shadeLine_inj {text text' : List Char} (h : shadeLine text = shadeLine text') :
    text = text' :=
  List.append_cancel_right (List.append_cancel_left h)

/-- Under the default rules a line that asks for the bright shade of a name comes out with that name
in a literal exactly if no keyword rule puts something else for the name; and where one does, that
is in the literal. -/
theorem translateLine_bright_iff {extra : List String} {t : Translator}
    (ht : Translator.ofTable RuleTable.default extra = .ok t) {name : List Char}
    (hname : isAsciiName name = true) :
    (t.translateLine (brightLine name) = .ok (shadeLine name) ↔
        ∀ r ∈ RuleTable.default.rules .keyword, r.source.toList = name → r.target = r.source) ∧
      ∀ r ∈ RuleTable.default.rules .keyword, r.source.toList = name →
        t.translateLine (brightLine name) = .ok (shadeLine r.target.toList) := by
  have hrun := wordRun_of_isAsciiName hname
  have hruns := wordRun_of_mem_vocabulary (by decide : Category.keyword ≠ .enumMember)
  have hkeyword : ∀ r ∈ RuleTable.default.rules .keyword, r.source.toList = name →
      t.translateLine (brightLine name) = .ok (shadeLine r.target.toList) := by
    rintro r hr rfl
    have hword : r.source.toList ∈ (vocabulary .keyword).words := mem_words_ofTable.mpr ⟨r, hr, rfl⟩
    rw [translateLine_brightLine hrun ht, keyword_eq_constant,
      replaceAll_constant_of_mem hruns hword, target?_of_rule default_wellFormed hr,
      Option.getD_some]
  refine ⟨⟨?_, ?_⟩, hkeyword⟩
  · rintro hline r hr rfl
    rw [hkeyword r hr rfl] at hline
    exact String.toList_inj.mp (shadeLine_inj (Except.ok.inj hline))
  · intro hsame
    by_cases hword : name ∈ (vocabulary .keyword).words
    · obtain ⟨r, hr, hsource⟩ := mem_words_ofTable.mp hword
      rw [hkeyword r hr hsource, hsame r hr hsource, hsource]
    · rw [translateLine_brightLine hrun ht, keyword_eq_constant,
        replaceAll_constant_of_notMem hruns hrun hword]

theorem translateLine_bright_fin :
    ∃ t, Translator.ofTable RuleTable.default [] = .ok t ∧ isAsciiName "Fin".toList = true ∧
      t.translateLine (brightLine "Fin".toList) = .ok (shadeLine "Fin".toList) := by
  have hname : isAsciiName "Fin".toList = true := by decide
  have hsources : ∀ x ∈ spellings.val, x.source ≠ "Fin".toList := by decide +kernel
  refine ⟨_, ofTable_default [], hname, ?_⟩
  apply (translateLine_bright_iff (ofTable_default []) hname).1.mpr
  intro r hr hsource
  exact absurd hsource (forall_default hsources r (mem_rules_iff.mp hr).1)

/-- A keyword is translated inside the literal of its shade. -/
theorem translateLine_bright_keyword :
    isAsciiName "fin".toList = true ∧
      ∃ t, Translator.ofTable RuleTable.default [] = .ok t ∧
        t.translateLine "c = fin_brillante".toList =
          .ok "c = BrickColor.new(\"Bright end\")".toList := by
  refine ⟨by decide, _, ofTable_default [], ?_⟩
  rw [← translateLine_spelled]
  decide +kernel

end SpanishLua.Proofs.Shades
