import SpanishLua.Proofs.Puts
import SpanishLua.Proofs.Runs

namespace SpanishLua.Proofs.WordPass

open SpanishLua.Code
open SpanishLua.Text
open SpanishLua.Proofs.Characters
open SpanishLua.Proofs.Scanning
open SpanishLua.Proofs.Recognisers
open SpanishLua.Proofs.Sweep
open SpanishLua.Proofs.Tables
open SpanishLua.Proofs.Defaults
open SpanishLua.Proofs.Places
open SpanishLua.Proofs.Words
open SpanishLua.Proofs.Puts
open SpanishLua.Proofs.Severing
open SpanishLua.Proofs.Runs

/-- The text opens a parenthesis, maybe after blanks. -/
def opens (s : List Char) : Bool :=
  (s.dropWhile isBlank).head? = some '('

/-- A run and what is behind it start with the two words that continue a conditional. -/
def continues (run rest : List Char) : Bool :=
  run = "sino".toList ∧ rest.takeWhile isBlank ≠ [] ∧
    wordRun (rest.dropWhile isBlank) = "si".toList

/-- What becomes of a run by itself: the two words that continue a conditional become one, the name
of a function that is called and a keyword are translated, unless they name a member. -/
def wordTurn (rules : RuleTable) : Turning := fun before run rest =>
  if continues run rest then
    ⟨"elseif".toList, (rest.takeWhile isBlank ++ "si".toList).length⟩
  else if inMemberPosition before then ⟨run, 0⟩
  else
    let called := if opens rest then translation? rules .globalFunction run else none
    ⟨(called.or (translation? rules .keyword run)).getD run, 0⟩

section Texts

variable {run rest s : List Char} {c : Char}

theorem opens_cons_of_blank (hc : isBlank c = true) : opens (c :: s) = opens s := by
  rw [opens, opens, List.dropWhile_cons_of_pos hc]

theorem opens_cons (hc : isBlank c = false) : opens (c :: s) = decide (c = '(') := by
  rw [opens, List.dropWhile_cons_of_neg (by simp [hc])]
  simp

theorem exists_of_opens (h : opens s = true) :
    ∃ gap, Blank gap ∧ ∃ rest, s = gap ++ '(' :: rest := by
  have hhead : (s.dropWhile isBlank).head? = some '(' := by simpa [opens] using h
  obtain ⟨rest, hdrop⟩ := List.head?_eq_some_iff.mp hhead
  refine ⟨s.takeWhile isBlank, fun c hc => List.mem_takeWhile_imp hc, rest, ?_⟩
  rw [← hdrop, List.takeWhile_append_dropWhile]

theorem opens_of_gap {gap : List Char} (hgap : Blank gap) (rest : List Char) :
    opens (gap ++ '(' :: rest) = true := by
  have hdrop : (gap ++ '(' :: rest).dropWhile isBlank = '(' :: rest := by
    rw [List.dropWhile_append_of_pos hgap]
    rfl
  rw [opens, hdrop]
  rfl

theorem continues_iff : continues run rest = true ↔
    run = "sino".toList ∧ ∃ gap, gap ≠ [] ∧ Blank gap ∧ ∃ tail, headIsWord tail = false ∧
      rest = gap ++ ("si".toList ++ tail) := by
  have hsi : WordRun "si".toList := by decide
  rw [continues, decide_eq_true_eq]
  constructor
  · rintro ⟨hrun, hgap, hword⟩
    refine ⟨hrun, _, hgap, fun c hc => List.mem_takeWhile_imp hc,
      (rest.dropWhile isBlank).dropWhile isWord, headIsWord_dropWhile _, ?_⟩
    rw [← hword, wordRun, List.takeWhile_append_dropWhile, List.takeWhile_append_dropWhile]
  · rintro ⟨hrun, gap, hne, hgap, tail, htail, rfl⟩
    rw [takeWhile_isBlank_wordRun hgap hsi, List.dropWhile_append_of_pos hgap,
      dropWhile_isBlank_wordRun hsi, wordRun, hsi.takeWhile_append htail]
    exact ⟨hrun, hne, rfl⟩

end Texts

section Scans

variable {before word rest : List Char}

theorem alike_of_word {before before' : List Char} (h : headIsWord before = true)
    (h' : headIsWord before' = true) : Alike before before' := by
  have hmember : ∀ {s : List Char}, headIsWord s = true →
      s.head? ≠ some '.' ∧ inMemberPosition s = false := by
    intro s hs
    rcases s with _ | ⟨c, s⟩
    · exact absurd hs (by decide)
    · have hmark : c ≠ '.' ∧ c ≠ ':' := by
        constructor <;> rintro rfl <;> exact absurd hs (by simp [headIsWord]; decide)
      rw [← Bool.not_eq_true, inMemberPosition_cons]
      simp [hmark]
  obtain ⟨hdot, hplace⟩ := hmember h
  obtain ⟨hdot', hplace'⟩ := hmember h'
  exact ⟨h.trans h'.symm, iff_of_false hdot hdot', hplace.trans hplace'.symm⟩

theorem replaceFrom_put {find : Recogniser} (h : WordWise find) {gap text : List Char}
    (hgap : ∀ c ∈ gap, isWord c = false)
    (hfind : find before (word ++ (gap ++ rest)) = some ⟨word ++ gap, text ++ gap⟩) :
    replaceFrom find before (word ++ (gap ++ rest)) =
      text ++ replaceFrom find (word.reverse ++ before) (gap ++ rest) := by
  obtain ⟨hit, hhit⟩ : ∃ hit : Hit, hit = ⟨word ++ gap, text ++ gap⟩ := ⟨_, rfl⟩
  have htaken : hit.taken = word ++ gap := by rw [hhit]
  have hclaim : find before (hit.taken ++ rest) = some hit := by
    rw [htaken, List.append_assoc, hfind, hhit]
  have hstep := replaceFrom_claimed h.sound hclaim
  rw [htaken, List.append_assoc] at hstep
  rw [hstep, h.replaceFrom_gap hgap, hhit]
  simp

theorem elseIf_pair {gap : List Char} (hne : gap ≠ []) (hgap : Blank gap)
    (hbefore : headIsWord before = false) (hrest : headIsWord rest = false) :
    replaceFrom Keyword.elseIf before ("sino".toList ++ (gap ++ ("si".toList ++ rest))) =
      "elseif".toList ++ replaceFrom Keyword.elseIf
        ((gap ++ "si".toList).reverse ++ ("sino".toList.reverse ++ before)) rest := by
  obtain ⟨hit, hhit⟩ : ∃ hit : Hit, hit = ⟨"sino".toList ++ gap ++ "si".toList, "elseif".toList⟩ :=
    ⟨_, rfl⟩
  have htaken : hit.taken ++ rest = "sino".toList ++ (gap ++ ("si".toList ++ rest)) := by
    rw [hhit, List.append_assoc, List.append_assoc]
  have hclaim : Keyword.elseIf before (hit.taken ++ rest) = some hit :=
    elseIf_eq_some_iff.mpr ⟨gap, hne, hgap, rest, htaken, hbefore, hrest, hhit⟩
  have hbehind : hit.taken.reverse ++ before =
      (gap ++ "si".toList).reverse ++ ("sino".toList.reverse ++ before) := by
    rw [hhit, List.append_assoc, List.reverse_append, List.append_assoc]
  rw [← htaken, replaceFrom_claimed elseIf_sound hclaim, hbehind, hhit]

theorem elseIf_run (hword : WordRun word) (hrest : headIsWord rest = false)
    (h : continues word rest = false) :
    replaceFrom Keyword.elseIf before (word ++ rest) =
      word ++ replaceFrom Keyword.elseIf (word.reverse ++ before) rest := by
  refine elseIf_wordWise.replaceFrom_word hword fun hit hfind => ?_
  obtain ⟨gap, hne, hgap, tail, hsplit, -, htail, -⟩ := elseIf_eq_some_iff.mp hfind
  have hblank := hgap.headIsWord_append hne ("si".toList ++ tail)
  obtain ⟨rfl, rfl⟩ := word_append_inj hword (by decide) hrest hblank hsplit
  rw [continues_iff.mpr ⟨rfl, gap, hne, hgap, tail, htail, rfl⟩] at h
  exact absurd h (by decide)

theorem opens_elseIf (before s : List Char) :
    opens (replaceFrom Keyword.elseIf before s) = opens s := by
  induction s generalizing before with
  | nil => rw [replaceFrom_nil]
  | cons c s ih =>
      cases hword : isWord c with
      | false =>
          rw [replaceFrom_kept (elseIf_wordWise.eq_none_of_head hword)]
          cases hblank : isBlank c with
          | true => rw [opens_cons_of_blank hblank, opens_cons_of_blank hblank, ih]
          | false => rw [opens_cons hblank, opens_cons hblank]
      | true =>
          have hblank := isBlank_of_isWord hword
          cases hfind : Keyword.elseIf before (c :: s) with
          | none => rw [replaceFrom_kept hfind, opens_cons hblank, opens_cons hblank]
          | some hit =>
              have hparen : c ≠ '(' := by
                rintro rfl
                exact absurd hword (by decide)
              obtain ⟨-, tail, htail⟩ := elseIf_sound before (c :: s) hit hfind
              obtain ⟨gap, -, -, rest, -, -, -, hhit⟩ := elseIf_eq_some_iff.mp hfind
              rw [opens_cons hblank, decide_eq_false hparen, ← htail]
              rw [← htail] at hfind
              rw [replaceFrom_claimed elseIf_sound hfind, hhit]
              rfl

section Vocabularies

variable {v : Vocabulary} (hv : ∀ w ∈ v.words, WordRun w)

include hv

theorem globalFunction_kept (hword : WordRun word) (hrest : headIsWord rest = false)
    (h : word ∈ v.words → opens rest = true → inMemberPosition before = true) :
    replaceFrom (Keyword.globalFunction v) before (word ++ rest) =
      word ++ replaceFrom (Keyword.globalFunction v) (word.reverse ++ before) rest := by
  refine (globalFunction_wordWise hv).replaceFrom_word hword fun hit hfind => ?_
  obtain ⟨found, hfound, gap, hgap, tail, hsplit, -, rfl⟩ :=
    (globalFunction_eq_some_iff hv).mp hfind
  obtain ⟨rfl, rfl⟩ :=
    word_append_inj hword (hv found hfound) hrest (headIsWord_gap hgap tail) hsplit
  refine ⟨?_, gap ++ ['('], rfl, isWord_of_opening hgap⟩
  rw [if_pos (h hfound (opens_of_gap hgap tail))]

theorem globalFunction_put {gap target : List Char} (hword : word ∈ v.words)
    (htarget : v.target? word = some target) (hbefore : headIsWord before = false)
    (hmember : inMemberPosition before = false) (hgap : Blank gap) :
    replaceFrom (Keyword.globalFunction v) before (word ++ (gap ++ '(' :: rest)) =
      target ++ replaceFrom (Keyword.globalFunction v) (word.reverse ++ before)
        (gap ++ '(' :: rest) := by
  have hclaim : Keyword.globalFunction v before (word ++ (gap ++ '(' :: rest)) =
      some ⟨word ++ (gap ++ ['(']), target ++ (gap ++ ['('])⟩ := by
    refine (globalFunction_eq_some_iff hv).mpr ⟨word, hword, gap, hgap, rest, rfl, hbefore, ?_⟩
    rw [hmember, htarget]
    rfl
  rw [List.append_cons] at hclaim ⊢
  exact replaceFrom_put (globalFunction_wordWise hv) (isWord_of_opening hgap) hclaim

theorem keyword_run (hword : WordRun word) (hbefore : headIsWord before = false)
    (hrest : headIsWord rest = false) :
    replaceFrom (Keyword.keyword v) before (word ++ rest) =
      (if word ∈ v.words ∧ inMemberPosition before = false then (v.target? word).getD word
        else word) ++ replaceFrom (Keyword.keyword v) (word.reverse ++ before) rest := by
  rw [keyword_eq_constant]
  split
  · rename_i hplace
    have hclaim : Enumeration.constant v before (word ++ ([] ++ rest)) =
        some ⟨word ++ [], (v.target? word).getD word ++ []⟩ := by
      refine (constant_eq_some_iff hv).mpr ⟨word, hplace.1, rest, rfl, ⟨hword, hbefore, hrest⟩, ?_⟩
      rw [hplace.2]
      simp
    exact replaceFrom_put (constant_wordWise hv) (by simp) hclaim
  · rename_i hplace
    refine (constant_wordWise hv).replaceFrom_word hword fun hit hfind => ?_
    obtain ⟨found, hfound, tail, hsplit, hstands, rfl⟩ := (constant_eq_some_iff hv).mp hfind
    obtain ⟨rfl, rfl⟩ := word_append_inj hword hstands.wordRun hrest hstands.right hsplit
    have hmember : inMemberPosition before = true := by
      rw [← Bool.not_eq_false]
      exact fun hmember => hplace ⟨hfound, hmember⟩
    exact ⟨by rw [hmember]; rfl, [], by simp, by simp⟩

end Vocabularies

end Scans

section Defaults

variable {before word rest : List Char}

theorem keyword_target {r : Rule} (hr : r ∈ RuleTable.default.entries) {gap : List Char}
    (hgap : Blank gap) (rest : List Char) (before word : List Char) :
    replaceFrom (Keyword.keyword (vocabulary .keyword)) before
        (r.target.toList ++ (gap ++ '(' :: rest)) =
      r.target.toList ++ replaceFrom (Keyword.keyword (vocabulary .keyword))
        (word.reverse ++ before) (gap ++ '(' :: rest) := by
  have hv : ∀ w ∈ (vocabulary .keyword).words, WordRun w :=
    wordRun_of_mem_vocabulary (by decide)
  have hfree : Free Dialect (r.target.toList ++ gap) := by
    have hblank : ∀ c ∈ gap, isWord c = false := fun c hc => isWord_of_isBlank (hgap c hc)
    refine (foreign_target r hr).append (.of_head ?_) (free_of_not_word hblank)
    rcases gap with _ | ⟨c, gap⟩
    · rfl
    · exact hblank c (by simp)
  have hstays : replaceFrom (Enumeration.constant (vocabulary .keyword)) before
      (r.target.toList ++ gap) = r.target.toList ++ gap := by
    apply replaceFrom_of_quiet (constant_wordWise hv).sound
    intro left right hit hsplit hclaim
    obtain ⟨found, hfound, tail, rfl, hstands, rfl⟩ := (constant_eq_some_iff hv).mp hclaim
    have hleft := headIsWord_of_append hstands.left
    rw [hsplit] at hfree
    have hforeign := hfree.not_of_stands ⟨hstands.wordRun, hleft, hstands.right⟩
    dsimp only
    split
    · rfl
    · by_contra hchanged
      exact hforeign (dialect_of_changed (by decide) hfound hchanged)
  have hopening : ∀ before', replaceFrom (Enumeration.constant (vocabulary .keyword))
      ('(' :: before') rest = replaceFrom (Enumeration.constant (vocabulary .keyword)) [] rest :=
    fun before' => (constant_wordWise hv).replaceFrom_alike
      (alike_nil (by decide) (by decide) (by decide) before') rest
  have hgapped : replaceFrom (Enumeration.constant (vocabulary .keyword)) (word.reverse ++ before)
      (gap ++ '(' :: rest) =
        gap ++ '(' :: replaceFrom (Enumeration.constant (vocabulary .keyword)) [] rest := by
    rw [List.append_cons, (constant_wordWise hv).replaceFrom_gap (isWord_of_opening hgap),
      List.reverse_append, List.reverse_singleton, List.append_assoc, List.singleton_append,
      List.singleton_append, List.cons_append, hopening]
  rw [keyword_eq_constant, hgapped, ← List.append_assoc,
    (constant_severs hv (by decide)).replaceFrom_append (constant_wordWise hv).sound, hstays,
    hopening, List.append_assoc]

theorem wordTurn_of_called {r : Rule} (hr : r ∈ RuleTable.default.rules .globalFunction)
    (hcontinues : continues r.source.toList rest = false)
    (hmember : inMemberPosition before = false) (hopens : opens rest = true) :
    wordTurn RuleTable.default before r.source.toList rest = ⟨r.target.toList, 0⟩ := by
  have htranslation : translation? RuleTable.default .globalFunction r.source.toList =
      some r.target.toList := by
    rw [translation?_of_mem default_wellFormed (mem_words_ofTable.mpr ⟨r, hr, rfl⟩),
      target?_of_rule default_wellFormed hr]
  rw [wordTurn, hcontinues, hmember, hopens]
  simp [htranslation]

theorem wordTurn_of_not_called (hcontinues : continues word rest = false)
    (h : word ∈ (vocabulary .globalFunction).words → opens rest = true →
      inMemberPosition before = true) :
    wordTurn RuleTable.default before word rest =
      ⟨if word ∈ (vocabulary .keyword).words ∧ inMemberPosition before = false then
        ((vocabulary .keyword).target? word).getD word else word, 0⟩ := by
  rw [wordTurn, hcontinues]
  cases hmember : inMemberPosition before with
  | true => simp
  | false =>
      have hcalled : (if opens rest then translation? RuleTable.default .globalFunction word
          else none) = none := by
        split
        · rename_i hopens
          refine translation?_of_notMem fun hword => ?_
          rw [h hword hopens] at hmember
          exact absurd hmember (by decide)
        · rfl
      by_cases hkeyword : word ∈ (vocabulary .keyword).words
      · simp [hcalled, hkeyword, translation?_of_mem default_wellFormed hkeyword]
      · simp [hcalled, hkeyword, translation?_of_notMem hkeyword]

theorem wordTurn_of_pair {gap : List Char} (hne : gap ≠ []) (hgap : Blank gap)
    (hrest : headIsWord rest = false) :
    wordTurn RuleTable.default before "sino".toList (gap ++ ("si".toList ++ rest)) =
      ⟨"elseif".toList, (gap ++ "si".toList).length⟩ := by
  have hsi : WordRun "si".toList := by decide
  rw [wordTurn, continues_iff.mpr ⟨rfl, gap, hne, hgap, rest, hrest, rfl⟩, if_pos rfl,
    takeWhile_isBlank_wordRun hgap hsi]

/-- The three scans from a place. All of them see it behind the same text. -/
def scansFrom (before code : List Char) : List Char :=
  replaceFrom (Keyword.keyword (vocabulary .keyword)) before
    (replaceFrom (Keyword.globalFunction (vocabulary .globalFunction)) before
      (replaceFrom Keyword.elseIf before code))

theorem functions_wordWise :
    WordWise (Keyword.globalFunction (vocabulary .globalFunction)) :=
  globalFunction_wordWise (wordRun_of_mem_vocabulary (by decide))

theorem keywords_wordWise : WordWise (Keyword.keyword (vocabulary .keyword)) :=
  constant_wordWise (wordRun_of_mem_vocabulary (by decide))

theorem scansFrom_other {c : Char} (hc : isWord c = false) :
    scansFrom before (c :: rest) = c :: scansFrom (c :: before) rest := by
  rw [scansFrom, replaceFrom_kept (elseIf_wordWise.eq_none_of_head hc),
    replaceFrom_kept (functions_wordWise.eq_none_of_head hc),
    replaceFrom_kept (keywords_wordWise.eq_none_of_head hc)]
  rfl

theorem scansFrom_pair {gap : List Char} (hne : gap ≠ []) (hgap : Blank gap)
    (hbefore : headIsWord before = false) (hrest : headIsWord rest = false) :
    scansFrom before ("sino".toList ++ (gap ++ ("si".toList ++ rest))) =
      "elseif".toList ++
        scansFrom ((gap ++ "si".toList).reverse ++ ("sino".toList.reverse ++ before)) rest := by
  have hword : WordRun "elseif".toList := by decide
  have halike : Alike ("elseif".toList.reverse ++ before)
      ((gap ++ "si".toList).reverse ++ ("sino".toList.reverse ++ before)) := by
    refine alike_of_word (hword.reverse.headIsWord_append before) ?_
    rw [List.reverse_append, List.append_assoc]
    exact (show WordRun "si".toList.reverse by decide).headIsWord_append _
  have hhead := elseIf_wordWise.headIsWord_replaceFrom hrest
    ((gap ++ "si".toList).reverse ++ ("sino".toList.reverse ++ before))
  rw [scansFrom, elseIf_pair hne hgap hbefore hrest,
    globalFunction_kept (wordRun_of_mem_vocabulary (by decide)) hword hhead
      (fun hmem => absurd hmem (notMem_vocabulary (by simp) _)),
    keyword_run (wordRun_of_mem_vocabulary (by decide)) hword hbefore
      (functions_wordWise.headIsWord_replaceFrom hhead _),
    if_neg fun h => notMem_vocabulary (by simp) _ h.1, functions_wordWise.replaceFrom_alike halike,
    keywords_wordWise.replaceFrom_alike halike]
  rfl

theorem scansFrom_called {r : Rule} (hr : r ∈ RuleTable.default.rules .globalFunction)
    {gap : List Char} (hgap : Blank gap) (hbefore : headIsWord before = false)
    (hmember : inMemberPosition before = false)
    (hcontinues : continues r.source.toList (gap ++ '(' :: rest) = false) :
    scansFrom before (r.source.toList ++ (gap ++ '(' :: rest)) =
      r.target.toList ++ scansFrom (r.source.toList.reverse ++ before) (gap ++ '(' :: rest) := by
  have hmem : r.source.toList ∈ (vocabulary .globalFunction).words :=
    mem_words_ofTable.mpr ⟨r, hr, rfl⟩
  have hruns : ∀ w ∈ (vocabulary .globalFunction).words, WordRun w :=
    wordRun_of_mem_vocabulary (by decide)
  -- blanks and the parenthesis go through every scan
  have hopening : ∀ {find : Recogniser}, WordWise find → ∀ before rest, ∃ rest',
      replaceFrom find before (gap ++ '(' :: rest) = gap ++ '(' :: rest' := by
    intro find hfind before rest
    refine ⟨replaceFrom find ((gap ++ ['(']).reverse ++ before) rest, ?_⟩
    rw [List.append_cons, hfind.replaceFrom_gap (isWord_of_opening hgap), ← List.append_cons]
  obtain ⟨once, honce⟩ := hopening elseIf_wordWise (r.source.toList.reverse ++ before) rest
  obtain ⟨twice, htwice⟩ := hopening functions_wordWise (r.source.toList.reverse ++ before) once
  rw [scansFrom, elseIf_run (hruns _ hmem) (headIsWord_gap hgap rest) hcontinues, honce,
    globalFunction_put hruns hmem (target?_of_rule default_wellFormed hr) hbefore hmember hgap,
    htwice, keyword_target (mem_rules_iff.mp hr).1 hgap, ← htwice, ← honce]
  rfl

theorem scansFrom_word (hword : WordRun word) (hbefore : headIsWord before = false)
    (hrest : headIsWord rest = false) (hcontinues : continues word rest = false)
    (h : word ∈ (vocabulary .globalFunction).words → opens rest = true →
      inMemberPosition before = true) :
    scansFrom before (word ++ rest) =
      (if word ∈ (vocabulary .keyword).words ∧ inMemberPosition before = false then
        ((vocabulary .keyword).target? word).getD word else word) ++
          scansFrom (word.reverse ++ before) rest := by
  have hhead := elseIf_wordWise.headIsWord_replaceFrom hrest (word.reverse ++ before)
  rw [scansFrom, elseIf_run hword hrest hcontinues,
    globalFunction_kept (wordRun_of_mem_vocabulary (by decide)) hword hhead
      (by rwa [opens_elseIf]),
    keyword_run (wordRun_of_mem_vocabulary (by decide)) hword hbefore
      (functions_wordWise.headIsWord_replaceFrom hhead _)]
  rfl

/-- From any place where no word runs on, the three scans come to the single pass. -/
theorem scansFrom_eq_overRuns (before code : List Char)
    (hplace : headIsWord before = false ∨ headIsWord code = false) :
    scansFrom before code = overRuns (wordTurn RuleTable.default) before code := by
  induction before, code using run_induction with
  | nil before => simp only [scansFrom, replaceFrom_nil, overRuns_nil]
  | other before c rest hc ih =>
      rw [scansFrom_other hc, overRuns_other hc]
      exact congrArg (c :: ·) (ih [] rest rfl (.inl hc))
  | run before word rest hword hrest ih =>
      have hbefore := headIsWord_of_place hword hplace
      have hafter := ih [] rest rfl (.inr hrest)
      rw [List.reverse_nil, List.nil_append] at hafter
      cases hcontinues : continues word rest with
      | true =>
          obtain ⟨rfl, gap, hne, hgap, tail, htail, rfl⟩ := continues_iff.mp hcontinues
          rw [scansFrom_pair hne hgap hbefore htail,
            ih (gap ++ "si".toList) tail (List.append_assoc _ _ _).symm (.inr htail),
            overRuns_run hword hrest, wordTurn_of_pair hne hgap htail, ← List.append_assoc gap,
            List.take_left, List.drop_left]
      | false =>
          by_cases hcalled : word ∈ (vocabulary .globalFunction).words → opens rest = true →
              inMemberPosition before = true
          · rw [scansFrom_word hword hbefore hrest hcontinues hcalled, hafter,
              overRuns_step hword hrest (wordTurn_of_not_called hcontinues hcalled)]
          · obtain ⟨hmem, hopens, hmember⟩ : word ∈ (vocabulary .globalFunction).words ∧
                opens rest = true ∧ inMemberPosition before = false := by
              simpa using hcalled
            obtain ⟨r, hr, rfl⟩ := mem_words_ofTable.mp hmem
            obtain ⟨gap, hgap, tail, rfl⟩ := exists_of_opens hopens
            rw [scansFrom_called hr hgap hbefore hmember hcontinues, hafter,
              overRuns_step hword hrest (wordTurn_of_called hr hcontinues hmember hopens)]

end Defaults

/-- Under the default rules the pass over words is a single pass over the runs of the code. -/
theorem keywords_eq_overRuns (code : List Char) :
    Pass.apply (.ofTable RuleTable.default) code .keywords =
      .ok (overRuns (wordTurn RuleTable.default) [] code) := by
  rw [← scansFrom_eq_overRuns [] code (.inl rfl)]
  rfl

end SpanishLua.Proofs.WordPass
