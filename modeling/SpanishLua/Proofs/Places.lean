import SpanishLua.Proofs.Seams
import SpanishLua.Proofs.Sweep

namespace SpanishLua.Proofs.Places

open SpanishLua.Code
open SpanishLua.Text
open SpanishLua.Proofs.Characters
open SpanishLua.Proofs.Scanning
open SpanishLua.Proofs.Recognisers
open SpanishLua.Proofs.Seams
open SpanishLua.Proofs.Sweep

/-- The word stands by itself between `before`, nearest character first, and `rest`. -/
structure Stands (before word rest : List Char) : Prop where
  wordRun : WordRun word
  left : headIsWord before = false
  right : headIsWord rest = false

/-- All characters of the text are blank. -/
def Blank (s : List Char) : Prop :=
  ∀ c ∈ s, isBlank c = true

/-- The word is a maximal run of word characters in the text. -/
def HasRun (s word : List Char) : Prop :=
  ∃ before rest, s = before ++ (word ++ rest) ∧ Stands before.reverse word rest

/-- No maximal run of word characters in the text has the property `D`. -/
def Free (D : List Char → Prop) (s : List Char) : Prop :=
  ∀ word, HasRun s word → ¬ D word

/-- At no place of the text does `find` put something else for what it takes. -/
def Quiet (find : Recogniser) (s : List Char) : Prop :=
  ∀ before after hit, s = before ++ after → find before.reverse after = some hit →
    hit.text = hit.taken

theorem replaceFrom_of_quiet {find : Recogniser} (hsound : Sound find) {before after : List Char}
    (h : ∀ left right hit, after = left ++ right →
      find (left.reverse ++ before) right = some hit → hit.text = hit.taken) :
    replaceFrom find before after = after := by
  induction before, after using scan_induction hsound with
  | nil before => rw [replaceFrom_nil]
  | kept before c rest hfind ih =>
      rw [replaceFrom_kept hfind, ih]
      intro left right hit hsplit hclaim
      exact h (c :: left) right hit (by rw [hsplit]; rfl) (by simpa using hclaim)
  | claimed before hit rest hfind ih =>
      rw [replaceFrom_claimed hsound hfind, h [] _ hit rfl hfind, ih]
      intro left right hit' hsplit hclaim
      exact h (hit.taken ++ left) right hit' (by rw [hsplit, List.append_assoc])
        (by simpa using hclaim)

theorem Quiet.replaceAll_eq {find : Recogniser} {s : List Char} (h : Quiet find s)
    (hsound : Sound find) : replaceAll find s = s := by
  apply replaceFrom_of_quiet hsound
  intro left right hit hsplit hclaim
  exact h left right hit hsplit (by simpa using hclaim)

theorem quiet_of_notMem {find : Recogniser} {s : List Char} {c : Char} (hc : c ∉ s)
    (h : ∀ before after hit, find before after = some hit → c ∈ after) : Quiet find s := by
  rintro before after hit rfl hfind
  exact absurd (List.mem_append_right before (h _ after hit hfind)) hc

theorem method_quiet_of_notMem {v : Vocabulary} {s : List Char} (hcolon : ':' ∉ s) :
    Quiet (Call.method v) s := by
  apply quiet_of_notMem hcolon
  intro before after hit h
  obtain ⟨blanks, -, word, -, gap, -, rest, htaken, rfl, -⟩ := exists_of_method h
  simp [htaken]

theorem constructor_quiet_of_notMem {v : Vocabulary} {s : List Char} (hparen : '(' ∉ s) :
    Quiet (Call.constructor v) s := by
  apply quiet_of_notMem hparen
  intro before after hit h
  obtain ⟨-, run, -, gap, -, rest, rfl, -⟩ := constructor_eq_some_iff.mp h
  simp

theorem instanceFactory_quiet_of_notMem {s : List Char} (hparen : '(' ∉ s) :
    Quiet Call.instanceFactory s := by
  apply quiet_of_notMem hparen
  intro before after hit h
  obtain ⟨-, gap, -, rest, rfl, -⟩ := exists_of_instanceFactory h
  simp

section Runs

variable {before word rest : List Char}

theorem Stands.atBoundary (h : Stands before word rest) :
    atBoundary before (word ++ rest) = true :=
  (atBoundary_of_head (h.wordRun.headIsWord_append rest)).mpr h.left

theorem Stands.endsAt (h : Stands before word rest) : endsAt before word rest = true :=
  (endsAt_of_wordRun h.wordRun).mpr h.right

theorem stands_of_boundaries (hword : WordRun word)
    (hleft : Text.atBoundary before (word ++ rest) = true)
    (hright : Code.endsAt before word rest = true) : Stands before word rest :=
  ⟨hword, (atBoundary_of_head (hword.headIsWord_append rest)).mp hleft,
    (endsAt_of_wordRun hword).mp hright⟩

theorem Free.not_of_stands {D : List Char → Prop} (h : Free D (before ++ (word ++ rest)))
    (hstands : Stands before.reverse word rest) : ¬ D word :=
  h word ⟨before, rest, rfl, hstands⟩

theorem Free.mono {D E : List Char → Prop} {s : List Char} (h : Free D s)
    (himp : ∀ word, E word → D word) : Free E s :=
  fun word hrun hword => h word hrun (himp word hword)

theorem headIsWord_gap (h : Blank rest) (tail : List Char) :
    headIsWord (rest ++ '(' :: tail) = false :=
  headIsWord_of_gap h (by decide)

theorem Blank.headIsWord_append (h : Blank rest) (hne : rest ≠ []) (tail : List Char) :
    headIsWord (rest ++ tail) = false := by
  obtain ⟨c, gap, rfl⟩ := List.exists_cons_of_ne_nil hne
  exact isWord_of_isBlank (h c (by simp))

theorem isWord_of_opening {gap : List Char} (hgap : Blank gap) :
    ∀ c ∈ gap ++ ['('], isWord c = false := by
  intro c hc
  rcases List.mem_append.mp hc with hc | hc
  · exact isWord_of_isBlank (hgap c hc)
  · rw [List.mem_singleton.mp hc]
    decide

theorem takeWhile_isBlank_wordRun {gap : List Char} (hgap : Blank gap) (hword : WordRun word)
    (rest : List Char) : (gap ++ (word ++ rest)).takeWhile isBlank = gap := by
  have hdrop : (gap ++ (word ++ rest)).dropWhile isBlank = word ++ rest := by
    rw [List.dropWhile_append_of_pos hgap, dropWhile_isBlank_wordRun hword]
  have hsplit := List.takeWhile_append_dropWhile (p := isBlank) (l := gap ++ (word ++ rest))
  rw [hdrop] at hsplit
  exact List.append_cancel_right hsplit

theorem headIsWord_of_append {s t : List Char} (h : headIsWord (s ++ t) = false) :
    headIsWord s = false := by
  cases s with
  | nil => rfl
  | cons c s => exact h

theorem hasRun_of_append {s t : List Char} (hseam : Seam s t) (h : HasRun (s ++ t) word) :
    HasRun s word ∨ HasRun t word := by
  obtain ⟨p, r, hsplit, hstands⟩ := h
  rcases List.append_eq_append_iff.mp hsplit with ⟨p, rfl, rfl⟩ | ⟨s, rfl, hrest⟩
  · have hleft := hstands.left
    rw [List.reverse_append] at hleft
    exact .inr ⟨p, r, rfl, hstands.wordRun, headIsWord_of_append hleft, hstands.right⟩
  · rcases List.append_eq_append_iff.mp hrest with ⟨s, rfl, rfl⟩ | ⟨w, rfl, rfl⟩
    · exact .inl ⟨p, s, rfl, hstands.wordRun, hstands.left, headIsWord_of_append hstands.right⟩
    · by_cases hw : w = []
      · subst hw
        exact .inl ⟨p, [], by simp, hstands.wordRun, hstands.left, rfl⟩
      by_cases hs : s = []
      · subst hs
        exact .inr ⟨[], r, rfl, hstands.wordRun, rfl, hstands.right⟩
      · -- a word on both sides of the seam would run on over it
        exfalso
        have hsrun : WordRun s := ⟨hs, fun c hc => hstands.wordRun.2 c (by simp [hc])⟩
        have hwrun : WordRun w := ⟨hw, fun c hc => hstands.wordRun.2 c (by simp [hc])⟩
        rw [Seam, List.reverse_append, hsrun.reverse.headIsWord_append,
          hwrun.headIsWord_append] at hseam
        exact absurd hseam (by decide)

theorem Free.append {D : List Char → Prop} {s t : List Char} (hs : Free D s) (hseam : Seam s t)
    (ht : Free D t) : Free D (s ++ t) := by
  intro word hrun
  rcases hasRun_of_append hseam hrun with hrun | hrun
  · exact hs word hrun
  · exact ht word hrun

theorem hasRun_of_endsInLookup {code : List Char} (h : EndsInLookup code) :
    HasRun code Service.accessor := by
  obtain ⟨start, gap, gap', rfl, hstart, hgap, -⟩ := h
  exact ⟨start, gap ++ '(' :: gap', by simp, wordRun_accessor, hstart, headIsWord_gap hgap gap'⟩

theorem hasRun_append {s t : List Char} (hseam : Seam s t) :
    HasRun (s ++ t) word ↔ HasRun s word ∨ HasRun t word := by
  constructor
  · exact hasRun_of_append hseam
  · rintro (⟨p, r, rfl, hstands⟩ | ⟨p, r, rfl, hstands⟩)
    · refine ⟨p, r ++ t, by simp, hstands.wordRun, hstands.left, ?_⟩
      by_cases hr : r = []
      · subst hr
        rw [List.append_nil, Seam, List.reverse_append,
          hstands.wordRun.reverse.headIsWord_append] at hseam
        simpa using hseam
      · rw [headIsWord_append hr]
        exact hstands.right
    · refine ⟨s ++ p, r, by simp, hstands.wordRun, ?_, hstands.right⟩
      by_cases hp : p = []
      · subst hp
        rw [List.nil_append, Seam, hstands.wordRun.headIsWord_append] at hseam
        simpa using hseam
      · rw [List.reverse_append, headIsWord_append (by simpa using hp)]
        exact hstands.left

theorem hasRun_wordRun {s : List Char} (hs : WordRun s) : HasRun s word ↔ word = s := by
  constructor
  · rintro ⟨p, r, rfl, hstands⟩
    have hp : p = [] := by
      by_contra hp
      have hrun : WordRun p := ⟨hp, fun c hc => hs.2 c (by simp [hc])⟩
      have hleft := hrun.reverse.headIsWord_append []
      rw [List.append_nil, hstands.left] at hleft
      exact absurd hleft (by decide)
    have hr : r = [] := by
      by_contra hr
      have hrun : WordRun r := ⟨hr, fun c hc => hs.2 c (by simp [hc])⟩
      have hright := hrun.headIsWord_append []
      rw [List.append_nil, hstands.right] at hright
      exact absurd hright (by decide)
    simp [hp, hr]
  · rintro rfl
    exact ⟨[], [], by simp, hs, rfl, rfl⟩

theorem hasRun_cons {c : Char} (hc : isWord c = false) {s : List Char} :
    HasRun (c :: s) word ↔ HasRun s word := by
  have hchar : ¬ HasRun [c] word := by
    rintro ⟨p, r, hsplit, hstands⟩
    obtain ⟨d, w, rfl⟩ := List.exists_cons_of_ne_nil hstands.wordRun.1
    have hd : d ∈ [c] := by rw [hsplit]; simp
    have hword := hstands.wordRun.2 d (by simp)
    rw [List.mem_singleton.mp hd, hc] at hword
    exact absurd hword (by decide)
  have hseam : Seam [c] s := .of_last (by simpa [headIsWord] using hc)
  rw [← List.singleton_append, hasRun_append hseam, or_iff_right hchar]

/-- The maximal runs of word characters in a text, the first of which may have started with
`letters`, nearest first. -/
def runsAfter : (letters : List Char) → List Char → List (List Char)
  | letters, [] => if letters.isEmpty then [] else [letters.reverse]
  | letters, c :: s =>
      if isWord c then runsAfter (c :: letters) s
      else if letters.isEmpty then runsAfter [] s
      else letters.reverse :: runsAfter [] s

theorem mem_runsAfter {letters s : List Char} (h : ∀ c ∈ letters, isWord c = true) :
    word ∈ runsAfter letters s ↔ HasRun (letters.reverse ++ s) word := by
  have hnil : ¬ HasRun [] word := by
    rintro ⟨p, r, hsplit, hstands⟩
    have hnil := (List.append_eq_nil_iff.mp hsplit.symm).2
    exact hstands.wordRun.1 (List.append_eq_nil_iff.mp hnil).1
  have hletters : ∀ {letters : List Char}, (∀ c ∈ letters, isWord c = true) → letters ≠ [] →
      WordRun letters.reverse := by
    intro letters h hne
    exact ⟨by simpa using hne, fun c hc => h c (List.mem_reverse.mp hc)⟩
  induction s generalizing letters with
  | nil =>
      by_cases hempty : letters = []
      · subst hempty
        simp [runsAfter, hnil]
      · have hrun := hletters h hempty
        rw [List.append_nil, hasRun_wordRun hrun]
        simp [runsAfter, hempty]
  | cons c s ih =>
      cases hc : isWord c with
      | true =>
          have hmore : ∀ d ∈ c :: letters, isWord d = true := by simpa [hc] using h
          rw [runsAfter, if_pos hc]
          simpa using ih hmore
      | false =>
          have hseam : Seam letters.reverse (c :: s) := .of_head hc
          rw [runsAfter, hc, if_neg (by decide), hasRun_append hseam, hasRun_cons hc]
          have hs : word ∈ runsAfter [] s ↔ HasRun s word := ih (by simp)
          by_cases hempty : letters = []
          · subst hempty
            simp [hs, hnil]
          · have hrun := hletters h hempty
            rw [hasRun_wordRun hrun]
            simp [hempty, hs]

theorem Free.of_cons {D : List Char → Prop} {c : Char} {s : List Char} (hc : isWord c = false)
    (h : Free D s) : Free D (c :: s) :=
  fun word hrun => h word ((hasRun_cons hc).mp hrun)

theorem free_of_not_word {D : List Char → Prop} {s : List Char} (h : ∀ c ∈ s, isWord c = false) :
    Free D s := by
  rintro word ⟨before, rest, rfl, hstands⟩
  obtain ⟨c, word, rfl⟩ := List.exists_cons_of_ne_nil hstands.wordRun.1
  have hword := hstands.wordRun.2 c (by simp)
  rw [h c (by simp)] at hword
  exact absurd hword (by decide)

theorem Free.append_opening {D : List Char → Prop} {s gap : List Char} (h : Free D s)
    (hgap : Blank gap) : Free D (s ++ (gap ++ ['('])) := by
  have hopening : Free D (gap ++ ['(']) := free_of_not_word (isWord_of_opening hgap)
  exact h.append (.of_head (headIsWord_gap hgap [])) hopening

theorem free_iff {D : List Char → Prop} {s : List Char} :
    Free D s ↔ ∀ word ∈ runsAfter [] s, ¬ D word := by
  have hmem : ∀ word, word ∈ runsAfter [] s ↔ HasRun s word := fun _ => mem_runsAfter (by simp)
  simp only [Free, hmem]

instance {D : List Char → Prop} [DecidablePred D] (s : List Char) : Decidable (Free D s) :=
  decidable_of_iff' _ free_iff

end Runs

theorem inMemberPosition_cons {c : Char} {before : List Char} :
    inMemberPosition (c :: before) = true ↔ c = ':' ∨ c = '.' ∧ before.head? ≠ some '.' := by
  rw [Ne, List.head?_eq_some_iff]
  unfold inMemberPosition
  split <;> simp_all

theorem opening?_eq_none_of_word {s : List Char} (h : headIsWord s = true) : opening? s = none := by
  cases hopening : opening? s with
  | none => rfl
  | some found =>
      rcases found with ⟨paren, rest⟩
      obtain ⟨gap, hgap, -, rfl⟩ := opening?_eq_some_iff.mp hopening
      rw [headIsWord_gap hgap] at h
      exact absurd h (by decide)

section Words

variable {α : Type} {words : List (List Char)} (hwords : ∀ w ∈ words, WordRun w)

include hwords

/-- Of the words that a text may start with, a recogniser that wants its word to end there takes
the whole one. -/
theorem firstWord?_of_mem {word rest : List Char} (hword : word ∈ words)
    (hrest : headIsWord rest = false) {accept : List Char → List Char → Option α}
    (hreject : ∀ w ∈ words, ∀ r, headIsWord r = true → accept w r = none) :
    firstWord? words (word ++ rest) accept = accept word rest := by
  have hrun := hwords word hword
  have hothers : ∀ w ∈ words, w ≠ word →
      (w.isPrefixOf? (word ++ rest)).bind (accept w) = none := by
    intro w hw hne
    cases hprefix : w.isPrefixOf? (word ++ rest) with
    | none => rfl
    | some tail =>
        have hsplit := isPrefixOf?_eq_some_iff.mp hprefix
        apply hreject w hw
        rw [List.append_eq_append_iff] at hsplit
        rcases hsplit with ⟨more, rfl, rfl⟩ | ⟨more, rfl, rfl⟩
        · -- the longer word would run on into the rest
          have hmore : WordRun more :=
            ⟨fun h => hne (by simp [h]), fun c hc => (hwords _ hw).2 c (by simp [hc])⟩
          rw [hmore.headIsWord_append] at hrest
          exact absurd hrest (by decide)
        · have hmore : WordRun more :=
            ⟨fun h => hne (by simp [h]), fun c hc => hrun.2 c (by simp [hc])⟩
          exact hmore.headIsWord_append rest
  have hself : (word.isPrefixOf? (word ++ rest)).bind (accept word) = accept word rest := by
    rw [isPrefixOf?_eq_some_iff.mpr rfl, Option.bind_some]
  rw [firstWord?]
  clear hwords hreject
  induction words with
  | nil => simp at hword
  | cons w words ih =>
      rw [List.findSome?_cons]
      by_cases hw : w = word
      · subst hw
        rw [hself]
        cases haccept : accept w rest with
        | some a => rfl
        | none =>
            rw [List.findSome?_eq_none_iff]
            intro w' hw'
            by_cases heq : w' = w
            · rw [heq, hself, haccept]
            · exact hothers w' (by simp [hw']) heq
      · rw [hothers w (by simp) hw]
        exact ih (by simpa [Ne.symm hw] using hword) fun w' hw' => hothers w' (by simp [hw'])

theorem wholeWord_eq_some_iff {before after : List Char} {hit : Hit}
    {text : List Char → List Char} :
    (if atBoundary before after then
      firstWord? words after fun word rest =>
        if endsAt before word rest then some { taken := word, text := text word } else none
      else none) = some hit ↔
    ∃ word ∈ words, ∃ rest, after = word ++ rest ∧ Stands before word rest ∧
      hit = ⟨word, text word⟩ := by
  constructor
  · intro h
    obtain ⟨word, hword, rest, rfl, hleft, hright, rfl⟩ := exists_of_wholeWord h
    exact ⟨word, hword, rest, rfl, stands_of_boundaries (hwords word hword) hleft hright, rfl⟩
  · rintro ⟨word, hword, rest, rfl, hstands, rfl⟩
    have hreject : ∀ w ∈ words, ∀ r, headIsWord r = true →
        (if endsAt before w r then some (Hit.mk w (text w)) else none) = none := by
      intro w hw r hr
      rw [if_neg]
      rw [endsAt_of_wordRun (hwords w hw), hr]
      decide
    rw [if_pos hstands.atBoundary, firstWord?_of_mem hwords hword hstands.right hreject,
      if_pos hstands.endsAt]

end Words

theorem opening?_gap {gap : List Char} (hgap : Blank gap) (rest : List Char) :
    opening? (gap ++ '(' :: rest) = some (gap ++ ['('], rest) :=
  opening?_eq_some_iff.mpr ⟨gap, hgap, rfl, rfl⟩

theorem not_endsAt {before word rest : List Char} (hword : WordRun word)
    (hrest : headIsWord rest = true) : ¬ endsAt before word rest = true := by
  rw [endsAt_of_wordRun hword, hrest]
  decide

theorem lookup_eq_some_iff {before after : List Char} {hit : Hit} :
    Service.lookup before after = some hit ↔
      ∃ rest, after = Service.accessor ++ rest ∧ Stands before Service.accessor rest ∧
        hit = ⟨Service.accessor,
          (if inMemberPosition before then "GetService" else "game:GetService").toList⟩ := by
  have hwords : ∀ w ∈ [Service.accessor], WordRun w := by
    intro w hw
    exact List.mem_singleton.mp hw ▸ wordRun_accessor
  have hexact : Service.lookup before after = some hit ↔ _ := wholeWord_eq_some_iff hwords
  rw [hexact]
  simp only [List.mem_singleton, exists_eq_left]

theorem instanceFactory_eq_some_iff {before after : List Char} {hit : Hit} :
    Call.instanceFactory before after = some hit ↔
      ∃ gap, Blank gap ∧ ∃ rest, after = "instancia_nueva".toList ++ (gap ++ '(' :: rest) ∧
        headIsWord before = false ∧
        hit = ⟨"instancia_nueva".toList ++ (gap ++ ['(']), "Instance.new(".toList⟩ := by
  have hrun := wordRun_instanceFactory
  constructor
  · intro h
    obtain ⟨hleft, gap, hgap, rest, rfl, rfl⟩ := exists_of_instanceFactory h
    rw [atBoundary_of_head (hrun.headIsWord_append _)] at hleft
    exact ⟨gap, hgap, rest, rfl, hleft, rfl⟩
  · rintro ⟨gap, hgap, rest, rfl, hleft, rfl⟩
    have hwords : ∀ w ∈ ["instancia_nueva".toList], WordRun w := by
      intro w hw
      exact List.mem_singleton.mp hw ▸ hrun
    rw [Call.instanceFactory, if_pos ((atBoundary_of_head (hrun.headIsWord_append _)).mpr hleft),
      firstWord?_of_mem hwords (by simp) (headIsWord_gap hgap rest), opening?_gap hgap]
    · rfl
    · intro w _ r hr
      rw [opening?_eq_none_of_word hr, Option.map_none]

theorem elseIf_eq_some_iff {before after : List Char} {hit : Hit} :
    Keyword.elseIf before after = some hit ↔
      ∃ gap, gap ≠ [] ∧ Blank gap ∧ ∃ rest,
        after = "sino".toList ++ (gap ++ ("si".toList ++ rest)) ∧ headIsWord before = false ∧
        headIsWord rest = false ∧
        hit = ⟨"sino".toList ++ gap ++ "si".toList, "elseif".toList⟩ := by
  have hsino : WordRun "sino".toList := by decide
  have hsi : WordRun "si".toList := by decide
  have hends : ∀ gap rest, endsAt before ("sino".toList ++ gap ++ "si".toList) rest = true ↔
      headIsWord rest = false := by
    intro gap rest
    rw [endsAt, atBoundary, List.reverse_append, List.append_assoc,
      hsi.reverse.headIsWord_append]
    simp
  constructor
  · intro h
    obtain ⟨hleft, gap, hne, hgap, rest, rfl, hright, rfl⟩ := exists_of_elseIf h
    rw [List.append_assoc, List.append_assoc, atBoundary_of_head (hsino.headIsWord_append _)]
      at hleft
    exact ⟨gap, hne, hgap, rest, by simp, hleft, (hends gap rest).mp hright, rfl⟩
  · rintro ⟨gap, hne, hgap, rest, rfl, hleft, hright, rfl⟩
    have htake : (gap ++ ("si".toList ++ rest)).takeWhile isBlank = gap :=
      takeWhile_isBlank_wordRun hgap hsi rest
    have hdrop : (gap ++ ("si".toList ++ rest)).dropWhile isBlank = "si".toList ++ rest := by
      rw [List.dropWhile_append_of_pos hgap, dropWhile_isBlank_wordRun hsi]
    have hempty : ¬ gap.isEmpty = true := by simpa using hne
    rw [Keyword.elseIf, if_pos ((atBoundary_of_head (hsino.headIsWord_append _)).mpr hleft),
      isPrefixOf?_eq_some_iff.mpr rfl, Option.bind_some]
    simp only [htake, hdrop]
    rw [if_neg hempty, isPrefixOf?_eq_some_iff.mpr rfl, Option.bind_some,
      if_pos ((hends gap rest).mpr hright)]

theorem property_cons {v : Vocabulary} {before rest : List Char} :
    Member.property v before ('.' :: rest) = firstWord? v.words rest fun word tail =>
      if endsAt before word tail then
        some ⟨'.' :: word,
          '.' :: if before.head? = some '.' then word else (v.target? word).getD word⟩
      else none := by
  rw [Member.property]
  congr 1
  funext word tail
  congr 3
  split
  · rename_i hdot
    rw [if_pos hdot]
  · rename_i htarget _
    rw [htarget, Option.getD_none, ite_self]
  · rename_i htarget hdot
    rw [htarget, if_neg fun h => hdot h, Option.getD_some]

theorem exists_of_property_head {v : Vocabulary} {before after : List Char} {hit : Hit}
    (h : Member.property v before after = some hit) : ∃ rest, after = '.' :: rest := by
  obtain ⟨word, -, rest, rfl, -⟩ := exists_of_property h
  exact ⟨word ++ rest, rfl⟩

section Vocabularies

variable {v : Vocabulary} (hv : ∀ w ∈ v.words, WordRun w) {before after : List Char} {hit : Hit}

include hv

theorem constant_eq_some_iff :
    Enumeration.constant v before after = some hit ↔
      ∃ word ∈ v.words, ∃ rest, after = word ++ rest ∧ Stands before word rest ∧
        hit = ⟨word, if inMemberPosition before then word else (v.target? word).getD word⟩ :=
  wholeWord_eq_some_iff hv

theorem globalFunction_eq_some_iff :
    Keyword.globalFunction v before after = some hit ↔
      ∃ word ∈ v.words, ∃ gap, Blank gap ∧ ∃ rest, after = word ++ (gap ++ '(' :: rest) ∧
        headIsWord before = false ∧
        hit = ⟨word ++ (gap ++ ['(']),
          (if inMemberPosition before then word else (v.target? word).getD word) ++
            (gap ++ ['('])⟩ := by
  constructor
  · intro h
    obtain ⟨word, hword, gap, hgap, rest, rfl, hleft, -, rfl⟩ := exists_of_globalFunction h
    rw [atBoundary_of_head ((hv word hword).headIsWord_append _)] at hleft
    exact ⟨word, hword, gap, hgap, rest, rfl, hleft, rfl⟩
  · rintro ⟨word, hword, gap, hgap, rest, rfl, hleft, rfl⟩
    have hstands : Stands before word (gap ++ '(' :: rest) :=
      ⟨hv word hword, hleft, headIsWord_gap hgap rest⟩
    rw [Keyword.globalFunction, if_pos hstands.atBoundary,
      firstWord?_of_mem hv hword hstands.right, if_pos hstands.endsAt, opening?_gap hgap]
    · rfl
    · intro w hw r hr
      rw [if_neg (not_endsAt (hv w hw) hr)]

theorem method_eq_some_iff :
    Call.method v before after = some hit ↔
      ∃ blanks, Blank blanks ∧ ∃ word ∈ v.words, ∃ gap, Blank gap ∧ ∃ rest,
        after = ':' :: (blanks ++ (word ++ (gap ++ '(' :: rest))) ∧
        hit.taken = ':' :: (blanks ++ (word ++ (gap ++ ['(']))) ∧
        hit.text = match v.target? word with
          | some target => ':' :: (target ++ ['('])
          | none => hit.taken := by
  constructor
  · intro h
    obtain ⟨blanks, hblanks, word, hword, gap, hgap, rest, htaken, rfl, htext⟩ := exists_of_method h
    exact ⟨blanks, hblanks, word, hword, gap, hgap, rest, by simp [htaken], by simp [htaken], htext⟩
  · rintro ⟨blanks, hblanks, word, hword, gap, hgap, rest, rfl, htaken, htext⟩
    have hrun := hv word hword
    have hdrop : (blanks ++ (word ++ (gap ++ '(' :: rest))).dropWhile isBlank =
        word ++ (gap ++ '(' :: rest) := by
      rw [List.dropWhile_append_of_pos hblanks, dropWhile_isBlank_wordRun hrun]
    rw [Call.method]
    dsimp only
    rw [hdrop, takeWhile_isBlank_wordRun hblanks hrun,
      firstWord?_of_mem hv hword (headIsWord_gap hgap rest), opening?_gap hgap]
    · rcases hit with ⟨taken, text⟩
      dsimp only at htaken htext
      subst htaken
      rw [htext]
      cases v.target? word <;> simp
    · intro w _ r hr
      rw [opening?_eq_none_of_word hr, Option.map_none]

theorem property_eq_some_iff :
    Member.property v before after = some hit ↔
      ∃ word ∈ v.words, ∃ rest, after = '.' :: (word ++ rest) ∧ headIsWord rest = false ∧
        hit = ⟨'.' :: word,
          '.' :: if before.head? = some '.' then word else (v.target? word).getD word⟩ := by
  constructor
  · intro h
    obtain ⟨rest, rfl⟩ := exists_of_property_head h
    rw [property_cons] at h
    obtain ⟨word, hword, rest, rfl, haccept⟩ := exists_of_firstWord? h
    split at haccept
    · rename_i hends
      rw [endsAt_of_wordRun (hv word hword)] at hends
      exact ⟨word, hword, rest, rfl, hends, (Option.some.inj haccept).symm⟩
    · simp at haccept
  · rintro ⟨word, hword, rest, rfl, hrest, rfl⟩
    rw [property_cons, firstWord?_of_mem hv hword hrest,
      if_pos ((endsAt_of_wordRun (hv word hword)).mpr hrest)]
    intro w hw r hr
    rw [if_neg (not_endsAt (hv w hw) hr)]

theorem mathFunction_eq_some_iff :
    Member.mathFunction v before after = some hit ↔
      ∃ word ∈ v.words, ∃ rest, after = Member.mathLibrary ++ (word ++ rest) ∧
        headIsWord before = false ∧ headIsWord rest = false ∧
        hit = ⟨Member.mathLibrary ++ word,
          Member.mathLibrary ++ (v.target? word).getD word⟩ := by
  have hlibrary : ∀ s, headIsWord (Member.mathLibrary ++ s) = true := by
    intro s
    rw [headIsWord_append (by decide)]
    decide
  constructor
  · intro h
    obtain ⟨word, hword, rest, rfl, hleft, hright, rfl⟩ := exists_of_mathFunction h
    rw [List.append_assoc, atBoundary_of_head (hlibrary _)] at hleft
    rw [endsAt_of_wordRun (hv word hword)] at hright
    exact ⟨word, hword, rest, by simp, hleft, hright, rfl⟩
  · rintro ⟨word, hword, rest, rfl, hleft, hright, rfl⟩
    rw [Member.mathFunction, if_pos ((atBoundary_of_head (hlibrary _)).mpr hleft),
      isPrefixOf?_eq_some_iff.mpr rfl, Option.bind_some, firstWord?_of_mem hv hword hright,
      if_pos ((endsAt_of_wordRun (hv word hword)).mpr hright)]
    intro w hw r hr
    rw [if_neg (not_endsAt (hv w hw) hr)]

theorem item_eq_some_iff {members : Vocabulary} :
    Enumeration.item v members before after = some hit ↔
      ∃ family ∈ v.words, ∃ member rest, after = family ++ '.' :: (member ++ rest) ∧
        Enumeration.itemName? (member ++ rest) = some member ∧ headIsWord before = false ∧
        hit = ⟨family ++ '.' :: member,
          match inMemberPosition before, v.target? family, members.target? (family ++ '.' :: member)
            with
          | false, some familyTarget, some memberTarget => familyTarget ++ '.' :: memberTarget
          | _, _, _ => family ++ '.' :: member⟩ := by
  constructor
  · intro h
    rw [Enumeration.item] at h
    split at h
    · rename_i hleft
      obtain ⟨family, hfamily, tail, rfl, haccept⟩ := exists_of_firstWord? h
      rw [atBoundary_of_head ((hv family hfamily).headIsWord_append _)] at hleft
      split at haccept
      · obtain ⟨member, hmember, rfl⟩ := Option.map_eq_some_iff.mp haccept
        obtain ⟨-, -, rest, rfl, -⟩ := exists_of_itemName? hmember
        exact ⟨family, hfamily, member, rest, rfl, hmember, hleft, rfl⟩
      · simp at haccept
    · simp at h
  · rintro ⟨family, hfamily, member, rest, rfl, hmember, hleft, rfl⟩
    have hdot : headIsWord ('.' :: (member ++ rest)) = false := by rfl
    rw [Enumeration.item,
      if_pos ((atBoundary_of_head ((hv family hfamily).headIsWord_append _)).mpr hleft),
      firstWord?_of_mem hv hfamily hdot]
    · change Option.map _ (Enumeration.itemName? (member ++ rest)) = _
      rw [hmember]
      rfl
    · intro w _ r hr
      split
      · exact absurd (show isWord '.' = true from hr) (by decide)
      · rfl

/-- A claim on an item that changes something: it is no member of anything, and both its names have
rules. -/
theorem item_changed_iff {members : Vocabulary} :
    Enumeration.item v members before after = some hit ∧ hit.text ≠ hit.taken ↔
      ∃ family ∈ v.words, ∃ member rest familyTarget memberTarget,
        after = family ++ '.' :: (member ++ rest) ∧
        Enumeration.itemName? (member ++ rest) = some member ∧ headIsWord before = false ∧
        inMemberPosition before = false ∧ v.target? family = some familyTarget ∧
        members.target? (family ++ '.' :: member) = some memberTarget ∧
        hit = ⟨family ++ '.' :: member, familyTarget ++ '.' :: memberTarget⟩ ∧
        hit.text ≠ hit.taken := by
  rw [item_eq_some_iff hv]
  constructor
  · rintro ⟨⟨family, hfamily, member, rest, rfl, hmember, hleft, rfl⟩, hchanged⟩
    cases hposition : inMemberPosition before with
    | true => simp [hposition] at hchanged
    | false =>
        cases hfamilyTarget : v.target? family with
        | none => simp [hposition, hfamilyTarget] at hchanged
        | some familyTarget =>
            cases hmemberTarget : members.target? (family ++ '.' :: member) with
            | none => simp [hposition, hfamilyTarget, hmemberTarget] at hchanged
            | some memberTarget =>
                simp only [hposition, hfamilyTarget, hmemberTarget] at hchanged
                exact ⟨family, hfamily, member, rest, familyTarget, memberTarget, rfl, hmember,
                  hleft, rfl, hfamilyTarget, hmemberTarget, rfl, hchanged⟩
  · rintro ⟨family, hfamily, member, rest, familyTarget, memberTarget, rfl, hmember, hleft,
      hposition, hfamilyTarget, hmemberTarget, rfl, hchanged⟩
    exact ⟨⟨family, hfamily, member, rest, rfl, hmember, hleft,
      by simp only [hposition, hfamilyTarget, hmemberTarget]⟩, hchanged⟩

end Vocabularies

end SpanishLua.Proofs.Places
