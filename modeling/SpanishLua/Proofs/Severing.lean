import SpanishLua.Proofs.Edits

/-!
Scans that go by words. A character that no claim takes and that ends every word cuts a text in two
parts, each of which is scanned on its own, and what stands before a place matters only through its
last characters.
-/

namespace SpanishLua.Proofs.Severing

open SpanishLua.Code
open SpanishLua.Text
open SpanishLua.Proofs.Characters
open SpanishLua.Proofs.Scanning
open SpanishLua.Proofs.Recognisers
open SpanishLua.Proofs.Places
open SpanishLua.Proofs.Edits

/-- Two texts before a place, nearest character first, that end alike. -/
structure Alike (before before' : List Char) : Prop where
  word : headIsWord before = headIsWord before'
  dot : before.head? = some '.' ↔ before'.head? = some '.'
  member : inMemberPosition before = inMemberPosition before'

/-- The recogniser goes by words: it makes a claim only where a word starts, and of what stands
around the claim it sees only how the text ends before it and whether a word runs on behind it. -/
structure WordWise (find : Recogniser) : Prop where
  sound : Sound find
  starts : ∀ before after hit, find before after = some hit →
    headIsWord before = false ∧ headIsWord after = true
  behind : ∀ before before' after, Alike before before' → find before after = find before' after
  ahead : ∀ before hit rest rest', headIsWord rest = headIsWord rest' →
    find before (hit.taken ++ rest) = some hit → find before (hit.taken ++ rest') = some hit

/-- A recogniser sees nothing of `c` and what follows it. -/
def Severs (c : Char) (find : Recogniser) : Prop :=
  ∀ before after rest, find before (after ++ c :: rest) = find before after

/-- The claim puts back what it takes, and that is the word and maybe characters behind it that are
part of no word. -/
def PutsBack (word : List Char) (hit : Hit) : Prop :=
  hit.text = hit.taken ∧ ∃ gap, hit.taken = word ++ gap ∧ ∀ c ∈ gap, isWord c = false

theorem word_append_inj {word word' rest rest' : List Char} (hword : WordRun word)
    (hword' : WordRun word') (hrest : headIsWord rest = false) (hrest' : headIsWord rest' = false)
    (h : word ++ rest = word' ++ rest') : word = word' ∧ rest = rest' := by
  have htake := congrArg (List.takeWhile isWord) h
  rw [hword.takeWhile_append hrest, hword'.takeWhile_append hrest'] at htake
  subst htake
  exact ⟨rfl, List.append_cancel_left h⟩

theorem Alike.cons {before before' : List Char} (h : Alike before before') (c : Char) :
    Alike (c :: before) (c :: before') := by
  refine ⟨rfl, Iff.rfl, ?_⟩
  rw [Bool.eq_iff_iff, inMemberPosition_cons, inMemberPosition_cons, Ne, h.dot]

theorem Alike.append {before before' : List Char} (h : Alike before before') (s : List Char) :
    Alike (s ++ before) (s ++ before') := by
  induction s with
  | nil => exact h
  | cons c s ih => exact ih.cons c

theorem alike_nil {c : Char} (hword : isWord c = false) (hdot : c ≠ '.') (hcolon : c ≠ ':')
    (before : List Char) : Alike (c :: before) [] := by
  refine ⟨hword, by simp [hdot], ?_⟩
  rw [Bool.eq_iff_iff, inMemberPosition_cons]
  simp [hdot, hcolon, inMemberPosition]

theorem alike_cons_of_word {before : List Char} (h : headIsWord before = true) (c : Char) :
    Alike (c :: before) [c] := by
  have hdot : before.head? ≠ some '.' := by
    intro hhead
    obtain ⟨tail, rfl⟩ := List.head?_eq_some_iff.mp hhead
    exact absurd (show isWord '.' = true from h) (by decide)
  refine ⟨rfl, Iff.rfl, ?_⟩
  rw [Bool.eq_iff_iff, inMemberPosition_cons, inMemberPosition_cons]
  simp [hdot]

theorem Severs.eq_none {c : Char} {find : Recogniser} (h : Severs c find) (hsound : Sound find)
    (before rest : List Char) : find before (c :: rest) = none := by
  have hnil : find before (c :: rest) = find before [] := h before [] rest
  cases hfind : find before [] with
  | none => rw [hnil, hfind]
  | some hit =>
      obtain ⟨hne, hprefix⟩ := hsound before [] hit hfind
      exact absurd (List.prefix_nil.mp hprefix) hne

/-- The two sides of a character that severs a text are scanned on their own. -/
theorem Severs.replaceFrom_append {c : Char} {find : Recogniser} (h : Severs c find)
    (hsound : Sound find) (before s rest : List Char) :
    replaceFrom find before (s ++ c :: rest) =
      replaceFrom find before s ++ c :: replaceFrom find (c :: (s.reverse ++ before)) rest := by
  induction before, s using scan_induction hsound with
  | nil before =>
      rw [List.nil_append, replaceFrom_kept (h.eq_none hsound before rest), replaceFrom_nil]
      rfl
  | kept before d s hfind ih =>
      have hkept : find before (d :: (s ++ c :: rest)) = none :=
        (h before (d :: s) rest).trans hfind
      rw [List.cons_append, replaceFrom_kept hkept, replaceFrom_kept hfind, ih]
      simp
  | claimed before hit s hfind ih =>
      have hclaimed : find before (hit.taken ++ (s ++ c :: rest)) = some hit := by
        rw [← List.append_assoc, h]
        exact hfind
      rw [List.append_assoc, replaceFrom_claimed hsound hclaimed, replaceFrom_claimed hsound hfind,
        ih]
      simp

section WordWise

variable {find : Recogniser} (h : WordWise find)

include h

theorem WordWise.severs {c : Char} (hc : isWord c = false)
    (htaken : ∀ before after hit, find before after = some hit → c ∉ hit.taken) :
    Severs c find := by
  have hhead : ∀ s rest : List Char, headIsWord (s ++ c :: rest) = headIsWord s := by
    intro s rest
    cases s with
    | nil => exact hc
    | cons d s => rfl
  intro before after rest
  ext hit
  constructor
  · intro hfind
    obtain ⟨-, tail, htail⟩ := h.sound before _ hit hfind
    rcases List.append_eq_append_iff.mp htail with ⟨more, rfl, rfl⟩ | ⟨more, hsplit, hrest⟩
    · rw [List.append_assoc] at hfind
      exact h.ahead before hit _ more (hhead more rest) hfind
    · rcases more with _ | ⟨d, more⟩
      · obtain rfl : after = hit.taken := by simpa using hsplit.symm
        simpa using h.ahead before hit (c :: rest) [] hc hfind
      · -- the claim would go on over `c`
        obtain ⟨rfl, -⟩ := List.cons.inj hrest
        exact absurd (by simp [hsplit]) (htaken before _ hit hfind)
  · intro hfind
    obtain ⟨-, tail, rfl⟩ := h.sound before _ hit hfind
    rw [List.append_assoc]
    exact h.ahead before hit tail _ (hhead tail rest).symm hfind

theorem WordWise.replaceFrom_alike {before before' : List Char} (halike : Alike before before')
    (s : List Char) : replaceFrom find before s = replaceFrom find before' s := by
  induction before, s using scan_induction h.sound generalizing before' with
  | nil before => rw [replaceFrom_nil, replaceFrom_nil]
  | kept before c s hfind ih =>
      have hfind' := (h.behind _ _ _ halike).symm.trans hfind
      rw [replaceFrom_kept hfind, replaceFrom_kept hfind', ih (halike.cons c)]
  | claimed before hit s hfind ih =>
      -- both texts go on with what is taken, so they still end alike
      have hfind' := (h.behind _ _ _ halike).symm.trans hfind
      rw [replaceFrom_claimed h.sound hfind, replaceFrom_claimed h.sound hfind',
        ih (halike.append hit.taken.reverse)]

theorem WordWise.eq_none_of_head {before after : List Char} (hafter : headIsWord after = false) :
    find before after = none := by
  cases hfind : find before after with
  | none => rfl
  | some hit =>
      have hhead := (h.starts before after hit hfind).2
      rw [hafter] at hhead
      exact absurd hhead (by decide)

theorem WordWise.eq_none_of_before {before after : List Char} (hbefore : headIsWord before = true) :
    find before after = none := by
  cases hfind : find before after with
  | none => rfl
  | some hit =>
      have hhead := (h.starts before after hit hfind).1
      rw [hbefore] at hhead
      exact absurd hhead (by decide)

theorem WordWise.replaceFrom_gap {gap : List Char} (hgap : ∀ c ∈ gap, isWord c = false)
    (before rest : List Char) :
    replaceFrom find before (gap ++ rest) =
      gap ++ replaceFrom find (gap.reverse ++ before) rest := by
  induction gap generalizing before with
  | nil => rfl
  | cons c gap ih =>
      obtain ⟨hc, hgap⟩ := List.forall_mem_cons.mp hgap
      have hnone : find before (c :: (gap ++ rest)) = none := h.eq_none_of_head hc
      rw [List.cons_append, replaceFrom_kept hnone, ih hgap]
      simp

theorem WordWise.replaceFrom_inside {word : List Char} (hword : ∀ c ∈ word, isWord c = true)
    {before : List Char} (hbefore : headIsWord before = true) (rest : List Char) :
    replaceFrom find before (word ++ rest) =
      word ++ replaceFrom find (word.reverse ++ before) rest := by
  induction word generalizing before with
  | nil => rfl
  | cons c word ih =>
      obtain ⟨hc, hword⟩ := List.forall_mem_cons.mp hword
      have hnext : headIsWord (c :: before) = true := hc
      rw [List.cons_append, replaceFrom_kept (h.eq_none_of_before hbefore), ih hword hnext]
      simp

theorem WordWise.replaceFrom_word {before word rest : List Char} (hword : WordRun word)
    (hstays : ∀ hit, find before (word ++ rest) = some hit → PutsBack word hit) :
    replaceFrom find before (word ++ rest) =
      word ++ replaceFrom find (word.reverse ++ before) rest := by
  cases hfind : find before (word ++ rest) with
  | none =>
      obtain ⟨c, word, rfl⟩ := List.exists_cons_of_ne_nil hword.1
      obtain ⟨hc, hinside⟩ := List.forall_mem_cons.mp hword.2
      have hnext : headIsWord (c :: before) = true := hc
      rw [List.cons_append] at hfind ⊢
      rw [replaceFrom_kept hfind, h.replaceFrom_inside hinside hnext]
      simp
  | some hit =>
      obtain ⟨htext, gap, htaken, hgap⟩ := hstays hit hfind
      obtain ⟨-, tail, htail⟩ := h.sound before _ hit hfind
      have hrest : rest = gap ++ tail := by
        rw [htaken, List.append_assoc] at htail
        exact (List.append_cancel_left htail).symm
      rw [← htail] at hfind ⊢
      rw [replaceFrom_claimed h.sound hfind, htext, htaken, hrest, h.replaceFrom_gap hgap]
      simp

/-- Behind a word a scan goes on as if the text started there. -/
theorem WordWise.replaceFrom_after_word {before rest : List Char}
    (hbefore : headIsWord before = true) (hrest : headIsWord rest = false) :
    replaceFrom find before rest = replaceAll find rest := by
  rw [replaceAll]
  cases rest with
  | nil => rw [replaceFrom_nil, replaceFrom_nil]
  | cons c rest =>
      rw [replaceFrom_kept (h.eq_none_of_head hrest), replaceFrom_kept (h.eq_none_of_head hrest),
        h.replaceFrom_alike (alike_cons_of_word hbefore c)]

theorem WordWise.headIsWord_replaceFrom {s : List Char} (hs : headIsWord s = false)
    (before : List Char) : headIsWord (replaceFrom find before s) = false := by
  cases s with
  | nil => rw [replaceFrom_nil, headIsWord]
  | cons c s =>
      rw [replaceFrom_kept (h.eq_none_of_head hs)]
      exact hs

theorem WordWise.headIsWord_replaceAll {s : List Char} (hs : headIsWord s = false) :
    headIsWord (replaceAll find s) = false :=
  h.headIsWord_replaceFrom hs []

end WordWise

theorem replaceFrom_whole {find : Recogniser} (hsound : Sound find) {before : List Char} {hit : Hit}
    (h : find before hit.taken = some hit) : replaceFrom find before hit.taken = hit.text := by
  have hclaim : find before (hit.taken ++ []) = some hit := by rwa [List.append_nil]
  have hstep := replaceFrom_claimed hsound hclaim
  rwa [replaceFrom_nil, List.append_nil, List.append_nil] at hstep

theorem getLast?_replaceAll {find : Recogniser} (hsound : Sound find)
    (hlast : ∀ before after hit, find before after = some hit →
      ∃ c, hit.text.getLast? = some c ∧ c ≠ '.')
    {s : List Char} (h : (replaceAll find s).getLast? = some '.') : s.getLast? = some '.' := by
  obtain ⟨es, rfl, hresult, hscript⟩ := exists_script hsound [] s
  rw [replaceAll, ← hresult] at h
  rcases es.eq_nil_or_concat' with rfl | ⟨init, e, rfl⟩
  · exact h
  · cases e with
    | keep c => simpa using h
    | put hit =>
        obtain ⟨c, hc, hne⟩ := hlast _ _ hit (hscript.put init hit [] rfl).1
        simp [hc, hne] at h

section Instances

variable {v : Vocabulary} (hv : ∀ w ∈ v.words, WordRun w)

include hv

theorem constant_wordWise : WordWise (Enumeration.constant v) where
  sound := constant_sound fun w hw => (hv w hw).1
  starts := by
    intro before after hit h
    obtain ⟨word, -, rest, rfl, hstands, -⟩ := (constant_eq_some_iff hv).mp h
    exact ⟨hstands.left, hstands.wordRun.headIsWord_append rest⟩
  behind := by
    intro before before' after halike
    have hstands : ∀ word rest, Stands before word rest ↔ Stands before' word rest := by
      intro word rest
      exact ⟨fun h => ⟨h.wordRun, halike.word ▸ h.left, h.right⟩,
        fun h => ⟨h.wordRun, halike.word ▸ h.left, h.right⟩⟩
    ext hit
    simp only [constant_eq_some_iff hv, hstands, halike.member]
  ahead := by
    intro before hit rest rest' hrest h
    obtain ⟨word, hword, tail, htail, hstands, rfl⟩ := (constant_eq_some_iff hv).mp h
    obtain rfl := List.append_cancel_left htail
    exact (constant_eq_some_iff hv).mpr ⟨word, hword, rest', rfl,
      ⟨hstands.wordRun, hstands.left, hrest ▸ hstands.right⟩, rfl⟩

theorem globalFunction_wordWise : WordWise (Keyword.globalFunction v) where
  sound := globalFunction_sound v
  starts := by
    intro before after hit h
    obtain ⟨word, hword, gap, -, rest, rfl, hleft, -⟩ := (globalFunction_eq_some_iff hv).mp h
    exact ⟨hleft, (hv word hword).headIsWord_append _⟩
  behind := by
    intro before before' after halike
    ext hit
    simp only [globalFunction_eq_some_iff hv, halike.word, halike.member]
  ahead := by
    intro before hit rest rest' _ h
    obtain ⟨word, hword, gap, hgap, tail, -, hleft, rfl⟩ := (globalFunction_eq_some_iff hv).mp h
    exact (globalFunction_eq_some_iff hv).mpr
      ⟨word, hword, gap, hgap, rest', by simp, hleft, rfl⟩

end Instances

theorem elseIf_wordWise : WordWise Keyword.elseIf where
  sound := elseIf_sound
  starts := by
    intro before after hit h
    obtain ⟨gap, -, -, rest, rfl, hleft, -⟩ := elseIf_eq_some_iff.mp h
    exact ⟨hleft, (show WordRun "sino".toList by decide).headIsWord_append _⟩
  behind := by
    intro before before' after halike
    ext hit
    simp only [elseIf_eq_some_iff, halike.word]
  ahead := by
    intro before hit rest rest' hrest h
    obtain ⟨gap, hne, hgap, tail, htail, hleft, hright, rfl⟩ := elseIf_eq_some_iff.mp h
    obtain rfl : rest = tail := by simpa using htail
    exact elseIf_eq_some_iff.mpr ⟨gap, hne, hgap, rest', by simp, hleft, hrest ▸ hright, rfl⟩

theorem constant_severs {v : Vocabulary} (hv : ∀ w ∈ v.words, WordRun w) {c : Char}
    (hc : isWord c = false) : Severs c (Enumeration.constant v) := by
  apply (constant_wordWise hv).severs hc
  intro before after hit h hmem
  obtain ⟨word, -, rest, -, hstands, rfl⟩ := (constant_eq_some_iff hv).mp h
  rw [hstands.wordRun.2 c hmem] at hc
  exact absurd hc (by decide)

theorem replaceAll_constant_of_mem {v : Vocabulary} (hv : ∀ w ∈ v.words, WordRun w)
    {word : List Char} (hword : word ∈ v.words) :
    replaceAll (Enumeration.constant v) word = (v.target? word).getD word := by
  let hit : Hit := ⟨word, (v.target? word).getD word⟩
  have hclaim : Enumeration.constant v [] hit.taken = some hit :=
    (constant_eq_some_iff hv).mpr
      ⟨word, hword, [], by simp [hit], ⟨hv word hword, rfl, rfl⟩, rfl⟩
  exact replaceFrom_whole (constant_wordWise hv).sound hclaim

theorem replaceAll_constant_of_notMem {v : Vocabulary} (hv : ∀ w ∈ v.words, WordRun w)
    {word : List Char} (hrun : WordRun word) (hword : word ∉ v.words) :
    replaceAll (Enumeration.constant v) word = word := by
  apply Quiet.replaceAll_eq _ (constant_wordWise hv).sound
  rintro before after hit rfl h
  obtain ⟨found, hfound, rest, rfl, hstands, -⟩ := (constant_eq_some_iff hv).mp h
  have hsame := (hasRun_wordRun hrun).mp ⟨before, rest, rfl, hstands⟩
  exact absurd (hsame ▸ hfound) hword

theorem globalFunction_severs {v : Vocabulary} (hv : ∀ w ∈ v.words, WordRun w) {c : Char}
    (hc : isWord c = false) (hblank : isBlank c = false) (hparen : c ≠ '(') :
    Severs c (Keyword.globalFunction v) := by
  apply (globalFunction_wordWise hv).severs hc
  intro before after hit h hmem
  obtain ⟨word, hword, gap, hgap, rest, -, -, rfl⟩ := (globalFunction_eq_some_iff hv).mp h
  rcases List.mem_append.mp hmem with hmem | hmem
  · rw [(hv word hword).2 c hmem] at hc
    exact absurd hc (by decide)
  · rcases List.mem_append.mp hmem with hmem | hmem
    · rw [hgap c hmem] at hblank
      exact absurd hblank (by decide)
    · exact hparen (List.mem_singleton.mp hmem)

theorem elseIf_severs {c : Char} (hc : isWord c = false) (hblank : isBlank c = false) :
    Severs c Keyword.elseIf := by
  apply elseIf_wordWise.severs hc
  intro before after hit h hmem
  obtain ⟨gap, -, hgap, rest, -, -, -, rfl⟩ := elseIf_eq_some_iff.mp h
  have hsino : WordRun "sino".toList := by decide
  have hsi : WordRun "si".toList := by decide
  simp only [List.mem_append] at hmem
  rcases hmem with (hmem | hmem) | hmem
  · rw [hsino.2 c hmem] at hc
    exact absurd hc (by decide)
  · rw [hgap c hmem] at hblank
    exact absurd hblank (by decide)
  · rw [hsi.2 c hmem] at hc
    exact absurd hc (by decide)

theorem elseIf_quiet_of_no_blank {s : List Char} (h : ∀ c ∈ s, isBlank c = false) :
    Quiet Keyword.elseIf s := by
  rintro before after hit rfl hfind
  obtain ⟨gap, hne, hgap, rest, rfl, -⟩ := elseIf_eq_some_iff.mp hfind
  obtain ⟨c, gap, rfl⟩ := List.exists_cons_of_ne_nil hne
  have hblank := h c (by simp)
  rw [hgap c (by simp)] at hblank
  exact absurd hblank (by decide)

theorem isBlank_of_isWord {c : Char} (h : isWord c = true) : isBlank c = false := by
  by_contra hblank
  rw [isWord_of_isBlank (by simpa using hblank)] at h
  exact absurd h (by decide)

/-- What the pass over words makes of a code text, given a table of rules. -/
abbrev rewriteWords (rules : RuleTable) (code : List Char) : List Char :=
  Keyword.apply (.ofTable rules .keyword) (.ofTable rules .globalFunction) code

end SpanishLua.Proofs.Severing
