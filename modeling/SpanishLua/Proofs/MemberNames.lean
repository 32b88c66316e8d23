import SpanishLua.Proofs.Evaluation
import SpanishLua.Proofs.Severing

namespace SpanishLua.Proofs.MemberNames

open SpanishLua.Code
open SpanishLua.Text
open SpanishLua.Proofs.Characters
open SpanishLua.Proofs.Scanning
open SpanishLua.Proofs.Recognisers
open SpanishLua.Proofs.Tables
open SpanishLua.Proofs.Defaults
open SpanishLua.Proofs.Places
open SpanishLua.Proofs.Invariance
open SpanishLua.Proofs.Words
open SpanishLua.Proofs.Evaluation
open SpanishLua.Proofs.Severing

/-- The text ends in a colon, or in a dot that is not the second of two, so that a word right after
it names a member. -/
def OpensMember (s : List Char) : Prop :=
  [':'] <:+ s ∨ ['.'] <:+ s ∧ ¬ ['.', '.'] <:+ s

instance : DecidablePred OpensMember := fun _ =>
  inferInstanceAs (Decidable (_ ∨ _))

/-- The word and the text after it start with the two words that continue a conditional, which
`rest` follows. -/
def ContinuesConditional (word after rest : List Char) : Prop :=
  word = "sino".toList ∧ ∃ gap, gap ≠ [] ∧ Blank gap ∧ after = gap ++ ("si".toList ++ rest) ∧
    headIsWord rest = false

theorem opensMember_iff {s : List Char} :
    OpensMember s ↔
      ∃ init c, s = init ++ [c] ∧ (c = ':' ∨ c = '.' ∧ init.getLast? ≠ some '.') := by
  have hdots : ∀ init : List Char, ['.', '.'] <:+ init ++ ['.'] ↔ init.getLast? = some '.' := by
    intro init
    rw [List.getLast?_eq_some_iff]
    constructor
    · rintro ⟨more, hmore⟩
      have hconcat : init ++ ['.'] = more ++ ['.'] ++ ['.'] := by simpa using hmore.symm
      exact ⟨more, List.append_cancel_right hconcat⟩
    · rintro ⟨more, rfl⟩
      exact ⟨more, by simp⟩
  constructor
  · rintro (⟨init, rfl⟩ | ⟨⟨init, rfl⟩, hdot⟩)
    · exact ⟨init, ':', rfl, .inl rfl⟩
    · rw [hdots] at hdot
      exact ⟨init, '.', rfl, .inr ⟨rfl, hdot⟩⟩
  · rintro ⟨init, c, rfl, rfl | ⟨rfl, hdot⟩⟩
    · exact .inl ⟨init, rfl⟩
    · rw [Ne, ← hdots] at hdot
      exact .inr ⟨⟨init, rfl⟩, hdot⟩

theorem OpensMember.inMemberPosition {s : List Char} (h : OpensMember s) :
    inMemberPosition s.reverse = true := by
  obtain ⟨init, c, rfl, hc⟩ := opensMember_iff.mp h
  rw [List.reverse_concat, inMemberPosition_cons, List.head?_reverse]
  exact hc

section Stages

variable {find : Recogniser} (h : WordWise find)
  (hsevers : ∀ c, c = ':' ∨ c = '.' → Severs c find) {p : List Char} (hp : OpensMember p)

include h hsevers hp

theorem replaceAll_append_member (s : List Char) :
    replaceAll find (p ++ s) = replaceAll find p ++ replaceFrom find p.reverse s := by
  obtain ⟨init, c, rfl, hc⟩ := opensMember_iff.mp hp
  have hcut := (hsevers c (hc.imp_right And.left)).replaceFrom_append h.sound [] init
  have hall : replaceAll find (init ++ [c]) = replaceAll find init ++ [c] := by
    have hlast := hcut []
    rw [replaceFrom_nil] at hlast
    exact hlast
  rw [hall, List.append_assoc, List.append_assoc]
  simpa [replaceAll] using hcut s

theorem OpensMember.scanned
    (hlast : ∀ before after hit, find before after = some hit →
      ∃ c, hit.text.getLast? = some c ∧ c ≠ '.') :
    OpensMember (replaceAll find p) := by
  obtain ⟨init, c, rfl, hc⟩ := opensMember_iff.mp hp
  have hcut := (hsevers c (hc.imp_right And.left)).replaceFrom_append h.sound [] init []
  rw [replaceFrom_nil] at hcut
  refine opensMember_iff.mpr ⟨replaceAll find init, c, hcut, ?_⟩
  rcases hc with hc | ⟨hc, hdot⟩
  · exact .inl hc
  · exact .inr ⟨hc, fun hresult => hdot (getLast?_replaceAll h.sound hlast hresult)⟩

/-- A stage that lets a word stand in the place of a member goes over what is left and right of it
as over two texts. -/
theorem replaceAll_member {w q : List Char} (hw : WordRun w) (hq : headIsWord q = false)
    (hstays : ∀ before hit, inMemberPosition before = true → find before (w ++ q) = some hit →
      PutsBack w hit) :
    replaceAll find (p ++ (w ++ q)) =
      replaceAll find p ++ (w ++ replaceAll find q) := by
  have hword : replaceFrom find p.reverse (w ++ q) =
      w ++ replaceFrom find (w.reverse ++ p.reverse) q :=
    h.replaceFrom_word hw fun hit => hstays p.reverse hit hp.inMemberPosition
  have hafter : headIsWord (w.reverse ++ p.reverse) = true := hw.reverse.headIsWord_append _
  rw [replaceAll_append_member h hsevers hp, hword, h.replaceFrom_after_word hafter hq]

end Stages

section Words

variable {v : Vocabulary} (hv : ∀ w ∈ v.words, WordRun w) {before w q : List Char} {hit : Hit}
  (hbefore : inMemberPosition before = true) (hw : WordRun w) (hq : headIsWord q = false)

include hv hbefore hw hq

theorem keyword_stays (h : Keyword.keyword v before (w ++ q) = some hit) :
    PutsBack w hit := by
  obtain ⟨word, -, rest, hsplit, hstands, rfl⟩ := (constant_eq_some_iff hv).mp h
  obtain ⟨rfl, -⟩ := word_append_inj hw hstands.wordRun hq hstands.right hsplit
  exact ⟨if_pos hbefore, [], by simp, by simp⟩

theorem globalFunction_stays (h : Keyword.globalFunction v before (w ++ q) = some hit) :
    PutsBack w hit := by
  obtain ⟨word, hword, gap, hgap, rest, hsplit, -, rfl⟩ := (globalFunction_eq_some_iff hv).mp h
  obtain ⟨rfl, -⟩ := word_append_inj hw (hv word hword) hq (headIsWord_gap hgap rest) hsplit
  exact ⟨by rw [if_pos hbefore], gap ++ ['('], rfl, isWord_of_opening hgap⟩

end Words

theorem later_member {keywords functions : Vocabulary} (hkeywords : ∀ w ∈ keywords.words, WordRun w)
    (hfunctions : ∀ w ∈ functions.words, WordRun w) {p w q : List Char} (hp : OpensMember p)
    (hw : WordRun w) (hq : headIsWord q = false) :
    replaceAll (Keyword.keyword keywords)
        (replaceAll (Keyword.globalFunction functions) (p ++ (w ++ q))) =
      replaceAll (Keyword.keyword keywords) (replaceAll (Keyword.globalFunction functions) p) ++
        (w ++ replaceAll (Keyword.keyword keywords)
          (replaceAll (Keyword.globalFunction functions) q)) := by
  have hfunction := globalFunction_wordWise hfunctions
  have hfunctionCut : ∀ c, c = ':' ∨ c = '.' → Severs c (Keyword.globalFunction functions) := by
    rintro c (rfl | rfl) <;>
      exact globalFunction_severs hfunctions (by decide) (by decide) (by decide)
  have hkeyword : WordWise (Keyword.keyword keywords) := constant_wordWise hkeywords
  have hkeywordCut : ∀ c, c = ':' ∨ c = '.' → Severs c (Keyword.keyword keywords) := by
    rintro c (rfl | rfl) <;> exact constant_severs hkeywords (by decide)
  have hp' := hp.scanned hfunction hfunctionCut fun before after hit h => by
    obtain ⟨word, -, gap, -, rest, -, -, rfl⟩ := (globalFunction_eq_some_iff hfunctions).mp h
    exact ⟨'(', by simp, by decide⟩
  rw [replaceAll_member hfunction hfunctionCut hp hw hq fun before hit hbefore h =>
      globalFunction_stays hfunctions hbefore hw hq h,
    replaceAll_member hkeyword hkeywordCut hp' hw (hfunction.headIsWord_replaceAll hq)
      fun before hit hbefore h => keyword_stays hkeywords hbefore hw
        (hfunction.headIsWord_replaceAll hq) h]

section Conditionals

variable {p w q rest : List Char}

theorem OpensMember.headIsWord (hp : OpensMember p) : headIsWord p.reverse = false := by
  obtain ⟨init, c, rfl, hc⟩ := opensMember_iff.mp hp
  rw [List.reverse_concat]
  rcases hc with rfl | ⟨rfl, -⟩ <;> rfl

theorem elseIf_severs_member (c : Char) (hc : c = ':' ∨ c = '.') : Severs c Keyword.elseIf := by
  rcases hc with rfl | rfl <;> exact elseIf_severs (by decide) (by decide)

theorem OpensMember.elseIf (hp : OpensMember p) : OpensMember (replaceAll Keyword.elseIf p) := by
  apply hp.scanned elseIf_wordWise elseIf_severs_member
  intro before after hit h
  obtain ⟨gap, -, -, rest, -, -, -, rfl⟩ := elseIf_eq_some_iff.mp h
  exact ⟨'f', rfl, by decide⟩

theorem elseIf_member (hp : OpensMember p) (hw : WordRun w) (hq : Text.headIsWord q = false)
    (h : ¬ ∃ rest, ContinuesConditional w q rest) :
    replaceAll Keyword.elseIf (p ++ (w ++ q)) =
      replaceAll Keyword.elseIf p ++ (w ++ replaceAll Keyword.elseIf q) := by
  apply replaceAll_member elseIf_wordWise elseIf_severs_member hp hw hq
  intro before hit _ hclaim
  obtain ⟨gap, hne, hgap, rest, hsplit, -, hright, -⟩ := elseIf_eq_some_iff.mp hclaim
  have hstop := hgap.headIsWord_append hne ("si".toList ++ rest)
  obtain ⟨rfl, rfl⟩ := word_append_inj hw (by decide) hq hstop hsplit
  exact absurd ⟨rest, rfl, gap, hne, hgap, rfl, hright⟩ h

theorem elseIf_conditional (hp : OpensMember p) (h : ContinuesConditional w q rest) :
    replaceAll Keyword.elseIf (p ++ (w ++ q)) =
      replaceAll Keyword.elseIf p ++ ("elseif".toList ++ replaceAll Keyword.elseIf rest) := by
  obtain ⟨rfl, gap, hne, hgap, rfl, hright⟩ := h
  let hit : Hit := ⟨"sino".toList ++ gap ++ "si".toList, "elseif".toList⟩
  have hsplit : "sino".toList ++ (gap ++ ("si".toList ++ rest)) = hit.taken ++ rest := by simp [hit]
  have hclaim : Keyword.elseIf p.reverse (hit.taken ++ rest) = some hit :=
    elseIf_eq_some_iff.mpr ⟨gap, hne, hgap, rest, hsplit.symm, hp.headIsWord, hright, rfl⟩
  have hafter : Text.headIsWord (hit.taken.reverse ++ p.reverse) = true := by
    rw [List.reverse_append, List.append_assoc]
    exact (show WordRun "si".toList.reverse by decide).headIsWord_append _
  rw [replaceAll_append_member elseIf_wordWise elseIf_severs_member hp, hsplit,
    replaceFrom_claimed elseIf_sound hclaim, elseIf_wordWise.replaceFrom_after_word hafter hright]

end Conditionals

/-- The pass over words keeps the name of a member and goes over what is left and right of it as
over two texts, unless the name and the next word continue a conditional: those two become one
word. -/
theorem rewriteWords_member_name {rules : RuleTable} (hrules : rules.validate = .ok ())
    (hascii : AsciiSources rules) {p w q : List Char} (hp : OpensMember p) (hw : WordRun w)
    (hq : headIsWord q = false) :
    (rewriteWords rules (p ++ (w ++ q)) = rewriteWords rules p ++ (w ++ rewriteWords rules q) ↔
        ¬ ∃ rest, ContinuesConditional w q rest) ∧
      ∀ rest, ContinuesConditional w q rest →
        rewriteWords rules (p ++ (w ++ q)) =
          rewriteWords rules p ++ ("elseif".toList ++ rewriteWords rules rest) := by
  have hwellFormed := validate_eq_ok_iff.mp hrules
  have hsupplies : Supplies (fun _ => True) rules :=
    ⟨hwellFormed, hascii, fun _ _ => trivial, fun _ _ => trivial⟩
  have hkeywords := (hsupplies.proper (by decide : Category.keyword ≠ .enumMember)).wordRun
  have hfunctions := (hsupplies.proper (by decide : Category.globalFunction ≠ .enumMember)).wordRun
  have hconditional : ∀ rest, ContinuesConditional w q rest →
      rewriteWords rules (p ++ (w ++ q)) =
        rewriteWords rules p ++ ("elseif".toList ++ rewriteWords rules rest) := by
    intro rest h
    have hrest : headIsWord (replaceAll Keyword.elseIf rest) = false := by
      obtain ⟨-, gap, -, -, -, hright⟩ := h
      exact elseIf_wordWise.headIsWord_replaceAll hright
    rw [rewriteWords, Keyword.apply, elseIf_conditional hp h,
      later_member hkeywords hfunctions hp.elseIf (by decide) hrest]
    rfl
  refine ⟨⟨?_, ?_⟩, hconditional⟩
  · rintro heq ⟨rest, h⟩
    rw [hconditional rest h, h.1] at heq
    -- one text goes on with `elseif` and the other with `sino`
    have hwords := List.append_cancel_left heq
    simp at hwords
  · intro h
    rw [rewriteWords, Keyword.apply, elseIf_member hp hw hq h,
      later_member hkeywords hfunctions hp.elseIf hw (elseIf_wordWise.headIsWord_replaceAll hq)]
    rfl

theorem rewriteWords_member_name_obj :
    let p := "obj.".toList
    let q := "() sino si x entonces".toList
    OpensMember p ∧ WordRun "fin".toList ∧ headIsWord q = false ∧
      rewriteWords RuleTable.default (p ++ ("fin".toList ++ q)) =
        rewriteWords RuleTable.default p ++ ("fin".toList ++ rewriteWords RuleTable.default q) := by
  have hp : OpensMember "obj.".toList := by decide
  have hw : WordRun "fin".toList := by decide
  refine ⟨hp, hw, rfl, ?_⟩
  apply (rewriteWords_member_name (validate_eq_ok_iff.mpr default_wellFormed) default_ascii
    hp hw rfl).1.mpr
  rintro ⟨rest, hword, -⟩
  exact absurd hword (by decide)

theorem rewriteWords_spelled (code : List Char) :
    Keyword.apply (spelled .keyword) (spelled .globalFunction) code =
      rewriteWords RuleTable.default code := by
  have hkeywords := wordRun_of_mem_vocabulary (by decide : Category.keyword ≠ .enumMember)
  have hfunctions := wordRun_of_mem_vocabulary (by decide : Category.globalFunction ≠ .enumMember)
  rw [rewriteWords, Keyword.apply, Keyword.apply, keyword_eq_constant,
    constant_congr hkeywords (sameWords_spelled _),
    globalFunction_congr hfunctions (sameWords_spelled _)]

/-- The name of a member is lost where it is the first of the two words of a conditional. -/
theorem rewriteWords_member_lost :
    OpensMember "obj.".toList ∧ WordRun "sino".toList ∧ headIsWord " si x".toList = false ∧
      rewriteWords RuleTable.default "obj.sino si x".toList = "obj.elseif x".toList ∧
      rewriteWords RuleTable.default "obj.".toList ++
        ("sino".toList ++ rewriteWords RuleTable.default " si x".toList) =
          "obj.sino if x".toList := by
  simp only [← rewriteWords_spelled]
  decide +kernel

end SpanishLua.Proofs.MemberNames
