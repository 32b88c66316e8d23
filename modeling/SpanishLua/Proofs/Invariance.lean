import SpanishLua.Proofs.Documents
import SpanishLua.Proofs.Stages

namespace SpanishLua.Proofs.Invariance

open SpanishLua.Code
open SpanishLua.Text
open SpanishLua.Proofs.Characters
open SpanishLua.Proofs.Recognisers
open SpanishLua.Proofs.Seams
open SpanishLua.Proofs.Partition
open SpanishLua.Proofs.Tables
open SpanishLua.Proofs.Lines
open SpanishLua.Proofs.Documents
open SpanishLua.Proofs.Literals
open SpanishLua.Proofs.Stages

/-- All sources of the table are ASCII. -/
def AsciiSources (rules : RuleTable) : Prop :=
  ∀ r ∈ rules.entries, ∀ c ∈ r.source.toList, c.toNat < 128

/-- Whatever a translation with this table puts into a text has the property `P`. -/
structure Supplies (P : List Char → Prop) (rules : RuleTable) : Prop where
  wellFormed : WellFormed rules
  ascii : AsciiSources rules
  target : ∀ r ∈ rules.entries, P r.target.toList
  fixed : ∀ s ∈ fixedTexts, P s

theorem wordRun_of_isIdentifier {s : List Char} (h : isIdentifier s = true)
    (hascii : ∀ c ∈ s, c.toNat < 128) : WordRun s := by
  refine ⟨?_, fun c hc => ?_⟩
  · rintro rfl
    exact absurd h (by decide)
  · exact isWord_of_continuesIdentifier (hascii c hc) (continuesIdentifier_of_isIdentifier h c hc)

theorem isWord_of_isQuote {c : Char} (h : isQuote c = true) : isWord c = false := by
  simp only [isQuote, Bool.or_eq_true, beq_iff_eq] at h
  rcases h with rfl | rfl <;> decide

theorem WordLocal.join {P : List Char → Prop} (hP : WordLocal P) (hnil : P [])
    {segments : List Segment} (hdelimited : Delimited segments)
    (h : ∀ s ∈ segments, P s.text) : P (Segment.join segments) := by
  induction segments with
  | nil => exact hnil
  | cons s rest ih =>
      rw [join_cons]
      have htext := h s (by simp)
      have hrest : ∀ s ∈ rest, P s.text := fun s hs => h s (by simp [hs])
      -- wherever two segments meet, a quote stands on one side
      cases s with
      | literal text =>
          obtain ⟨⟨quote, body, hquote, rfl⟩, htail⟩ := hdelimited
          refine hP.append (.of_last ?_) htext (ih htail hrest)
          simpa [Segment.text, headIsWord] using isWord_of_isQuote hquote
      | code code =>
          obtain ⟨hnext, htail⟩ := hdelimited
          refine hP.append (.of_head ?_) htext (ih htail hrest)
          rcases rest with _ | ⟨code | text, rest⟩
          · rfl
          · exact absurd (hnext _ rfl) (by simp [Segment.isCode])
          · obtain ⟨⟨quote, body, hquote, rfl⟩, -⟩ := htail
            simpa [Segment.text, headIsWord] using isWord_of_isQuote hquote

theorem WordLocal.unlines {P : List Char → Prop} (hP : WordLocal P) (hnil : P []) (hfeed : P ['\n'])
    {ls : List (List Char)} (h : ∀ line ∈ ls, P line) : P (unlines ls) := by
  induction ls with
  | nil => exact hnil
  | cons line rest ih =>
      have hline := h line (by simp)
      have hrest := ih fun l hl => h l (by simp [hl])
      rcases rest with _ | ⟨next, rest⟩
      · simpa [Text.unlines] using hline
      · have hsplit : Text.unlines (line :: next :: rest) =
            line ++ (['\n'] ++ Text.unlines (next :: rest)) := by
          simp [Text.unlines, List.intercalate_cons_cons]
        rw [hsplit]
        refine hP.append (.of_head (by rfl)) hline ?_
        exact hP.append (.of_last (by decide)) hfeed hrest

section Table

variable {P : List Char → Prop} {rules : RuleTable}

theorem Supplies.target? (h : Supplies P rules) {category : Category} {token target : List Char}
    (htarget : (Vocabulary.ofTable rules category).target? token = some target) :
    P target ∧ target ≠ [] := by
  obtain ⟨r, hr, -, rfl⟩ := exists_rule_of_target? h.wellFormed htarget
  obtain ⟨hmem, -⟩ := mem_rules_iff.mp hr
  exact ⟨h.target r hmem, target_ne_nil h.wellFormed hmem⟩

theorem Supplies.proper (h : Supplies P rules) {category : Category}
    (hcategory : category ≠ .enumMember) : Proper P (.ofTable rules category) := by
  refine ⟨?_, fun htarget => (h.target? htarget).2, fun htarget => (h.target? htarget).1⟩
  intro word hword
  have hidentifier := isIdentifier_of_mem_words h.wellFormed hcategory hword
  obtain ⟨r, hr, rfl⟩ := mem_words_ofTable.mp hword
  exact wordRun_of_isIdentifier hidentifier (h.ascii r (mem_rules_iff.mp hr).1)

theorem Supplies.members (h : Supplies P rules) {token target : List Char}
    (htarget : (Vocabulary.ofTable rules .enumMember).target? token = some target) :
    P target ∧ target ≠ [] ∧ ∀ c ∈ token, c.toNat < 128 ∨ c.toNat = 0x212A := by
  obtain ⟨r, hr, hkey, -⟩ := exists_rule_of_target? h.wellFormed htarget
  obtain ⟨hP, hne⟩ := h.target? htarget
  exact ⟨hP, hne, ascii_or_kelvin_of_lowercase_eq hkey.symm (h.ascii r (mem_rules_iff.mp hr).1)⟩

theorem Supplies.keeps (h : Supplies P rules) (hP : WordLocal P) {find : Recogniser}
    (hfind : find ∈ early (.ofTable rules) ++ late (.ofTable rules)) : Keeps P find := by
  simp only [early, late, List.cons_append, List.nil_append, List.mem_cons, List.not_mem_nil,
    or_false, keyword_eq_constant] at hfind
  rcases hfind with rfl | rfl | rfl | rfl | rfl | rfl | rfl | rfl | rfl | rfl | rfl | rfl
  · exact lookup_keeps h.fixed
  · exact method_keeps hP h.fixed (h.proper (by decide))
  · exact constructor_keeps hP h.fixed (h.proper (by decide))
  · exact instanceFactory_keeps h.fixed
  · exact property_keeps hP h.fixed (h.proper (by decide))
  · exact mathFunction_keeps hP h.fixed (h.proper (by decide))
  · exact item_keeps hP h.fixed (h.proper (by decide)) h.members
  · exact constant_keeps (h.proper (by decide))
  · exact bright_keeps hP h.fixed
  · exact elseIf_keeps h.fixed
  · exact globalFunction_keeps hP (h.proper (by decide))
  · exact constant_keeps (h.proper (by decide))

theorem Supplies.replaceAll (h : Supplies P rules) (hP : WordLocal P) {find : Recogniser}
    (hfind : find ∈ early (.ofTable rules) ++ late (.ofTable rules)) {s : List Char} (hs : P s) :
    P (replaceAll find s) :=
  hP.replaceAll (sound_of_mem h.wellFormed hfind) (h.keeps hP hfind) hs

theorem Supplies.rewriteCode (h : Supplies P rules) (hP : WordLocal P) {code lua : List Char}
    (hrewrite : rewriteCode (.ofTable rules) code = .ok lua) (hcode : P code) : P lua :=
  rewriteCode_keeps (fun _ hfind _ hs => h.replaceAll hP hfind hs) hrewrite hcode

theorem Supplies.literalBecomes (h : Supplies P rules) (hP : WordLocal P)
    {previous next : Option Segment} {text text' : List Char}
    (hbecomes : LiteralBecomes rules previous next text text') (hquoted : Quoted text)
    (htext : P text) : Quoted text' ∧ P text' := by
  rcases hbecomes with ⟨quote, r, ⟨-, body, rfl, hr, -⟩, rfl⟩ | ⟨-, rfl⟩
  · have hquote : isQuote quote = true := by
      obtain ⟨quote', body', hquote, hsame⟩ := hquoted
      obtain ⟨rfl, -⟩ := quoted_inj hsame
      exact hquote
    have hword := isWord_of_isQuote hquote
    have hend : P [quote] := hP.of_infix ⟨quote :: body, [], by simp⟩ htext
    refine ⟨⟨quote, r.target.toList, hquote, rfl⟩, ?_⟩
    apply hP.append (.of_head (by simpa [headIsWord] using hword)) _ hend
    exact hP.append (s := [quote]) (.of_last (by simpa [headIsWord] using hword)) hend
      (h.target r (mem_rules_iff.mp hr).1)
  · exact ⟨hquoted, htext⟩

theorem Supplies.becomes (h : Supplies P rules) (hP : WordLocal P) {previous : Option Segment}
    {segments out : List Segment} (hbecomes : Becomes rules previous segments out)
    (hdelimited : Delimited segments) (hsegments : ∀ s ∈ segments, P s.text) :
    Delimited out ∧ ∀ s ∈ out, P s.text := by
  induction hbecomes with
  | nil => exact ⟨trivial, by simp⟩
  | @code previous code lua rest out hcode hrest ih =>
      obtain ⟨hnext, htail⟩ := hdelimited
      obtain ⟨hout, htexts⟩ := ih htail fun s hs => hsegments s (by simp [hs])
      refine ⟨⟨?_, hout⟩, ?_⟩
      · cases hrest with
        | nil => simp
        | code => exact absurd (hnext _ rfl) (by simp [Segment.isCode])
        | literal => simp [Segment.isCode]
      · intro s hs
        rcases List.mem_cons.mp hs with rfl | hs
        · exact h.rewriteCode hP hcode (hsegments (.code code) (by simp))
        · exact htexts s hs
  | @literal previous text text' rest out hliteral hrest ih =>
      obtain ⟨hquoted, htail⟩ := hdelimited
      obtain ⟨hout, htexts⟩ := ih htail fun s hs => hsegments s (by simp [hs])
      obtain ⟨hquoted', htext'⟩ :=
        h.literalBecomes hP hliteral hquoted (hsegments (.literal text) (by simp))
      refine ⟨⟨hquoted', hout⟩, ?_⟩
      intro s hs
      rcases List.mem_cons.mp hs with rfl | hs
      · exact htext'
      · exact htexts s hs

theorem Supplies.nil (h : Supplies P rules) (hP : WordLocal P) : P [] :=
  hP.of_infix List.nil_infix (h.fixed ".".toList (by simp [fixedTexts]))

theorem Supplies.translateLine (h : Supplies P rules) (hP : WordLocal P) {extra : List String}
    {t : Translator} (ht : Translator.ofTable rules extra = .ok t) {line lua : List Char}
    (hlua : t.translateLine line = .ok lua) (hline : P line) : P lua := by
  obtain ⟨out, rfl, hbecomes⟩ := becomes_of_translateLine ht hlua
  have hsegments : ∀ s ∈ partition line, P s.text :=
    fun s hs => hP.of_infix (infix_of_mem_partition hs) hline
  obtain ⟨hdelimited, hout⟩ := h.becomes hP hbecomes (delimited_partition line) hsegments
  exact WordLocal.join hP (h.nil hP) hdelimited hout

/-- A property of words that every line has before a translation, the whole text has after it. -/
theorem Supplies.translate (h : Supplies P rules) (hP : WordLocal P) (hfeed : P ['\n'])
    {extra : List String} {t : Translator} (ht : Translator.ofTable rules extra = .ok t)
    {document out : List Char} {label : String} (hout : t.translate document label = .ok out)
    (hdocument : ∀ line ∈ lines document, P line) : P out := by
  obtain ⟨-, luas, rfl, hluas⟩ := translate_eq_ok_iff.mp hout
  apply WordLocal.unlines hP (h.nil hP) hfeed
  intro lua hlua
  obtain ⟨line, hline, htranslated⟩ := exists_line_of_mem hluas hlua
  exact h.translateLine hP ht htranslated (hdocument line hline)

end Table

end SpanishLua.Proofs.Invariance
