import SpanishLua.Proofs.Defaults
import SpanishLua.Proofs.Quoting
import SpanishLua.Proofs.Stages

namespace SpanishLua.Proofs.Reparsing

open SpanishLua.Code
open SpanishLua.Text
open SpanishLua.Proofs.Scanning
open SpanishLua.Proofs.Recognisers
open SpanishLua.Proofs.Seams
open SpanishLua.Proofs.Partition
open SpanishLua.Proofs.Tables
open SpanishLua.Proofs.Defaults
open SpanishLua.Proofs.Lines
open SpanishLua.Proofs.Literals
open SpanishLua.Proofs.Grammar
open SpanishLua.Proofs.Invariance
open SpanishLua.Proofs.Alphabet
open SpanishLua.Proofs.Stages
open SpanishLua.Proofs.Edits
open SpanishLua.Proofs.Quoting

/-- The ending of bright shades does not stand in the text. -/
def Dull (s : List Char) : Prop :=
  ¬ Enumeration.brightEnding <:+: s

instance (s : List Char) : Decidable (Dull s) :=
  inferInstanceAs (Decidable (¬ Enumeration.brightEnding <:+: s))

/-- The sources of the table are ASCII, and its targets have nothing to do with literals and do not
spell the ending of bright shades. -/
structure Unquoted (rules : RuleTable) : Prop where
  ascii : AsciiSources rules
  plain : ∀ r ∈ rules.entries, Within IsPlain r.target.toList
  dull : ∀ r ∈ rules.entries, Dull r.target.toList

/-- The quote that opens a literal which nothing closes. -/
def openQuote? (segments : List Segment) : Option Char :=
  match segments.getLast? with
  | some (.code code) => code.find? isQuote
  | _ => none

section Texts

theorem wordLocal_dull : WordLocal Dull where
  of_infix := fun hst ht hs => ht (hs.trans hst)
  append := fun hseam hs ht h => (hseam.infix_or wordRun_brightEnding h).elim hs ht

theorem fixedTexts_dull : ∀ s ∈ fixedTexts, Dull s := by
  decide +kernel

theorem supplies_dull {rules : RuleTable} (hrules : WellFormed rules) (h : Unquoted rules) :
    Supplies Dull rules :=
  ⟨hrules, h.ascii, h.dull, fixedTexts_dull⟩

end Texts

section Claims

/-- What the recogniser takes has nothing to do with literals. -/
def TakesPlain (find : Recogniser) : Prop :=
  ∀ before hit rest, find before (hit.taken ++ rest) = some hit → Within IsPlain hit.taken

theorem plain_opening {gap : List Char} (h : ∀ c ∈ gap, isBlank c = true) :
    Within IsPlain (gap ++ ['(']) :=
  within_append.mpr ⟨plain_of_blank h, by decide⟩

theorem lookup_takes : TakesPlain Service.lookup := by
  intro before hit rest h
  obtain ⟨rest', -, -, -, rfl⟩ := exists_of_lookup h
  exact plain_of_wordRun wordRun_accessor

theorem constructor_takes (types : Vocabulary) : TakesPlain (Call.constructor types) := by
  intro before hit rest h
  obtain ⟨-, name, hname, gap, hgap, rest', -, rfl⟩ := constructor_eq_some_iff.mp h
  refine within_append.mpr ⟨within_append.mpr ⟨plain_of_wordRun hname, ?_⟩, plain_opening hgap⟩
  exact plain_of_wordRun wordRun_constructorEnding

theorem instanceFactory_takes : TakesPlain Call.instanceFactory := by
  intro before hit rest h
  obtain ⟨-, gap, hgap, rest', -, rfl⟩ := exists_of_instanceFactory h
  exact within_append.mpr ⟨plain_of_wordRun wordRun_instanceFactory, plain_opening hgap⟩

theorem elseIf_takes : TakesPlain Keyword.elseIf := by
  intro before hit rest h
  obtain ⟨-, gap, -, hgap, rest', -, -, rfl⟩ := exists_of_elseIf h
  have hsino : WordRun "sino".toList := by decide
  have hsi : WordRun "si".toList := by decide
  exact within_append.mpr ⟨within_append.mpr ⟨plain_of_wordRun hsino, plain_of_blank hgap⟩,
    plain_of_wordRun hsi⟩

variable {v : Vocabulary} (hv : ∀ word ∈ v.words, WordRun word)
include hv

theorem method_takes : TakesPlain (Call.method v) := by
  intro before hit rest h
  obtain ⟨blanks, hblanks, word, hword, gap, hgap, rest', htaken, -⟩ := exists_of_method h
  rw [htaken]
  have hcolon : Within IsPlain (':' :: blanks) :=
    within_cons.mpr ⟨by decide, plain_of_blank hblanks⟩
  exact within_append.mpr ⟨within_append.mpr ⟨hcolon, plain_of_wordRun (hv word hword)⟩,
    plain_opening hgap⟩

theorem property_takes : TakesPlain (Member.property v) := by
  intro before hit rest h
  obtain ⟨word, hword, rest', -, -, htaken, -⟩ := exists_of_property h
  rw [htaken]
  exact within_cons.mpr ⟨by decide, plain_of_wordRun (hv word hword)⟩

theorem constant_takes : TakesPlain (Enumeration.constant v) := by
  intro before hit rest h
  obtain ⟨word, hword, rest', -, -, -, rfl⟩ := exists_of_constant h
  exact plain_of_wordRun (hv word hword)

theorem mathFunction_takes : TakesPlain (Member.mathFunction v) := by
  intro before hit rest h
  obtain ⟨word, hword, rest', -, -, -, rfl⟩ := exists_of_mathFunction h
  exact within_append.mpr ⟨by decide, plain_of_wordRun (hv word hword)⟩

theorem globalFunction_takes : TakesPlain (Keyword.globalFunction v) := by
  intro before hit rest h
  obtain ⟨word, hword, gap, hgap, rest', -, -, -, rfl⟩ := exists_of_globalFunction h
  exact within_append.mpr ⟨plain_of_wordRun (hv word hword), plain_opening hgap⟩

theorem item_takes (members : Vocabulary) : TakesPlain (Enumeration.item v members) := by
  intro before hit rest h
  obtain ⟨family, hfamily, member, rest', -, hname, -, htaken, -⟩ := exists_of_item h
  obtain ⟨-, hchars, -⟩ := exists_of_itemName? hname
  rw [htaken]
  refine within_append.mpr ⟨plain_of_wordRun (hv family hfamily), within_cons.mpr ⟨by decide, ?_⟩⟩
  exact fun c hc => isPlain_of (by decide) (hchars c hc)

end Claims

/-- In texts with the property `P` a recogniser has nothing to do with literals, and it keeps the
property. -/
structure Discreet (P : List Char → Prop) (find : Recogniser) : Prop where
  sound : Sound find
  keeps : Keeps P find
  plain : ∀ before hit rest, P (hit.taken ++ rest) → find before (hit.taken ++ rest) = some hit →
    Within IsPlain hit.taken ∧ Within IsPlain hit.text

section Recognisers

variable {P : List Char → Prop} {find : Recogniser} {rules : RuleTable} {s : List Char}

theorem discreet_of_takes (hsound : Sound find) (hkeeps : Keeps P find) (htakes : TakesPlain find)
    (hstays : StaysWithin IsPlain find) : Discreet P find where
  sound := hsound
  keeps := hkeeps
  plain := fun before hit rest _ hfind =>
    ⟨htakes before hit rest hfind, hstays before hit rest hfind (htakes before hit rest hfind)⟩

theorem bright_discreet : Discreet Dull Enumeration.bright where
  sound := bright_sound
  keeps := bright_keeps wordLocal_dull fixedTexts_dull
  plain := by
    intro before hit rest hdull hfind
    obtain ⟨-, colour, -, rest', hafter, -⟩ := exists_of_bright hfind
    rw [hafter] at hdull
    exact absurd ⟨colour, rest', rfl⟩ hdull

theorem discreet_of_mem (hrules : WellFormed rules) (h : Unquoted rules)
    (hfind : find ∈ early (.ofTable rules) ++ late (.ofTable rules)) : Discreet Dull find := by
  have hdull := supplies_dull hrules h
  have hsound := sound_of_mem hrules hfind
  have hkeeps := hdull.keeps wordLocal_dull hfind
  have hplain : ∀ s ∈ plainTexts, Within IsPlain s := by decide
  have htarget (category : Category) {token target : List Char}
      (htarget : (Vocabulary.ofTable rules category).target? token = some target) :
      Within IsPlain target := by
    obtain ⟨r, hr, -, rfl⟩ := exists_rule_of_target? hrules htarget
    exact h.plain r (mem_rules_iff.mp hr).1
  have hruns (category : Category) (hcategory : category ≠ .enumMember) :
      ∀ word ∈ (Vocabulary.ofTable rules category).words, WordRun word :=
    (hdull.proper hcategory).wordRun
  simp only [early, late, List.cons_append, List.nil_append, List.mem_cons, List.not_mem_nil,
    or_false, keyword_eq_constant] at hfind
  rcases hfind with rfl | rfl | rfl | rfl | rfl | rfl | rfl | rfl | rfl | rfl | rfl | rfl
  · exact discreet_of_takes hsound hkeeps lookup_takes (lookup_staysWithin hplain)
  · exact discreet_of_takes hsound hkeeps (method_takes (hruns .methodName (by decide)))
      (method_staysWithin (htarget _) hplain)
  · exact discreet_of_takes hsound hkeeps (constructor_takes _)
      (constructor_staysWithin (htarget _) hplain)
  · exact discreet_of_takes hsound hkeeps instanceFactory_takes
      (instanceFactory_staysWithin hplain)
  · exact discreet_of_takes hsound hkeeps (property_takes (hruns .propertyName (by decide)))
      (property_staysWithin (htarget _) hplain)
  · exact discreet_of_takes hsound hkeeps (mathFunction_takes (hruns .mathFunction (by decide)))
      (mathFunction_staysWithin (htarget _))
  · exact discreet_of_takes hsound hkeeps (item_takes (hruns .enumFamily (by decide)) _)
      (item_staysWithin (htarget _) hplain (htarget _))
  · exact discreet_of_takes hsound hkeeps (constant_takes (hruns .enumConstant (by decide)))
      (constant_staysWithin (htarget _))
  · exact bright_discreet
  · exact discreet_of_takes hsound hkeeps elseIf_takes (elseIf_staysWithin hplain)
  · exact discreet_of_takes hsound hkeeps (globalFunction_takes (hruns .globalFunction (by decide)))
      (globalFunction_staysWithin (htarget _))
  · exact discreet_of_takes hsound hkeeps (constant_takes (hruns .keyword (by decide)))
      (constant_staysWithin (htarget _))

theorem Discreet.keepsQuotes (hP : WordLocal P) (h : Discreet P find) (hs : P s) :
    KeepsQuotes s (replaceAll find s) := by
  obtain ⟨es, rfl, hresult, hscript⟩ := exists_script h.sound [] s
  have hplain : Plain es := by
    intro hit hhit
    obtain ⟨left, right, rfl⟩ := List.append_of_mem hhit
    obtain ⟨hfind, hchanged⟩ := hscript.put left hit right rfl
    have hrest : P (hit.taken ++ source right) :=
      hP.of_infix ⟨source left, [], by simp⟩ hs
    obtain ⟨htaken, htext⟩ := h.plain _ hit _ hrest hfind
    rcases h.keeps _ hit _ hfind with hsame | ⟨hsealed, -⟩
    · exact absurd hsame hchanged
    · exact ⟨(h.sound _ _ _ hfind).1, hsealed.ne_nil, htaken, htext⟩
  have hreplaced : replaceAll find (source es) = result es := hresult.symm
  rw [hreplaced]
  exact hplain.keepsQuotes

theorem keepsQuotes_replaceEach (hP : WordLocal P) {finds : List Recogniser}
    (hfinds : ∀ find ∈ finds, Discreet P find) (hs : P s) :
    KeepsQuotes s (replaceEach finds s) := by
  induction finds generalizing s with
  | nil => exact .refl s
  | cons find finds ih =>
      have hfind := hfinds find List.mem_cons_self
      have hnext : P (replaceAll find s) := hP.replaceAll hfind.sound hfind.keeps hs
      rw [replaceEach_cons]
      exact (hfind.keepsQuotes hP hs).trans
        (ih (fun f hf => hfinds f (List.mem_cons_of_mem find hf)) hnext)

theorem keepsQuotes_rewriteCode (hrules : WellFormed rules) (h : Unquoted rules)
    {code lua : List Char} (hcode : Dull code)
    (hlua : rewriteCode (.ofTable rules) code = .ok lua) : KeepsQuotes code lua := by
  rcases rewriteCode_eq_ok hlua with rfl | rfl
  · exact .refl _
  · exact keepsQuotes_replaceEach wordLocal_dull (fun _ => discreet_of_mem hrules h) hcode

end Recognisers

section Lines

variable {rules : RuleTable} {previous : Option Segment} {segments out : List Segment}

theorem openQuote?_cons (s s' : Segment) (rest : List Segment) :
    openQuote? (s :: s' :: rest) = openQuote? (s' :: rest) := by
  rw [openQuote?, openQuote?, List.getLast?_cons_cons]

theorem openQuote?_of_becomes (h : Becomes rules previous segments out)
    (hkeeps : ∀ code lua, .code code ∈ segments → rewriteCode (.ofTable rules) code = .ok lua →
      KeepsQuotes code lua) : openQuote? out = openQuote? segments := by
  induction h with
  | nil => rfl
  | @code previous code lua rest out hcode hrest ih =>
      have hothers := ih fun code' lua' hmem => hkeeps code' lua' (List.mem_cons_of_mem _ hmem)
      have hquotes := (hkeeps code lua List.mem_cons_self hcode).quotes
      have hfirst : lua.find? isQuote = code.find? isQuote := by
        rw [← List.head?_filter, ← List.head?_filter, hquotes]
      cases hrest with
      | nil => exact hfirst
      | code | literal => rwa [openQuote?_cons, openQuote?_cons]
  | literal hliteral hrest ih =>
      have hothers := ih fun code' lua' hmem => hkeeps code' lua' (List.mem_cons_of_mem _ hmem)
      cases hrest with
      | nil => rfl
      | code | literal => rwa [openQuote?_cons, openQuote?_cons]

theorem dull_of_mem_partition {line code : List Char} (h : Dull line)
    (hcode : .code code ∈ partition line) : Dull code :=
  wordLocal_dull.of_infix (infix_of_mem_partition hcode) h

theorem unquoted_default : Unquoted RuleTable.default := by
  have hdull : ∀ x ∈ spellings.val, Dull x.target := by decide +kernel
  exact ⟨default_ascii, plain_default, forall_default hdull⟩

/-- The default table is unquoted; and with any accepted table that is, a line without bright shades
is put together from segments into which its translation falls again. They are of the same kinds in
the same order, and a literal that nothing closes stays open. -/
theorem partition_translateLine {extra : List String} {t : Translator}
    (ht : Translator.ofTable rules extra = .ok t) (hrules : Unquoted rules) {line : List Char}
    (hline : Dull line) (hsegments : translateSegments t.lexicon (partition line) = (out, none)) :
    Unquoted RuleTable.default ∧
      ∃ lua, t.translateLine line = .ok lua ∧ partition lua = out ∧
        out.map Segment.isCode = (partition line).map Segment.isCode ∧
        openQuote? out = openQuote? (partition line) := by
  obtain ⟨hwellFormed, -, hlexicon⟩ := ofTable_eq_ok ht
  have hlua : t.translateLine line = .ok (Segment.join out) := by
    rw [translateLine_eq, hsegments]
  rw [hlexicon] at hsegments
  have hbecomes := becomes_of_translateSegments hwellFormed hsegments
  have hkeeps : ∀ code lua, .code code ∈ partition line →
      rewriteCode (.ofTable rules) code = .ok lua → KeepsQuotes code lua :=
    fun code lua hcode =>
      keepsQuotes_rewriteCode hwellFormed hrules (dull_of_mem_partition hline hcode)
  have hgrammatical : Grammatical out :=
    grammatical_of_keepsQuotes hbecomes hrules.plain hkeeps (grammatical_partition line)
  exact ⟨unquoted_default, Segment.join out, hlua, hgrammatical.partition_join,
    map_isCode_of_becomes hbecomes, openQuote?_of_becomes hbecomes hkeeps⟩

theorem partition_translateLine_open :
    let rules : RuleTable :=
      ⟨[⟨.serviceName, "luz", "Lighting", none⟩, ⟨.keyword, "fin", "end", none⟩]⟩
    let line := "obtener_servicio(\"luz\") fin 'a\\'b\"' fin \"c\\\" fin".toList
    let out : List Segment :=
      [.code "game:GetService(".toList, .literal "\"Lighting\"".toList, .code ") end ".toList,
       .literal "'a\\'b\"'".toList, .code " end \"c\\\" end".toList]
    ∃ t lua, Translator.ofTable rules [] = .ok t ∧ Unquoted rules ∧ Dull line ∧
      translateSegments t.lexicon (partition line) = (out, none) ∧
      t.translateLine line = .ok lua ∧ partition lua = out ∧ openQuote? out = some '"' := by
  intro rules line out
  let t : Translator := ⟨rules, .ofExtra [], .ofTable rules⟩
  have ht : Translator.ofTable rules [] = .ok t := by
    have hfault : rules.fault? = none := by decide +kernel
    rw [Translator.ofTable, hfault]
  have hascii : ∀ r ∈ rules.entries, r.source.toList.all (·.toNat < 128) = true := by
    decide +kernel
  have hrules : Unquoted rules :=
    ⟨fun r hr => by simpa using hascii r hr, by decide +kernel, by decide +kernel⟩
  have hline : Dull line := by decide +kernel
  have hout : translateSegments t.lexicon (partition line) = (out, none) := by decide +kernel
  obtain ⟨-, lua, hlua, hpartition, -⟩ := partition_translateLine ht hrules hline hout
  exact ⟨t, lua, ht, hrules, hline, hout, hlua, hpartition, by decide +kernel⟩

end Lines

end SpanishLua.Proofs.Reparsing
