import SpanishLua.Proofs.Agreement
import SpanishLua.Proofs.Invariance
import SpanishLua.Proofs.Storing

namespace SpanishLua.Proofs.Independence

open SpanishLua.Code
open SpanishLua.Proofs.Recognisers
open SpanishLua.Proofs.Seams
open SpanishLua.Proofs.Partition
open SpanishLua.Proofs.Tables
open SpanishLua.Proofs.Storing
open SpanishLua.Proofs.Lines
open SpanishLua.Proofs.Documents
open SpanishLua.Proofs.Invariance
open SpanishLua.Proofs.Agreement

section Words

variable {after : List Char}

theorem eq_of_prefix_of_size {a b : String} (h : a.toList <+: b.toList)
    (hsize : a.utf8ByteSize = b.utf8ByteSize) : a = b := by
  obtain ⟨rest, hrest⟩ := h
  have hb : b = a ++ String.ofList rest := by
    rw [← String.toList_inj, String.toList_append, String.toList_ofList, hrest]
  have hempty : (String.ofList rest).utf8ByteSize = 0 := by
    rw [hb, String.utf8ByteSize_append] at hsize
    omega
  rw [hb, String.utf8ByteSize_eq_zero_iff.mp hempty, String.append_empty]

theorem eq_of_prefixes {a b : String} (ha : a.toList <+: after) (hb : b.toList <+: after)
    (hsize : a.utf8ByteSize = b.utf8ByteSize) : a = b := by
  rcases List.prefix_or_prefix_of_prefix ha hb with hstart | hstart
  · exact eq_of_prefix_of_size hstart hsize
  · exact (eq_of_prefix_of_size hstart hsize.symm).symm

theorem standsBefore_iff {a b : String} :
    Vocabulary.standsBefore a b = true ↔
      b.utf8ByteSize < a.utf8ByteSize ∨ a.utf8ByteSize = b.utf8ByteSize ∧ a ≤ b := by
  simp [Vocabulary.standsBefore]

theorem longestFirst_pairwise (words : List String) :
    (Vocabulary.longestFirst words).Pairwise fun a b => b.utf8ByteSize ≤ a.utf8ByteSize := by
  refine (List.pairwise_mergeSort ?_ ?_ words).imp fun h => ?_
  · intro a b c hab hbc
    rw [standsBefore_iff] at hab hbc ⊢
    rcases hab with hab | ⟨hab, hle⟩
    · exact .inl (by omega)
    · rcases hbc with hbc | ⟨hbc, hle'⟩
      · exact .inl (by omega)
      · exact .inr ⟨hab.trans hbc, String.le_trans hle hle'⟩
  · intro a b
    rw [Bool.or_eq_true, standsBefore_iff, standsBefore_iff]
    rcases Nat.lt_trichotomy a.utf8ByteSize b.utf8ByteSize with hlt | heq | hlt
    · exact .inr (.inl hlt)
    · rcases String.le_total a b with hle | hle
      · exact .inl (.inr ⟨heq, hle⟩)
      · exact .inr (.inr ⟨heq.symm, hle⟩)
    · exact .inl (.inl hlt)
  · rcases standsBefore_iff.mp h with h | ⟨h, -⟩ <;> omega

theorem filter_longestFirst {words words' : List String}
    (h : (words.filter (·.toList <+: after)).Perm (words'.filter (·.toList <+: after))) :
    (Vocabulary.longestFirst words).filter (·.toList <+: after) =
      (Vocabulary.longestFirst words').filter (·.toList <+: after) := by
  have hstart : ∀ {words : List String} {a : String},
      a ∈ (Vocabulary.longestFirst words).filter (·.toList <+: after) → a.toList <+: after :=
    fun ha => of_decide_eq_true (List.mem_filter.mp ha).2
  -- of one length only one word starts the text, so sorting leaves no choice
  refine List.Perm.eq_of_pairwise ?_ ((longestFirst_pairwise words).filter _)
    ((longestFirst_pairwise words').filter _) ?_
  · intro a b ha hb hle hge
    exact eq_of_prefixes (hstart ha) (hstart hb) (by omega)
  · exact ((List.mergeSort_perm words _).filter _).trans
      (h.trans ((List.mergeSort_perm words' _).filter _).symm)

theorem filter_words {rules rules' : RuleTable} {category : Category}
    (h : (((rules.rules category).map (·.source)).filter (·.toList <+: after)).Perm
      (((rules'.rules category).map (·.source)).filter (·.toList <+: after))) :
    (Vocabulary.ofTable rules' category).words.filter (· <+: after) =
      (Vocabulary.ofTable rules category).words.filter (· <+: after) := by
  simp only [Vocabulary.ofTable, List.filter_map]
  exact congrArg _ (filter_longestFirst h).symm

end Words

section Order

variable {rules rules' : RuleTable}

theorem wellFormed_of_perm (hrules : WellFormed rules)
    (h : ∀ category, (rules.rules category).Perm (rules'.rules category)) : WellFormed rules' := by
  constructor
  · intro r hr
    have hmem : r ∈ rules.rules r.category := (h _).mem_iff.mpr (mem_rules_iff.mpr ⟨hr, rfl⟩)
    exact hrules.valid r (mem_rules_iff.mp hmem).1
  · intro category
    exact ((h category).map Rule.key).nodup_iff.mp (hrules.distinct category)

theorem target?_of_perm (hrules : WellFormed rules)
    (h : ∀ category, (rules.rules category).Perm (rules'.rules category)) (category : Category)
    (token : List Char) :
    (Vocabulary.ofTable rules' category).target? token =
      (Vocabulary.ofTable rules category).target? token := by
  have hrules' := wellFormed_of_perm hrules h
  rw [target?_ofTable hrules, target?_ofTable hrules']
  congr 1
  apply Option.ext
  intro r
  rw [find?_eq_some_iff hrules, find?_eq_some_iff hrules', (h category).mem_iff]

theorem findSome?_rel_of_perm {bounds bounds' : List Bound} (h : bounds.Perm bounds')
    (code : List Char) :
    Option.Rel (fun _ _ => True) (bounds.findSome? (Bound.broken? · code))
      (bounds'.findSome? (Bound.broken? · code)) := by
  have hnone : bounds.findSome? (Bound.broken? · code) = none ↔
      bounds'.findSome? (Bound.broken? · code) = none := by
    simp only [List.findSome?_eq_none_iff, h.mem_iff]
  revert hnone
  generalize bounds.findSome? (Bound.broken? · code) = broken
  generalize bounds'.findSome? (Bound.broken? · code) = broken'
  intro hnone
  cases broken with
  | none =>
      rw [hnone.mp rfl]
      exact .none
  | some e =>
      cases broken' with
      | none => exact absurd (hnone.mpr rfl) (by simp)
      | some e' => exact .some trivial

theorem interchangeable_of_perm (hrules : WellFormed rules)
    (h : ∀ category, (rules.rules category).Perm (rules'.rules category)) :
    Interchangeable (fun _ => True) (fun _ _ => True) rules rules' where
  words category _ _ _ :=
    ⟨fun _ => filter_words (((h category).map _).filter _),
      fun word _ => target?_of_perm hrules h category word⟩
  targets category _ token := target?_of_perm hrules h category token
  bounds code := findSome?_rel_of_perm ((h .constructorName).filterMap _) code
  keeps _ _ _ _ := trivial

/-- A table whose rules stand in another order translates alike: to the same text, or it fails by
the same forbidden word or on the same line. Which broken bound of the line it reports may
differ. -/
theorem translate_of_perm (hrules : rules.validate = .ok ())
    (h : ∀ category, (rules.rules category).Perm (rules'.rules category)) (extra : List String) :
    ∃ t t', Translator.ofTable rules extra = .ok t ∧ Translator.ofTable rules' extra = .ok t' ∧
      ∀ document label,
        (∃ lua, t.translate document label = .ok lua ∧ t'.translate document label = .ok lua) ∨
        (∃ word, t.translate document label = .error (.forbidden word) ∧
          t'.translate document label = .error (.forbidden word)) ∨
        ∃ number e e', t.translate document label = .error (.line number e) ∧
          t'.translate document label = .error (.line number e') := by
  have hwell := validate_eq_ok_iff.mp hrules
  obtain ⟨t, ht⟩ := exists_ofTable hwell extra
  obtain ⟨t', ht'⟩ := exists_ofTable (wellFormed_of_perm hwell h) extra
  refine ⟨t, t', ht, ht', fun document label => ?_⟩
  have halike := (interchangeable_of_perm hwell h).translate ht ht' document label
    fun _ _ _ _ => trivial
  revert halike
  generalize t.translate document label = x
  generalize t'.translate document label = x'
  rintro (lua | @⟨_, _, word | @⟨number, e, e', -⟩⟩)
  · exact .inl ⟨lua, rfl, rfl⟩
  · exact .inr (.inl ⟨word, rfl, rfl⟩)
  · exact .inr (.inr ⟨number, e, e', rfl, rfl⟩)

theorem translate_of_perm_reversed :
    let rules : RuleTable :=
      ⟨[⟨.constructorName, "Color3", "Color3", some 3⟩, ⟨.keyword, "si", "if", none⟩,
        ⟨.constructorName, "Region", "Region3", some 2⟩, ⟨.keyword, "sino", "else", none⟩]⟩
    let rules' : RuleTable := ⟨rules.entries.reverse⟩
    let document := "sino\nRegion_nuevo(Color3_nuevo(1, 2, 3, 4), 5, 6)".toList
    rules.validate = .ok () ∧
      (∀ category, (rules.rules category).Perm (rules'.rules category)) ∧
      ∃ t t', Translator.ofTable rules [] = .ok t ∧ Translator.ofTable rules' [] = .ok t' ∧
        ((∃ lua, t.translate document "guion" = .ok lua ∧
            t'.translate document "guion" = .ok lua) ∨
          (∃ word, t.translate document "guion" = .error (.forbidden word) ∧
            t'.translate document "guion" = .error (.forbidden word)) ∨
          ∃ number e e', t.translate document "guion" = .error (.line number e) ∧
            t'.translate document "guion" = .error (.line number e')) := by
  intro rules rules' document
  have hrules : rules.validate = .ok () := by decide
  have hperm : ∀ category, (rules.rules category).Perm (rules'.rules category) := by
    intro category
    simp only [rules', RuleTable.rules, List.filter_reverse]
    exact (List.reverse_perm _).symm
  obtain ⟨t, t', ht, ht', halike⟩ := translate_of_perm hrules hperm []
  exact ⟨hrules, hperm, t, t', ht, ht', halike document "guion"⟩

end Order

section Addition

variable {rules rules' : RuleTable} {r : Rule} {document : List Char}

/-- The texts that passes put in, as they come to stand in a translation. -/
def insertedTexts : List String :=
  ["game:GetService", "Instance.new(", ".new(", "BrickColor.new(\"Bright \")", "elseif", "math."]

/-- The word of a rule turns up neither in the document nor in what a translation puts in. -/
structure Unrelated (rules : RuleTable) (r : Rule) (document : List Char) : Prop where
  document : ¬ r.source.toList <:+: document
  targets : ∀ r' ∈ rules.entries, ¬ r.source.toList <:+: r'.target.toList
  inserted : ∀ text ∈ insertedTexts, ¬ r.source.toList <:+: text.toList

theorem infix_insertedTexts {s : List Char} (hs : s ∈ fixedTexts) :
    ∃ text ∈ insertedTexts, s <:+: text.toList := by
  simp only [fixedTexts, List.map_cons, List.map_nil, List.mem_cons, List.not_mem_nil,
    or_false] at hs
  rcases hs with rfl | rfl | rfl | rfl | rfl | rfl | rfl | rfl | rfl | rfl | rfl
  · exact ⟨"game:GetService", by simp [insertedTexts], "game:".toList, [], by decide⟩
  · exact ⟨"game:GetService", by simp [insertedTexts], List.infix_rfl⟩
  · exact ⟨"game:GetService", by simp [insertedTexts], "game".toList, "GetService".toList,
      by decide⟩
  · exact ⟨".new(", by simp [insertedTexts], ".new".toList, [], by decide⟩
  · exact ⟨".new(", by simp [insertedTexts], List.infix_rfl⟩
  · exact ⟨"Instance.new(", by simp [insertedTexts], List.infix_rfl⟩
  · exact ⟨".new(", by simp [insertedTexts], [], "new(".toList, by decide⟩
  · exact ⟨"math.", by simp [insertedTexts], List.infix_rfl⟩
  · exact ⟨"BrickColor.new(\"Bright \")", by simp [insertedTexts], [], "\")".toList, by decide⟩
  · exact ⟨"BrickColor.new(\"Bright \")", by simp [insertedTexts],
      "BrickColor.new(\"Bright ".toList, [], by decide⟩
  · exact ⟨"elseif", by simp [insertedTexts], List.infix_rfl⟩

theorem wordLocal_absent {w : List Char} (hw : WordRun w) : WordLocal (¬ w <:+: ·) where
  of_infix hst ht hs := ht (hs.trans hst)
  append hseam hs ht hst := (hseam.infix_or hw hst).elim hs ht

theorem Unrelated.supplies (h : Unrelated rules r document) (hrules : WellFormed rules)
    (hascii : AsciiSources rules) : Supplies (¬ r.source.toList <:+: ·) rules where
  wellFormed := hrules
  ascii := hascii
  target := h.targets
  fixed s hs hpiece := by
    obtain ⟨text, htext, hinfix⟩ := infix_insertedTexts hs
    exact h.inserted text htext (hpiece.trans hinfix)

theorem rules_of_insert (h : rules.insert r = .ok rules') (category : Category) :
    rules'.rules category =
      if r.category = category then rules.rules category ++ [r] else rules.rules category := by
  rw [RuleTable.rules, RuleTable.rules, entries_of_insert h, List.filter_append]
  by_cases hcategory : r.category = category <;> simp [hcategory]

theorem rules_of_insert_ne (h : rules.insert r = .ok rules') {category : Category}
    (hcategory : r.category ≠ category) : rules'.rules category = rules.rules category := by
  rw [rules_of_insert h, if_neg hcategory]

theorem vocabulary_of_insert_ne (h : rules.insert r = .ok rules') {category : Category}
    (hcategory : r.category ≠ category) :
    Vocabulary.ofTable rules' category = Vocabulary.ofTable rules category := by
  rw [Vocabulary.ofTable, Vocabulary.ofTable, rules_of_insert_ne h hcategory]

/-- In a text without the word of the new rule, its category offers what it did before. -/
theorem agree_of_insert (hrules : WellFormed rules) (h : rules.insert r = .ok rules')
    (category : Category) {s : List Char} (hs : ¬ r.source.toList <:+: s) :
    Agree s (.ofTable rules category) (.ofTable rules' category) := by
  by_cases hcategory : r.category = category
  · have hsame : rules'.rules category = rules.rules category ++ [r] := by
      rw [rules_of_insert h, if_pos hcategory]
    constructor
    · intro after hafter
      have habsent : ¬ r.source.toList <+: after := fun hstart =>
        hs (hstart.isInfix.trans hafter.isInfix)
      apply filter_words
      rw [hsame, List.map_append, List.filter_append, List.map_singleton,
        List.filter_singleton]
      simp [habsent]
    · intro word hword
      obtain ⟨r', hr', rfl, htarget⟩ := exists_rule_of_mem_words hrules hword
      have hmem : r' ∈ rules'.rules category := by
        rw [hsame]
        exact List.mem_append_left _ hr'
      have hfind : rules'.find? category (wordKey r'.source.toList) = some r' :=
        (find?_eq_some_iff (WellFormed.insert hrules h)).mpr ⟨hmem, rfl⟩
      rw [htarget, target?_ofTable (WellFormed.insert hrules h), hfind, Option.map_some]
  · rw [vocabulary_of_insert_ne h hcategory]
    exact ⟨fun _ => rfl, fun _ _ => rfl⟩

theorem interchangeable_of_insert (hrules : WellFormed rules) (hascii : AsciiSources rules)
    (hinsert : rules.insert r = .ok rules') (hcategory : r.category ∈ scanned)
    (hsource : ∀ c ∈ r.source.toList, c.toNat < 128) (h : Unrelated rules r document) :
    Interchangeable (¬ r.source.toList <:+: ·) Eq rules rules' := by
  -- nothing that is only looked up changes, bounds among it
  have hlookedUp : ∀ category ∈ lookedUp, r.category ≠ category := by
    revert hcategory
    generalize r.category = added
    revert added
    decide
  have hidentifier : isIdentifier r.source.toList = true := by
    have hfits := (fits_of_insert hinsert).2
    rwa [if_neg (hlookedUp .enumMember (by decide))] at hfits
  have hlocal := wordLocal_absent (wordRun_of_isIdentifier hidentifier hsource)
  have hsupplies := h.supplies hrules hascii
  constructor
  · intro category _ s hs
    exact agree_of_insert hrules hinsert category hs
  · intro category hmem token
    rw [vocabulary_of_insert_ne hinsert (hlookedUp category hmem)]
  · intro code
    have hbounds : (Lexicon.ofTable rules').bounds = (Lexicon.ofTable rules).bounds := by
      simp only [Lexicon.ofTable, Lexicon.boundsOf,
        rules_of_insert_ne hinsert (hlookedUp .constructorName (by decide))]
    rw [hbounds]
    cases (Lexicon.ofTable rules).bounds.findSome? (Bound.broken? · code) with
    | none => exact .none
    | some e => exact .some rfl
  · intro find hfind s hs
    exact hsupplies.replaceAll hlocal hfind hs

/-- A rule whose word turns up nowhere changes no translation. -/
theorem translate_insert (hrules : rules.validate = .ok ()) (hascii : AsciiSources rules)
    (hinsert : rules.insert r = .ok rules') (hcategory : r.category ∈ scanned)
    (hsource : ∀ c ∈ r.source.toList, c.toNat < 128) (h : Unrelated rules r document)
    (extra : List String) :
    ∃ t t', Translator.ofTable rules extra = .ok t ∧ Translator.ofTable rules' extra = .ok t' ∧
      ∀ label, t'.translate document label = t.translate document label := by
  have hwell := validate_eq_ok_iff.mp hrules
  obtain ⟨t, ht⟩ := exists_ofTable hwell extra
  obtain ⟨t', ht'⟩ := exists_ofTable (WellFormed.insert hwell hinsert) extra
  refine ⟨t, t', ht, ht', fun label => ?_⟩
  have hinterchange := interchangeable_of_insert hwell hascii hinsert hcategory hsource h
  refine (hinterchange.translate ht ht' document label ?_).eq.symm
  intro line hline code hcode hpiece
  exact h.document ((hpiece.trans (infix_of_mem_partition hcode)).trans (infix_of_mem_lines hline))

theorem translate_insert_siguiente :
    let rules : RuleTable :=
      ⟨[⟨.keyword, "si", "if", none⟩, ⟨.methodName, "clonar", "Clone", none⟩]⟩
    let r : Rule := ⟨.keyword, "siguiente", "next", none⟩
    let document := "si x:clonar()\nsigo".toList
    ∃ rules', rules.insert r = .ok rules' ∧ rules.validate = .ok () ∧ AsciiSources rules ∧
      Unrelated rules r document ∧
      ∃ t t', Translator.ofTable rules [] = .ok t ∧ Translator.ofTable rules' [] = .ok t' ∧
        t'.translate document "guion" = t.translate document "guion" := by
  intro rules r document
  let rules' : RuleTable := ⟨rules.entries ++ [r]⟩
  have hinsert : rules.insert r = .ok rules' := by decide
  have hrules : rules.validate = .ok () := by decide
  have hascii : AsciiSources rules := by simp [AsciiSources, rules]
  have hsource : ∀ c ∈ r.source.toList, c.toNat < 128 := by simp [r]
  -- no text but the word has a `u`
  have habsent : ∀ s : List Char, 'u' ∉ s → ¬ r.source.toList <:+: s :=
    fun s hs hpiece => hs (hpiece.subset (by decide))
  have hunrelated : Unrelated rules r document := by
    refine ⟨habsent _ (by decide), fun r' hr' => habsent _ ?_, fun text htext => habsent _ ?_⟩
    · revert r' hr'
      decide
    · revert text htext
      decide
  obtain ⟨t, t', ht, ht', hsame⟩ :=
    translate_insert hrules hascii hinsert (by decide) hsource hunrelated []
  exact ⟨rules', hinsert, hrules, hascii, hunrelated, t, t', ht, ht', hsame "guion"⟩

end Addition

end SpanishLua.Proofs.Independence
