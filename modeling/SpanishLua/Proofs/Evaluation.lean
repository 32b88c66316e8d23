import SpanishLua.Proofs.Words

/-!
The order in which a recogniser tries the words of its category makes no difference. So the default
rules can be run as they stand, without sorting their words first.
-/

namespace SpanishLua.Proofs.Evaluation

open SpanishLua.Code
open SpanishLua.Proofs.Recognisers
open SpanishLua.Proofs.Tables
open SpanishLua.Proofs.Lines
open SpanishLua.Proofs.Defaults
open SpanishLua.Proofs.Places
open SpanishLua.Proofs.Stages
open SpanishLua.Proofs.Words

/-- The same words in any order, with the same targets. -/
structure SameWords (v v' : Vocabulary) : Prop where
  words : ∀ w, w ∈ v'.words ↔ w ∈ v.words
  targets : v'.targets = v.targets

theorem recogniser_ext {f g : Recogniser}
    (h : ∀ before after hit, f before after = some hit ↔ g before after = some hit) : f = g := by
  funext before after
  exact Option.ext (h before after)

section Congruence

variable {v v' : Vocabulary} (hv : ∀ w ∈ v.words, WordRun w) (h : SameWords v v')

include hv h

theorem SameWords.wordRun : ∀ w ∈ v'.words, WordRun w :=
  fun w hw => hv w ((h.words w).mp hw)

omit hv in
theorem SameWords.target? : v'.target? = v.target? := by
  funext token
  rw [Vocabulary.target?, Vocabulary.target?, h.targets]

theorem method_congr : Call.method v' = Call.method v := by
  refine recogniser_ext fun before after hit => ?_
  rw [method_eq_some_iff hv, method_eq_some_iff (h.wordRun hv), h.target?]
  simp only [h.words]

theorem property_congr : Member.property v' = Member.property v := by
  refine recogniser_ext fun before after hit => ?_
  rw [property_eq_some_iff hv, property_eq_some_iff (h.wordRun hv), h.target?]
  simp only [h.words]

theorem mathFunction_congr : Member.mathFunction v' = Member.mathFunction v := by
  refine recogniser_ext fun before after hit => ?_
  rw [mathFunction_eq_some_iff hv, mathFunction_eq_some_iff (h.wordRun hv), h.target?]
  simp only [h.words]

theorem item_congr (members : Vocabulary) :
    Enumeration.item v' members = Enumeration.item v members := by
  refine recogniser_ext fun before after hit => ?_
  rw [item_eq_some_iff hv, item_eq_some_iff (h.wordRun hv), h.target?]
  simp only [h.words]

theorem constant_congr : Enumeration.constant v' = Enumeration.constant v := by
  refine recogniser_ext fun before after hit => ?_
  rw [constant_eq_some_iff hv, constant_eq_some_iff (h.wordRun hv), h.target?]
  simp only [h.words]

theorem globalFunction_congr : Keyword.globalFunction v' = Keyword.globalFunction v := by
  refine recogniser_ext fun before after hit => ?_
  rw [globalFunction_eq_some_iff hv, globalFunction_eq_some_iff (h.wordRun hv), h.target?]
  simp only [h.words]

end Congruence

/-- The targets of the default rules of a category, from their characters. -/
def targets (category : Category) : List (List Char × List Char) :=
  ((spellings.val.filter (·.category = category)).map fun x =>
    (wordKey x.source, x.target)).reverse

/-- The words of the default rules of a category, in the order of the rules. -/
def spelled (category : Category) : Vocabulary where
  words := (spellings.val.filter (·.category = category)).map (·.source)
  targets := targets category

/-- The words of a category that is only looked up, so that their order is not asked for. -/
def lookedUp (category : Category) : Vocabulary where
  words := (vocabulary category).words
  targets := targets category

theorem targets_eq (category : Category) : targets category = (vocabulary category).targets := by
  rw [targets, ← spellings.property, List.filter_map, List.map_map]
  rfl

theorem lookedUp_eq (category : Category) : lookedUp category = vocabulary category := by
  rw [lookedUp, targets_eq]

theorem sameWords_spelled (category : Category) :
    SameWords (vocabulary category) (spelled category) where
  words w := by
    rw [mem_words_ofTable, spelled, ← spellings.property]
    simp [mem_rules_iff, spell, and_assoc]
  targets := targets_eq category

/-- The words of the default rules, in the order of the rules. -/
def spelledLexicon : Lexicon where
  keywords := spelled .keyword
  globalFunctions := spelled .globalFunction
  methods := spelled .methodName
  constructors := lookedUp .constructorName
  properties := spelled .propertyName
  mathFunctions := spelled .mathFunction
  services := lookedUp .serviceName
  enumFamilies := spelled .enumFamily
  enumMembers := lookedUp .enumMember
  enumConstants := spelled .enumConstant
  bounds := Lexicon.boundsOf RuleTable.default

theorem applyAll_spelled_items (members : Vocabulary) (code : List Char) :
    Pass.applyAll { spelledLexicon with enumMembers := members } code =
      Pass.applyAll { Lexicon.ofTable RuleTable.default with enumMembers := members } code := by
  have hruns : ∀ category, category ≠ .enumMember → ∀ w ∈ (vocabulary category).words, WordRun w :=
    fun _ => wordRun_of_mem_vocabulary
  have hsame := sameWords_spelled
  have hearly : early { spelledLexicon with enumMembers := members } =
      early { Lexicon.ofTable RuleTable.default with enumMembers := members } := by
    simp only [early, spelledLexicon, method_congr (hruns .methodName (by decide)) (hsame _)]
    rfl
  have hlate : late { spelledLexicon with enumMembers := members } =
      late { Lexicon.ofTable RuleTable.default with enumMembers := members } := by
    simp only [late, spelledLexicon, keyword_eq_constant, lookedUp_eq,
      property_congr (hruns .propertyName (by decide)) (hsame _),
      mathFunction_congr (hruns .mathFunction (by decide)) (hsame _),
      item_congr (hruns .enumFamily (by decide)) (hsame _),
      constant_congr (hruns .enumConstant (by decide)) (hsame _),
      globalFunction_congr (hruns .globalFunction (by decide)) (hsame _),
      constant_congr (hruns .keyword (by decide)) (hsame _)]
    rfl
  rw [applyAll_eq, applyAll_eq, hearly, hlate]
  rfl

theorem applyAll_spelled (code : List Char) :
    Pass.applyAll spelledLexicon code = Pass.applyAll (.ofTable RuleTable.default) code := by
  refine (applyAll_spelled_items (lookedUp .enumMember) code).trans ?_
  rw [lookedUp_eq]
  rfl

theorem ofTable_default (extra : List String) :
    Translator.ofTable RuleTable.default extra =
      .ok ⟨RuleTable.default, .ofExtra extra, .ofTable RuleTable.default⟩ := by
  rw [Translator.ofTable, fault?_eq_none_iff.mpr default_wellFormed]

/-- A line under the default rules, run without sorting words. -/
theorem translateLine_spelled (rules : RuleTable) (denyList : DenyList) (line : List Char) :
    (Translator.mk rules denyList spelledLexicon).translateLine line =
      (Translator.mk rules denyList (.ofTable RuleTable.default)).translateLine line := by
  have hcode : ∀ segments, translateCode spelledLexicon segments =
      translateCode (.ofTable RuleTable.default) segments := by
    intro segments
    induction segments with
    | nil => rfl
    | cons s rest ih =>
        cases s with
        | literal text => rw [translateCode_literal, translateCode_literal, ih]
        | code code =>
            rw [translateCode_code, translateCode_code, ih, rewriteCode, rewriteCode,
              applyAll_spelled]
  have hservices : spelledLexicon.services = vocabulary .serviceName := lookedUp_eq .serviceName
  rw [translateLine_eq, translateLine_eq, translateSegments, translateSegments, hcode, hservices]
  rfl

end SpanishLua.Proofs.Evaluation
