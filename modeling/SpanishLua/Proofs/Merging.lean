import Mathlib.Data.List.Induction
import SpanishLua.Config
import SpanishLua.Proofs.ByteOrder
import SpanishLua.Proofs.Defaults
import SpanishLua.Proofs.Lines
import SpanishLua.Proofs.Storing

namespace SpanishLua.Proofs.Merging

open SpanishLua.RuleTable
open SpanishLua.Proofs.ByteOrder
open SpanishLua.Proofs.Tables
open SpanishLua.Proofs.Defaults
open SpanishLua.Proofs.Storing
open SpanishLua.Proofs.Lines

/-- The categories in the order in which a configuration is merged. -/
def mergeOrder : List Category :=
  [.keyword, .globalFunction, .methodName, .propertyName, .mathFunction, .serviceName,
   .enumFamily, .enumMember, .enumConstant, .constructorName]

/-- The rules that a configuration gives in a category. -/
def given (o : RuleOverrides) : Category → List Rule
  | .keyword => RuleOverrides.rulesOf .keyword o.keywords
  | .globalFunction => RuleOverrides.rulesOf .globalFunction o.globalFunctions
  | .methodName => RuleOverrides.rulesOf .methodName o.methods
  | .constructorName => o.constructors.entries.map fun (source, override) => override.rule source
  | .propertyName => RuleOverrides.rulesOf .propertyName o.properties
  | .mathFunction => RuleOverrides.rulesOf .mathFunction o.mathFunctions
  | .serviceName => RuleOverrides.rulesOf .serviceName o.services
  | .enumFamily => RuleOverrides.rulesOf .enumFamily o.enumFamilies
  | .enumMember => RuleOverrides.rulesOf .enumMember o.enumMembers
  | .enumConstant => RuleOverrides.rulesOf .enumConstant o.enumConstants

/-- `a` comes before `b`: in an earlier category, or in the same one under a key with lesser
bytes. -/
def Before (a b : Rule) : Prop :=
  mergeOrder.idxOf a.category < mergeOrder.idxOf b.category ∨
    a.category = b.category ∧ bytes a.source < bytes b.source

/-- `r` is the first rule of the configuration that may not be stored. -/
structure FirstFault (o : RuleOverrides) (r : Rule) : Prop where
  mem : r ∈ given o r.category
  fault : ¬ Fits r
  first : ∀ r', r' ∈ given o r'.category → ¬ Fits r' → r' = r ∨ Before r r'

/-- `r` is a rule of the configuration for the word `token` of a category, case apart. -/
def GivenFor (o : RuleOverrides) (category : Category) (token : String) (r : Rule) : Prop :=
  r ∈ given o category ∧ r.key = wordKey token.toList

/-- Of the rules that satisfy `p`, `r` has the key with the greatest bytes. -/
def Greatest (p : Rule → Prop) (r : Rule) : Prop :=
  p r ∧ ∀ r', p r' → r' = r ∨ bytes r'.source < bytes r.source

/-- `bound` is the last bound that the configuration gives for the word, by ascending keys, or else
that of the default rule. -/
def LastBound (o : RuleOverrides) (category : Category) (token : String) (bound : Option Nat) :
    Prop :=
  (∃ r, Greatest (fun r => GivenFor o category token r ∧ r.maxArity ≠ none) r ∧
      bound = r.maxArity) ∨
    (∀ r, GivenFor o category token r → r.maxArity = none) ∧
      bound = (RuleTable.default.lookup? category token).bind (·.maxArity)

/-- The table holds the rules of the configuration over the default ones. -/
structure Merged (o : RuleOverrides) (t : RuleTable) : Prop where
  lookup : ∀ category token,
    (∃ r bound, Greatest (GivenFor o category token) r ∧ LastBound o category token bound ∧
        t.lookup? category token = some { r with maxArity := bound }) ∨
      (∀ r, ¬ GivenFor o category token r) ∧
        t.lookup? category token = RuleTable.default.lookup? category token
  bounded : ∀ category token r, RuleTable.default.lookup? category token = some r →
    r.maxArity ≠ none → ∃ r', t.lookup? category token = some r' ∧ r'.maxArity ≠ none
  positions : ∀ category,
    (RuleTable.default.rules category).map Rule.key <+: (t.rules category).map Rule.key

section Overrides

variable (o : RuleOverrides)

theorem rules_eq : o.rules = mergeOrder.flatMap (given o) := by
  simp [RuleOverrides.rules, mergeOrder, given]

theorem rulesOf_category (category : Category) (overrides : Overrides String) :
    ∀ r ∈ RuleOverrides.rulesOf category overrides, r.category = category := by
  intro r hr
  obtain ⟨entry, -, rfl⟩ := List.mem_map.mp hr
  rfl

theorem rulesOf_ascending (category : Category) (overrides : Overrides String) :
    (RuleOverrides.rulesOf category overrides).Pairwise
      fun a b => bytes a.source < bytes b.source :=
  List.pairwise_map.mpr (overrides.ascending.imp bytes_lt_bytes)

theorem constructorRule_category (override : ConstructorOverride) (source : String) :
    (override.rule source).category = .constructorName := by
  cases override <;> rfl

theorem constructorRule_source (override : ConstructorOverride) (source : String) :
    (override.rule source).source = source := by
  cases override <;> rfl

theorem category_of_mem_given {category : Category} {r : Rule} (h : r ∈ given o category) :
    r.category = category := by
  cases category
  case constructorName =>
    obtain ⟨entry, -, rfl⟩ := List.mem_map.mp h
    exact constructorRule_category _ _
  all_goals exact rulesOf_category _ _ r h

theorem given_ascending (category : Category) :
    (given o category).Pairwise fun a b => bytes a.source < bytes b.source := by
  cases category
  case constructorName =>
    refine List.pairwise_map.mpr (o.constructors.ascending.imp fun h => ?_)
    rw [constructorRule_source, constructorRule_source]
    exact bytes_lt_bytes h
  all_goals exact rulesOf_ascending _ _

theorem mem_rules_iff_given {r : Rule} : r ∈ o.rules ↔ r ∈ given o r.category := by
  rw [rules_eq, List.mem_flatMap]
  constructor
  · rintro ⟨category, -, hr⟩
    rwa [category_of_mem_given o hr]
  · intro hr
    exact ⟨r.category, by cases r.category <;> decide, hr⟩

theorem rules_pairwise_before : o.rules.Pairwise Before := by
  rw [rules_eq, List.pairwise_flatMap]
  refine ⟨fun category _ => ?_, ?_⟩
  · refine (given_ascending o category).imp_of_mem fun ha hb hlt => .inr ⟨?_, hlt⟩
    rw [category_of_mem_given o ha, category_of_mem_given o hb]
  · have horder : mergeOrder.Pairwise fun a b => mergeOrder.idxOf a < mergeOrder.idxOf b := by
      decide
    refine horder.imp fun hlt a ha b hb => .inl ?_
    rwa [category_of_mem_given o ha, category_of_mem_given o hb]

end Overrides

section Folding

/-- Rules put in their places one after the other. -/
def placeAll (entries rules : List Rule) : List Rule :=
  rules.foldl (fun entries r => place r entries) entries

theorem mergeRules_eq (t : RuleTable) (rules : List Rule) :
    Config.mergeRules t rules =
      match rules.find? (¬ Fits ·) with
      | some r => .error (.override r.source (.invalid r.category r.source))
      | none => .ok ⟨placeAll t.entries rules⟩ := by
  induction rules generalizing t with
  | nil => rfl
  | cons r rules ih =>
      rw [Config.mergeRules, upsert_eq]
      by_cases hfits : Fits r
      · rw [if_pos hfits, List.find?_cons_of_neg (by simpa using hfits)]
        exact ih _
      · rw [if_neg hfits, List.find?_cons_of_pos (by simpa using hfits)]

theorem wellFormed_placeAll {t : RuleTable} (ht : WellFormed t) {rules : List Rule}
    (h : ∀ r ∈ rules, Fits r) : WellFormed ⟨placeAll t.entries rules⟩ := by
  induction rules generalizing t with
  | nil => exact ht
  | cons r rules ih =>
      obtain ⟨hr, hrules⟩ := List.forall_mem_cons.mp h
      exact ih (WellFormed.place ht hr) hrules

theorem map_slot_prefix_placeAll (entries rules : List Rule) :
    entries.map slot <+: (placeAll entries rules).map slot := by
  induction rules generalizing entries with
  | nil => exact List.prefix_rfl
  | cons r rules ih =>
      refine List.IsPrefix.trans ?_ (ih (place r entries))
      rw [map_slot_place]
      split
      · exact List.prefix_rfl
      · exact List.prefix_append _ _

theorem find?_placeAll (entries rules : List Rule) (s : Slot) :
    (placeAll entries rules).find? (slot · = s) =
      (rules.filter (slot · = s)).foldl (fun old? r => some (successor old? r))
        (entries.find? (slot · = s)) := by
  induction rules generalizing entries with
  | nil => rfl
  | cons r rules ih =>
      rw [placeAll, List.foldl_cons]
      refine (ih (place r entries)).trans ?_
      by_cases hs : slot r = s
      · subst hs
        rw [List.filter_cons_of_pos (by simp), List.foldl_cons, find?_place_self]
      · rw [List.filter_cons_of_neg (by simpa using hs), find?_place_of_ne _ (Ne.symm hs)]

theorem foldl_successor_bound (rules : List Rule) (first : Option Rule) :
    (rules.foldl (fun old? r => some (successor old? r)) first).bind (·.maxArity) =
      (rules.reverse.findSome? (·.maxArity)).or (first.bind (·.maxArity)) := by
  induction rules using List.reverseRecOn with
  | nil => rfl
  | append_singleton rules r ih =>
      rw [List.foldl_concat, Option.bind_some, successor, ih, List.reverse_append,
        List.reverse_singleton, List.singleton_append, List.findSome?_cons]
      cases r.maxArity <;> rfl

/-- The last rule for a slot stays, with the last bound. -/
theorem foldl_successor (rules : List Rule) (first : Option Rule) :
    rules.foldl (fun old? r => some (successor old? r)) first =
      match rules.getLast? with
      | none => first
      | some r =>
          some { r with maxArity :=
            (rules.reverse.findSome? (·.maxArity)).or (first.bind (·.maxArity)) } := by
  rcases List.eq_nil_or_concat' rules with rfl | ⟨rules, r, rfl⟩
  · rfl
  · rw [← foldl_successor_bound, List.getLast?_concat, List.foldl_concat]
    rfl

end Folding

section Lookups

variable {o : RuleOverrides} {category : Category} {token : String}

/-- The rules of the configuration for a word, by ascending keys. -/
def givenFor (o : RuleOverrides) (category : Category) (token : String) : List Rule :=
  o.rules.filter (slot · = (category, wordKey token.toList))

/-- The last bound for a word, that of the default rule before all others. -/
def lastBound (o : RuleOverrides) (category : Category) (token : String) : Option Nat :=
  ((givenFor o category token).reverse.findSome? (·.maxArity)).or
    ((RuleTable.default.lookup? category token).bind (·.maxArity))

theorem mem_givenFor_iff {r : Rule} :
    r ∈ givenFor o category token ↔ GivenFor o category token r := by
  rw [givenFor, List.mem_filter, mem_rules_iff_given, decide_eq_true_eq, slot, Prod.mk.injEq]
  constructor
  · rintro ⟨hr, rfl, hkey⟩
    exact ⟨hr, hkey⟩
  · rintro ⟨hr, hkey⟩
    have hcategory := category_of_mem_given o hr
    exact ⟨by rwa [hcategory], hcategory, hkey⟩

theorem givenFor_ascending (o : RuleOverrides) (category : Category) (token : String) :
    (givenFor o category token).Pairwise fun a b => bytes a.source < bytes b.source := by
  refine ((rules_pairwise_before o).filter _).imp_of_mem fun ha hb hbefore => ?_
  have hcategory : ∀ r ∈ givenFor o category token, r.category = category :=
    fun r hr => category_of_mem_given o (mem_givenFor_iff.mp hr).1
  rcases hbefore with hlt | ⟨-, hlt⟩
  · rw [hcategory _ ha, hcategory _ hb] at hlt
    exact absurd hlt (Nat.lt_irrefl _)
  · exact hlt

theorem greatest_of_getLast? {r : Rule} (h : (givenFor o category token).getLast? = some r) :
    Greatest (GivenFor o category token) r := by
  obtain ⟨rules, hrules⟩ := List.getLast?_eq_some_iff.mp h
  have hascending := givenFor_ascending o category token
  rw [hrules, List.pairwise_append] at hascending
  refine ⟨mem_givenFor_iff.mp (by simp [hrules]), fun r' hr' => ?_⟩
  rw [← mem_givenFor_iff, hrules, List.mem_append, List.mem_singleton] at hr'
  rcases hr' with hr' | rfl
  · exact .inr (hascending.2.2 r' hr' r (by simp))
  · exact .inl rfl

theorem lastBound_holds : LastBound o category token (lastBound o category token) := by
  rw [lastBound]
  cases hbound : (givenFor o category token).reverse.findSome? (·.maxArity) with
  | none =>
      refine .inr ⟨fun r hr => ?_, rfl⟩
      rw [List.findSome?_eq_none_iff] at hbound
      exact hbound r (List.mem_reverse.mpr (mem_givenFor_iff.mpr hr))
  | some n =>
      obtain ⟨later, r, earlier, hsplit, hr, hlater⟩ := List.findSome?_eq_some_iff.mp hbound
      have hrules : givenFor o category token = earlier.reverse ++ r :: later.reverse := by
        rw [← List.reverse_reverse (givenFor o category token), hsplit]
        simp
      have hascending := givenFor_ascending o category token
      rw [hrules, List.pairwise_append] at hascending
      refine .inl ⟨r, ⟨⟨mem_givenFor_iff.mp (by simp [hrules]), by simp [hr]⟩, ?_⟩, hr.symm⟩
      -- a rule after `r` gives no bound
      rintro r' ⟨hr', hne⟩
      rw [← mem_givenFor_iff, hrules, List.mem_append, List.mem_cons] at hr'
      rcases hr' with hr' | rfl | hr'
      · exact .inr (hascending.2.2 r' hr' r (by simp))
      · exact .inl rfl
      · exact absurd (hlater r' (List.mem_reverse.mp hr')) hne

theorem lookup?_placeAll (o : RuleOverrides) (category : Category) (token : String) :
    RuleTable.lookup? ⟨placeAll RuleTable.default.entries o.rules⟩ category token =
      match (givenFor o category token).getLast? with
      | none => RuleTable.default.lookup? category token
      | some r => some { r with maxArity := lastBound o category token } := by
  have hdefault : RuleTable.default.lookup? category token =
      RuleTable.default.entries.find? (slot · = (category, wordKey token.toList)) :=
    find?_eq _ _ _
  rw [lastBound, hdefault, RuleTable.lookup?, find?_eq]
  exact (find?_placeAll _ _ _).trans (foldl_successor _ _)

theorem merged_placeAll (o : RuleOverrides) :
    Merged o ⟨placeAll RuleTable.default.entries o.rules⟩ where
  lookup category token := by
    rw [lookup?_placeAll]
    cases hlast : (givenFor o category token).getLast? with
    | none =>
        rw [List.getLast?_eq_none_iff] at hlast
        refine .inr ⟨fun r hr => ?_, rfl⟩
        have hmem := mem_givenFor_iff.mpr hr
        simp [hlast] at hmem
    | some r => exact .inl ⟨r, _, greatest_of_getLast? hlast, lastBound_holds, rfl⟩
  bounded category token r hr hbound := by
    rw [lookup?_placeAll, hr]
    cases (givenFor o category token).getLast? with
    | none => exact ⟨r, rfl, hbound⟩
    | some r' => exact ⟨_, rfl, by simp [lastBound, hr, hbound]⟩
  positions category := by
    rw [map_key_rules, map_key_rules]
    exact ((map_slot_prefix_placeAll _ _).filter _).map _

end Lookups

/-- A configuration fails exactly if one of its rules may not be stored, by the first such rule.
Otherwise its rules stand over the default ones, and the table that they make is accepted. -/
theorem ruleTable_merges (c : Config) :
    ((∃ e, c.ruleTable = .error e) ↔ ∃ category, ∃ r ∈ given c.rules category, ¬ Fits r) ∧
      match c.ruleTable with
      | .error e =>
          ∃ r, FirstFault c.rules r ∧ e = .override r.source (.invalid r.category r.source)
      | .ok rules =>
          Merged c.rules rules ∧ ∀ extra, ∃ t, Translator.ofTable rules extra = .ok t := by
  have hgiven : ∀ r, (∃ category, r ∈ given c.rules category) ↔ r ∈ c.rules.rules := by
    intro r
    rw [mem_rules_iff_given]
    exact ⟨fun ⟨category, hr⟩ => category_of_mem_given _ hr ▸ hr, fun hr => ⟨_, hr⟩⟩
  rw [Config.ruleTable, mergeRules_eq]
  cases hfault : c.rules.rules.find? (¬ Fits ·) with
  | some r =>
      obtain ⟨hr, before, after, hrules, hbefore⟩ := List.find?_eq_some_iff_append.mp hfault
      have hmem : r ∈ c.rules.rules := by simp [hrules]
      have hnot : ¬ Fits r := by simpa using hr
      obtain ⟨category, hcategory⟩ := (hgiven r).mpr hmem
      refine ⟨⟨fun _ => ⟨category, r, hcategory, hnot⟩, fun _ => ⟨_, rfl⟩⟩, r, ⟨?_, hnot, ?_⟩, rfl⟩
      · exact (mem_rules_iff_given _).mp hmem
      · intro r' hr' hnot'
        have horder := rules_pairwise_before c.rules
        rw [← mem_rules_iff_given, hrules, List.mem_append, List.mem_cons] at hr'
        rw [hrules, List.pairwise_append, List.pairwise_cons] at horder
        rcases hr' with hr' | rfl | hr'
        · exact absurd (by simpa using hbefore r' hr') hnot'
        · exact .inl rfl
        · exact .inr (horder.2.1.1 r' hr')
  | none =>
      have hfits : ∀ r ∈ c.rules.rules, Fits r := by simpa using hfault
      refine ⟨⟨by simp, ?_⟩, merged_placeAll _, ?_⟩
      · rintro ⟨category, r, hr, hnot⟩
        exact absurd (hfits r ((hgiven r).mp ⟨category, hr⟩)) hnot
      · exact exists_ofTable (wellFormed_placeAll default_wellFormed hfits)

end SpanishLua.Proofs.Merging
