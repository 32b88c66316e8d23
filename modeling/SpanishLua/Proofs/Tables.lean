import Mathlib.Data.List.Nodup
import SpanishLua.Proofs.Characters
import SpanishLua.Rule.Vocabulary

namespace SpanishLua.Proofs.Tables

/-- Every rule is valid, and no category has two rules under one key. -/
structure WellFormed (t : RuleTable) : Prop where
  valid : ∀ r ∈ t.entries, r.isValid = true
  distinct : ∀ category, ((t.rules category).map Rule.key).Nodup

theorem faultAmong?_eq_none_iff {seen : List (List Char)} {rules : List Rule} :
    RuleTable.faultAmong? seen rules = none ↔
      (∀ r ∈ rules, r.isValid = true ∧ r.key ∉ seen) ∧ (rules.map Rule.key).Nodup := by
  induction rules generalizing seen with
  | nil => simp [RuleTable.faultAmong?]
  | cons r rules ih =>
      rw [RuleTable.faultAmong?]
      by_cases hvalid : r.isValid = true
      · by_cases hseen : r.key ∈ seen
        · simp [hvalid, hseen]
        · simp only [hvalid, Bool.not_true, Bool.false_eq_true, ↓reduceIte, List.contains_eq_mem,
            hseen, decide_false, ih, List.mem_cons, not_or, forall_eq_or_imp, not_false_eq_true,
            List.map_cons, List.nodup_cons, List.mem_map, true_and]
          constructor
          · rintro ⟨hrest, hnodup⟩
            refine ⟨fun r' hr' => ⟨(hrest r' hr').1, (hrest r' hr').2.2⟩, ?_, hnodup⟩
            rintro ⟨r', hr', hkey⟩
            exact (hrest r' hr').2.1 hkey
          · rintro ⟨hrest, hfresh, hnodup⟩
            refine ⟨fun r' hr' => ⟨(hrest r' hr').1, ?_, (hrest r' hr').2⟩, hnodup⟩
            intro hkey
            exact hfresh ⟨r', hr', hkey⟩
      · simp [hvalid]

theorem mem_rules_iff {t : RuleTable} {category : Category} {r : Rule} :
    r ∈ t.rules category ↔ r ∈ t.entries ∧ r.category = category := by
  simp [RuleTable.rules]

theorem mem_all (category : Category) : category ∈ Category.all := by
  cases category <;> decide

theorem fault?_eq_none_iff {t : RuleTable} : t.fault? = none ↔ WellFormed t := by
  simp only [RuleTable.fault?, List.findSome?_eq_none_iff, faultAmong?_eq_none_iff]
  constructor
  · intro h
    refine ⟨fun r hr => ?_, fun category => (h category (mem_all category)).2⟩
    exact ((h r.category (mem_all r.category)).1 r (mem_rules_iff.mpr ⟨hr, rfl⟩)).1
  · intro h category _
    refine ⟨fun r hr => ⟨h.valid r (mem_rules_iff.mp hr).1, by simp⟩, h.distinct category⟩

theorem validate_eq_ok_iff {t : RuleTable} : t.validate = .ok () ↔ WellFormed t := by
  rw [← fault?_eq_none_iff, RuleTable.validate]
  cases t.fault? <;> simp

theorem mem_words_ofTable {t : RuleTable} {category : Category} {word : List Char} :
    word ∈ (Vocabulary.ofTable t category).words ↔
      ∃ r ∈ t.rules category, r.source.toList = word := by
  simp [Vocabulary.ofTable, Vocabulary.longestFirst]

theorem continuesIdentifier_of_isIdentifier {s : List Char} (h : isIdentifier s = true) :
    ∀ c ∈ s, Text.continuesIdentifier c = true := by
  rcases s with _ | ⟨c, rest⟩
  · simp
  · rw [isIdentifier, Bool.and_eq_true, List.all_eq_true] at h
    intro d hd
    rcases List.mem_cons.mp hd with rfl | hd
    · exact Characters.continuesIdentifier_of_starts h.1
    · exact h.2 d hd

theorem isIdentifier_of_mem_words {t : RuleTable} (ht : WellFormed t) {category : Category}
    (hcategory : category ≠ .enumMember) {word : List Char}
    (hword : word ∈ (Vocabulary.ofTable t category).words) : isIdentifier word = true := by
  obtain ⟨r, hr, rfl⟩ := mem_words_ofTable.mp hword
  obtain ⟨hmem, rfl⟩ := mem_rules_iff.mp hr
  have hvalid := ht.valid r hmem
  rw [Rule.isValid, Bool.and_eq_true, Rule.hasValidSource, Category.admits] at hvalid
  · exact hvalid.1
  · exact hcategory

theorem words_ne_nil {t : RuleTable} (ht : WellFormed t) {category : Category}
    (hcategory : category ≠ .enumMember) :
    ∀ word ∈ (Vocabulary.ofTable t category).words, word ≠ [] := by
  rintro word hword rfl
  exact absurd (isIdentifier_of_mem_words ht hcategory hword) (by decide)

theorem find?_eq_some_iff {t : RuleTable} (ht : WellFormed t) {category : Category}
    {key : List Char} {r : Rule} :
    t.find? category key = some r ↔ r ∈ t.rules category ∧ r.key = key := by
  constructor
  · intro h
    exact ⟨List.mem_of_find?_eq_some h, by simpa using List.find?_some h⟩
  · rintro ⟨hmem, rfl⟩
    have hsome : (t.find? category r.key).isSome := by
      rw [RuleTable.find?, List.find?_isSome]
      exact ⟨r, hmem, by simp⟩
    obtain ⟨r', hfind⟩ := Option.isSome_iff_exists.mp hsome
    have hmem' := List.mem_of_find?_eq_some hfind
    have hkey : r'.key = r.key := by simpa using List.find?_some hfind
    rw [hfind, List.inj_on_of_nodup_map (ht.distinct category) hmem' hmem hkey]

/-- The vocabulary keeps the last target of a key and the table finds its first rule: with distinct
keys, both are the only one. -/
theorem target?_ofTable {t : RuleTable} (ht : WellFormed t) (category : Category)
    (token : List Char) :
    (Vocabulary.ofTable t category).target? token =
      (t.find? category (wordKey token)).map (·.target.toList) := by
  apply Option.ext
  intro target
  simp only [Vocabulary.target?, Vocabulary.ofTable, List.lookup_eq_some_iff,
    Option.map_eq_some_iff, find?_eq_some_iff ht]
  constructor
  · rintro ⟨left, right, hsplit, -⟩
    have hmem : (wordKey token, target) ∈
        ((t.rules category).map fun r => (r.key, r.target.toList)).reverse := by
      rw [hsplit]
      simp
    simp only [List.mem_reverse, List.mem_map, Prod.mk.injEq] at hmem
    obtain ⟨r, hr, hkey, htarget⟩ := hmem
    exact ⟨r, ⟨hr, hkey⟩, htarget⟩
  · rintro ⟨r, ⟨hr, hkey⟩, rfl⟩
    obtain ⟨left, right, hsplit⟩ := List.append_of_mem hr
    have hnodup := ht.distinct category
    rw [hsplit, List.map_append, List.map_cons, List.nodup_append] at hnodup
    refine ⟨(right.map fun r => (r.key, r.target.toList)).reverse,
      (left.map fun r => (r.key, r.target.toList)).reverse, by simp [hsplit, hkey], ?_⟩
    intro p hp
    simp only [List.mem_reverse, List.mem_map] at hp
    obtain ⟨r', hr', rfl⟩ := hp
    rw [← hkey]
    have hfresh := (List.nodup_cons.mp hnodup.2.1).1
    simp only [bne_iff_ne, ne_eq]
    intro heq
    exact hfresh (List.mem_map.mpr ⟨r', hr', heq.symm⟩)

theorem exists_rule_of_target? {t : RuleTable} (ht : WellFormed t) {category : Category}
    {token target : List Char} (h : (Vocabulary.ofTable t category).target? token = some target) :
    ∃ r ∈ t.rules category, r.key = wordKey token ∧ r.target.toList = target := by
  rw [target?_ofTable ht, Option.map_eq_some_iff] at h
  obtain ⟨r, hfind, htarget⟩ := h
  obtain ⟨hmem, hkey⟩ := (find?_eq_some_iff ht).mp hfind
  exact ⟨r, hmem, hkey, htarget⟩

theorem target?_of_rule {t : RuleTable} (ht : WellFormed t) {category : Category} {r : Rule}
    (hr : r ∈ t.rules category) :
    (Vocabulary.ofTable t category).target? r.source.toList = some r.target.toList := by
  have hfind : t.find? category (wordKey r.source.toList) = some r :=
    (find?_eq_some_iff ht).mpr ⟨hr, rfl⟩
  rw [target?_ofTable ht, hfind, Option.map_some]

theorem exists_rule_of_mem_words {t : RuleTable} (ht : WellFormed t) {category : Category}
    {word : List Char} (h : word ∈ (Vocabulary.ofTable t category).words) :
    ∃ r ∈ t.rules category, r.source.toList = word ∧
      (Vocabulary.ofTable t category).target? word = some r.target.toList := by
  obtain ⟨r, hr, rfl⟩ := mem_words_ofTable.mp h
  exact ⟨r, hr, rfl, target?_of_rule ht hr⟩

theorem target_ne_nil {t : RuleTable} (ht : WellFormed t) {r : Rule} (hr : r ∈ t.entries) :
    r.target.toList ≠ [] := by
  have hvalid := ht.valid r hr
  simp only [Rule.isValid, Bool.and_eq_true, bne_iff_ne, ne_eq] at hvalid
  simpa using hvalid.2

end SpanishLua.Proofs.Tables
