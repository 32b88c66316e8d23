import SpanishLua.Proofs.Scanning
import SpanishLua.Proofs.Tables

namespace SpanishLua.Proofs.Resolution

open SpanishLua.Code
open SpanishLua.Proofs.Scanning
open SpanishLua.Proofs.Tables

/-- The rule is spelt as the word, and the word leads to it both in the table and by its target in
the vocabulary. -/
structure Resolves (t : RuleTable) (category : Category) (word : List Char) (r : Rule) : Prop where
  rule : r ∈ t.rules category
  source : r.source.toList = word
  lookup : t.lookup? category (String.ofList word) = some r
  target : (Vocabulary.ofTable t category).target? word = some r.target.toList

section Tables

variable {t : RuleTable} (ht : WellFormed t) {category : Category}
include ht

theorem target?_eq_target? (token : String) :
    (Vocabulary.ofTable t category).target? token.toList =
      (t.target? category token).map String.toList := by
  rw [target?_ofTable ht, RuleTable.target?, RuleTable.lookup?, Option.map_map]
  rfl

theorem resolves_of_mem {r : Rule} (hr : r ∈ t.rules category) :
    Resolves t category r.source.toList r := by
  refine ⟨hr, rfl, ?_, target?_of_rule ht hr⟩
  rw [String.ofList_toList, RuleTable.lookup?]
  exact (find?_eq_some_iff ht).mpr ⟨hr, rfl⟩

theorem exists_resolves {word : List Char} (hword : word ∈ (Vocabulary.ofTable t category).words) :
    ∃ r, Resolves t category word r := by
  obtain ⟨r, hr, rfl⟩ := mem_words_ofTable.mp hword
  exact ⟨r, resolves_of_mem ht hr⟩

end Tables

theorem Resolves.unique {t : RuleTable} {category : Category} {word : List Char} {r r' : Rule}
    (h : Resolves t category word r) (h' : Resolves t category word r') : r = r' :=
  Option.some.inj (h.lookup.symm.trans h'.lookup)

/-- In a table that passes its check, the vocabulary of a category has for every token, in whatever
case, the target that the table has. Its words are the sources of the category, each of which leads
to its own rule alone, and so does every word that a scanner accepts at a place. -/
theorem vocabulary_resolves {t : RuleTable} (h : t.validate = .ok ()) (category : Category) :
    (∀ token : String, (Vocabulary.ofTable t category).target? token.toList =
      (t.target? category token).map String.toList) ∧
    (∀ word ∈ (Vocabulary.ofTable t category).words, ∃! r, Resolves t category word r) ∧
    (∀ r ∈ t.rules category, r.source.toList ∈ (Vocabulary.ofTable t category).words ∧
      Resolves t category r.source.toList r) ∧
    ∀ (α : Type) (after : List Char) (accept : List Char → List Char → Option α) (a : α),
      firstWord? (Vocabulary.ofTable t category).words after accept = some a →
        ∃ word rest r, after = word ++ rest ∧ accept word rest = some a ∧
          Resolves t category word r := by
  have ht : WellFormed t := validate_eq_ok_iff.mp h
  refine ⟨target?_eq_target? ht, ?_, ?_, ?_⟩
  · intro word hword
    obtain ⟨r, hr⟩ := exists_resolves ht hword
    exact ⟨r, hr, fun r' hr' => hr'.unique hr⟩
  · intro r hr
    exact ⟨mem_words_ofTable.mpr ⟨r, hr, rfl⟩, resolves_of_mem ht hr⟩
  · intro α after accept a hfirst
    obtain ⟨word, hword, rest, hafter, haccept⟩ := exists_of_firstWord? hfirst
    obtain ⟨r, hr⟩ := exists_resolves ht hword
    exact ⟨word, rest, r, hafter, haccept, hr⟩

theorem vocabulary_resolves_sigma :
    let t : RuleTable := ⟨[⟨.keyword, "ΑΣ", "uno", none⟩, ⟨.keyword, "ασ", "dos", none⟩]⟩
    t.validate = .ok () ∧
      (Vocabulary.ofTable t .keyword).target? "ας".toList =
        (t.target? .keyword "ας").map String.toList ∧
      t.target? .keyword "ας" = some "uno" ∧
      Resolves t .keyword "ασ".toList ⟨.keyword, "ασ", "dos", none⟩ := by
  intro t
  have hruns : t.fault? = none ∧ t.target? .keyword "ας" = some "uno" := by decide +kernel
  have hvalidate : t.validate = .ok () := by rw [RuleTable.validate, hruns.1]
  obtain ⟨htargets, -, hrules, -⟩ := vocabulary_resolves hvalidate .keyword
  have hrule : (⟨.keyword, "ασ", "dos", none⟩ : Rule) ∈ t.rules .keyword := by
    simp [t, RuleTable.rules]
  exact ⟨hvalidate, htargets "ας", hruns.2, (hrules _ hrule).2⟩

end SpanishLua.Proofs.Resolution
