import SpanishLua.Proofs.Defaults
import SpanishLua.Proofs.Invariance

namespace SpanishLua.Proofs.Words

open SpanishLua.Code
open SpanishLua.Text
open SpanishLua.Proofs.Characters
open SpanishLua.Proofs.Recognisers
open SpanishLua.Proofs.Tables
open SpanishLua.Proofs.Defaults
open SpanishLua.Proofs.Places
open SpanishLua.Proofs.Invariance
open SpanishLua.Proofs.Stages

/-- The categories whose words a recogniser rewrites by themselves. -/
def lexical : List Category :=
  [.keyword, .globalFunction, .methodName, .propertyName, .mathFunction, .enumConstant]

theorem ne_enumMember {category : Category} (h : category ∈ lexical) : category ≠ .enumMember := by
  rintro rfl
  exact absurd h (by decide)

/-- A word of the dialect: some default rule or some fixed pattern puts something else for it. -/
inductive Dialect (word : List Char) : Prop
  | renamed (r : Rule) (hr : r ∈ RuleTable.default.entries) (hcategory : r.category ∈ lexical)
      (hsource : r.source.toList = word) (hchanged : r.target ≠ r.source)
  | family (r : Rule) (hr : r ∈ RuleTable.default.rules .enumFamily)
      (hsource : r.source.toList = word)
  | accessor (h : word = Service.accessor)
  | factory (h : word = "instancia_nueva".toList)
  | constructor (h : constructorEnding <:+ word)
  | bright (h : Enumeration.brightEnding <:+ word)

theorem dialect_iff {word : List Char} :
    Dialect word ↔
      (∃ x ∈ spellings.val, x.source = word ∧
        (x.category ∈ lexical ∧ x.target ≠ x.source ∨ x.category = .enumFamily)) ∨
      word = Service.accessor ∨ word = "instancia_nueva".toList ∨ constructorEnding <:+ word ∨
      Enumeration.brightEnding <:+ word := by
  rw [← spellings.property]
  simp only [List.mem_map, exists_exists_and_eq_and]
  constructor
  · rintro (⟨r, hr, hcategory, hsource, hchanged⟩ | ⟨r, hr, hsource⟩ | h | h | h | h)
    · refine .inl ⟨r, hr, hsource, .inl ⟨hcategory, fun heq => hchanged ?_⟩⟩
      exact String.toList_inj.mp heq
    · obtain ⟨hmem, hcategory⟩ := mem_rules_iff.mp hr
      exact .inl ⟨r, hmem, hsource, .inr hcategory⟩
    · exact .inr (.inl h)
    · exact .inr (.inr (.inl h))
    · exact .inr (.inr (.inr (.inl h)))
    · exact .inr (.inr (.inr (.inr h)))
  · rintro (⟨r, hr, hsource, ⟨hcategory, hchanged⟩ | hcategory⟩ | h | h | h | h)
    · exact .renamed r hr hcategory hsource fun heq => hchanged (congrArg String.toList heq)
    · exact .family r (mem_rules_iff.mpr ⟨hr, hcategory⟩) hsource
    · exact .accessor h
    · exact .factory h
    · exact .constructor h
    · exact .bright h

instance : DecidablePred Dialect := fun _ =>
  decidable_of_iff' _ dialect_iff

/-- The words of the default rules by category. -/
abbrev vocabulary (category : Category) : Vocabulary :=
  .ofTable RuleTable.default category

theorem wordRun_of_mem_vocabulary {category : Category} (hcategory : category ≠ .enumMember) :
    ∀ w ∈ (vocabulary category).words, WordRun w := by
  have hsupplies : Supplies (fun _ => True) RuleTable.default :=
    ⟨default_wellFormed, default_ascii, fun _ _ => trivial, fun _ _ => trivial⟩
  exact (hsupplies.proper hcategory).wordRun

theorem notMem_vocabulary {word : List Char} (hword : word ∈ ["math".toList, "elseif".toList])
    (category : Category) : word ∉ (vocabulary category).words := by
  have hsources : ∀ x ∈ spellings.val, x.source ∉ ["math".toList, "elseif".toList] := by
    decide +kernel
  intro hmem
  obtain ⟨r, hr, rfl⟩ := mem_words_ofTable.mp hmem
  exact forall_default hsources r (mem_rules_iff.mp hr).1 hword

theorem dialect_of_changed {category : Category} (hcategory : category ∈ lexical)
    {word : List Char} (hword : word ∈ (vocabulary category).words)
    (h : ((vocabulary category).target? word).getD word ≠ word) : Dialect word := by
  obtain ⟨r, hr, rfl, htarget⟩ := exists_rule_of_mem_words default_wellFormed hword
  obtain ⟨hmem, rfl⟩ := mem_rules_iff.mp hr
  refine .renamed r hmem hcategory rfl fun heq => h ?_
  rw [htarget, heq, Option.getD_some]

theorem dialect_of_family {word : List Char} (hword : word ∈ (vocabulary .enumFamily).words) :
    Dialect word := by
  obtain ⟨r, hr, hsource⟩ := mem_words_ofTable.mp hword
  exact .family r hr hsource

theorem dialect_of_method {word : List Char} (hword : word ∈ (vocabulary .methodName).words) :
    Dialect word := by
  have hchanged : ∀ x ∈ spellings.val, x.category = .methodName → x.target ≠ x.source := by
    decide +kernel
  obtain ⟨r, hr, rfl⟩ := mem_words_ofTable.mp hword
  obtain ⟨hmem, hcategory⟩ := mem_rules_iff.mp hr
  refine .renamed r hmem (by rw [hcategory]; decide) rfl fun heq => ?_
  exact forall_default hchanged r hmem hcategory (by rw [spell, heq])

theorem dialect_sino : Dialect "sino".toList :=
  .renamed ⟨.keyword, "sino", "else", none⟩ (by decide) (by decide) rfl (by decide)

theorem dialect_si : Dialect "si".toList :=
  .renamed ⟨.keyword, "si", "if", none⟩ (by decide) (by decide) rfl (by decide)

/-- The endings of the words that make up constructors and bright shades. -/
def Ending (word : List Char) : Prop :=
  constructorEnding <:+ word ∨ Enumeration.brightEnding <:+ word

instance : DecidablePred Ending := fun _ =>
  inferInstanceAs (Decidable (_ ∨ _))

theorem dialect_of_ending {word : List Char} (h : Ending word) : Dialect word :=
  h.elim .constructor .bright

theorem constructor_quiet {s : List Char} (h : Free Ending s) :
    Quiet (Call.constructor (vocabulary .constructorName)) s := by
  rintro before after hit rfl hclaim
  obtain ⟨hleft, name, hname, gap, hgap, rest, rfl, -⟩ := constructor_eq_some_iff.mp hclaim
  have hrun := hname.append wordRun_constructorEnding
  exact absurd (.inl (List.suffix_append _ _))
    (h.not_of_stands ⟨hrun, hleft, headIsWord_gap hgap rest⟩)

theorem bright_quiet {s : List Char} (h : Free Ending s) : Quiet Enumeration.bright s := by
  rintro before after hit rfl hclaim
  obtain ⟨hleft, colour, hcolour, rest, rfl, hright, -⟩ := exists_of_bright hclaim
  have hrun := hcolour.append wordRun_brightEnding
  rw [atBoundary_of_head (hrun.headIsWord_append rest)] at hleft
  exact absurd (.inr (List.suffix_append _ _)) (h.not_of_stands ⟨hrun, hleft, hright⟩)

section Free

variable {s : List Char} (h : Free Dialect s)

include h

theorem lookup_quiet : Quiet Service.lookup s := by
  rintro before after hit rfl hclaim
  obtain ⟨rest, rfl, hstands, -⟩ := lookup_eq_some_iff.mp hclaim
  exact absurd (.accessor rfl) (h.not_of_stands hstands)

theorem method_quiet : Quiet (Call.method (vocabulary .methodName)) s := by
  rintro before after hit rfl hclaim
  have hruns := wordRun_of_mem_vocabulary (by decide : Category.methodName ≠ .enumMember)
  obtain ⟨blanks, hblanks, word, hword, gap, hgap, rest, rfl, -⟩ :=
    (method_eq_some_iff hruns).mp hclaim
  have hcode : before ++ ':' :: (blanks ++ (word ++ (gap ++ '(' :: rest))) =
      (before ++ ':' :: blanks) ++ (word ++ (gap ++ '(' :: rest)) := by simp
  rw [hcode] at h
  have hleft : headIsWord (blanks.reverse ++ ':' :: before.reverse) = false :=
    headIsWord_of_gap (fun c hc => hblanks c (List.mem_reverse.mp hc)) (by decide)
  exact absurd (dialect_of_method hword)
    (h.not_of_stands ⟨hruns word hword, by simpa using hleft, headIsWord_gap hgap rest⟩)

theorem instanceFactory_quiet : Quiet Call.instanceFactory s := by
  rintro before after hit rfl hclaim
  obtain ⟨gap, hgap, rest, rfl, hleft, -⟩ := instanceFactory_eq_some_iff.mp hclaim
  exact absurd (.factory rfl)
    (h.not_of_stands ⟨wordRun_instanceFactory, hleft, headIsWord_gap hgap rest⟩)

theorem property_quiet : Quiet (Member.property (vocabulary .propertyName)) s := by
  rintro before after hit rfl hclaim
  have hruns := wordRun_of_mem_vocabulary (by decide : Category.propertyName ≠ .enumMember)
  obtain ⟨word, hword, rest, rfl, hright, rfl⟩ := (property_eq_some_iff hruns).mp hclaim
  have hcode : before ++ '.' :: (word ++ rest) = (before ++ ['.']) ++ (word ++ rest) := by simp
  rw [hcode] at h
  have hstands : Stands (before ++ ['.']).reverse word rest :=
    ⟨hruns word hword, by rw [List.reverse_concat]; rfl, hright⟩
  have hsame : ((vocabulary .propertyName).target? word).getD word = word := by
    by_contra hchanged
    exact h.not_of_stands hstands (dialect_of_changed (by decide) hword hchanged)
  rw [hsame, ite_self]

theorem mathFunction_quiet : Quiet (Member.mathFunction (vocabulary .mathFunction)) s := by
  rintro before after hit rfl hclaim
  have hruns := wordRun_of_mem_vocabulary (by decide : Category.mathFunction ≠ .enumMember)
  obtain ⟨word, hword, rest, rfl, -, hright, rfl⟩ := (mathFunction_eq_some_iff hruns).mp hclaim
  have hcode : before ++ (Member.mathLibrary ++ (word ++ rest)) =
      (before ++ Member.mathLibrary) ++ (word ++ rest) := by simp
  rw [hcode] at h
  have hleft : headIsWord (before ++ Member.mathLibrary).reverse = false := by
    rw [List.reverse_append, headIsWord_append (by decide)]
    decide
  have hsame : ((vocabulary .mathFunction).target? word).getD word = word := by
    by_contra hchanged
    exact h.not_of_stands ⟨hruns word hword, hleft, hright⟩
      (dialect_of_changed (by decide) hword hchanged)
  rw [hsame]

theorem item_quiet :
    Quiet (Enumeration.item (vocabulary .enumFamily) (vocabulary .enumMember)) s := by
  rintro before after hit rfl hclaim
  have hruns := wordRun_of_mem_vocabulary (by decide : Category.enumFamily ≠ .enumMember)
  obtain ⟨family, hfamily, member, rest, rfl, -, hleft, -⟩ := (item_eq_some_iff hruns).mp hclaim
  exact absurd (dialect_of_family hfamily) (h.not_of_stands ⟨hruns family hfamily, hleft, rfl⟩)

theorem constant_quiet {category : Category} (hcategory : category ∈ lexical) :
    Quiet (Enumeration.constant (vocabulary category)) s := by
  rintro before after hit rfl hclaim
  have hruns := wordRun_of_mem_vocabulary (ne_enumMember hcategory)
  obtain ⟨word, hword, rest, rfl, hstands, rfl⟩ := (constant_eq_some_iff hruns).mp hclaim
  have hsame : ((vocabulary category).target? word).getD word = word := by
    by_contra hchanged
    exact h.not_of_stands hstands (dialect_of_changed hcategory hword hchanged)
  rw [hsame, ite_self]

theorem elseIf_quiet : Quiet Keyword.elseIf s := by
  rintro before after hit rfl hclaim
  obtain ⟨gap, hne, hgap, rest, rfl, hleft, -⟩ := elseIf_eq_some_iff.mp hclaim
  have hblank := hgap.headIsWord_append hne ("si".toList ++ rest)
  exact absurd dialect_sino (h.not_of_stands ⟨by decide, hleft, hblank⟩)

theorem globalFunction_quiet : Quiet (Keyword.globalFunction (vocabulary .globalFunction)) s := by
  rintro before after hit rfl hclaim
  have hruns := wordRun_of_mem_vocabulary (by decide : Category.globalFunction ≠ .enumMember)
  obtain ⟨word, hword, gap, hgap, rest, rfl, hleft, rfl⟩ :=
    (globalFunction_eq_some_iff hruns).mp hclaim
  have hsame : ((vocabulary .globalFunction).target? word).getD word = word := by
    by_contra hchanged
    exact h.not_of_stands ⟨hruns word hword, hleft, headIsWord_gap hgap rest⟩
      (dialect_of_changed (by decide) hword hchanged)
  rw [hsame, ite_self]

end Free

/-- In a text without words of the dialect no recogniser has anything to change. -/
theorem quiet_of_free {s : List Char} (h : Free Dialect s) :
    (∀ find ∈ early (.ofTable RuleTable.default), Quiet find s) ∧
      ∀ find ∈ late (.ofTable RuleTable.default), Quiet find s := by
  simp only [early, late, List.forall_mem_cons, List.not_mem_nil, false_implies, implies_true,
    and_true]
  have hendings : Free Ending s := h.mono fun _ => dialect_of_ending
  exact ⟨⟨lookup_quiet h, method_quiet h⟩, constructor_quiet hendings, instanceFactory_quiet h,
    property_quiet h, mathFunction_quiet h, item_quiet h, constant_quiet h (by decide),
    bright_quiet hendings, elseIf_quiet h, globalFunction_quiet h, constant_quiet h (by decide)⟩

end SpanishLua.Proofs.Words
