import SpanishLua.Proofs.Items
import SpanishLua.Proofs.Loading
import SpanishLua.Proofs.Shades
import SpanishLua.Proofs.WholeWords

/-!
Items that a configuration registers. The scan for items finds every registered pair of an
enumeration and an item, but it sees what the scans before it have left, and those after it see
what it puts: a pair is resolved unless other rules take part of it first or change what it becomes.
-/

namespace SpanishLua.Proofs.Pairs

open SpanishLua.Code
open SpanishLua.Text
open SpanishLua.Proofs.Characters
open SpanishLua.Proofs.Scanning
open SpanishLua.Proofs.Recognisers
open SpanishLua.Proofs.Tables
open SpanishLua.Proofs.Lines
open SpanishLua.Proofs.Defaults
open SpanishLua.Proofs.Grammar
open SpanishLua.Proofs.Bounds
open SpanishLua.Proofs.Storing
open SpanishLua.Proofs.Merging
open SpanishLua.Proofs.Loading
open SpanishLua.Proofs.Places
open SpanishLua.Proofs.Words
open SpanishLua.Proofs.Evaluation
open SpanishLua.Proofs.Sweep
open SpanishLua.Proofs.Stages
open SpanishLua.Proofs.Severing
open SpanishLua.Proofs.WholeWords

/-- The item `member` of the enumeration `family`. -/
def pair (family member : List Char) : List Char :=
  family ++ '.' :: member

/-- The line that gives a variable a value. -/
def assigned (value : List Char) : List Char :=
  "x = ".toList ++ value

/-- The scan for items can read the pair: words of the text start with the enumeration's name, and
the item's name is one as a whole. -/
structure Legible (family member : List Char) : Prop where
  family : headIsWord family = true
  member : Enumeration.itemName? member = some member

/-- The text starts with the word, and the word ends there. -/
def Begins (word text : List Char) : Prop :=
  ∃ rest, text = word ++ rest ∧ endsAt [] word rest = true

/-- No rule and no pattern of the scans before that for items changes the pair: it has no accessor
of services in it, and the item is neither a property nor a function of `math`. -/
structure Spared (rules : RuleTable) (family member : List Char) : Prop where
  accessor : ¬ Delimited Service.accessor (assigned (pair family member))
  property : ∀ r ∈ rules.rules .propertyName, Begins r.source.toList member → r.target = r.source
  function : wordRun family.reverse = "math".toList.reverse → ∀ r ∈ rules.rules .mathFunction,
    Begins r.source.toList member → r.target = r.source

/-- The word stands in the text before `rest`, delimited and not as a member. -/
def StandsAlone (text word rest : List Char) : Prop :=
  ∃ before, text = before ++ (word ++ rest) ∧ inMemberPosition before.reverse = false ∧
    atBoundary before.reverse (word ++ rest) = true ∧ endsAt before.reverse word rest = true

/-- No rule and no pattern of the scans after that for items changes the text. -/
structure Kept (rules : RuleTable) (text : List Char) : Prop where
  constant : ∀ r ∈ rules.rules .enumConstant, ∀ rest,
    StandsAlone text r.source.toList rest → r.target = r.source
  shade : ∀ colour, WordRun colour → ¬ Delimited (colour ++ Enumeration.brightEnding) text
  continuation : ∀ gap, gap ≠ [] → Blank gap →
    ¬ Delimited ("sino".toList ++ gap ++ "si".toList) text
  function : ∀ r ∈ rules.rules .globalFunction, ∀ gap rest, Blank gap →
    StandsAlone text r.source.toList (gap ++ '(' :: rest) → r.target = r.source
  keyword : ∀ r ∈ rules.rules .keyword, ∀ rest,
    StandsAlone text r.source.toList rest → r.target = r.source

/-- What the scans after that for items make of a text. -/
def afterItems (rules : RuleTable) (s : List Char) : List Char :=
  rewriteWords rules (replaceAll Enumeration.bright
    (replaceAll (Enumeration.constant (.ofTable rules .enumConstant)) s))

section Characters

variable {s : List Char} {c : Char}

theorem notMem_of_identifying (h : Identifying s) (hc : continuesIdentifier c = false) : c ∉ s := by
  intro hmem
  rw [h c hmem] at hc
  exact absurd hc (by decide)

theorem wordRun_append_blank (s t : List Char) : wordRun (s ++ ' ' :: t) = wordRun s := by
  have hblank : (' ' :: t).takeWhile isWord = [] := List.takeWhile_cons_of_neg (by decide)
  rw [wordRun, wordRun, List.takeWhile_append, hblank, List.append_nil]
  split
  · rename_i hall
    exact ((List.takeWhile_prefix isWord).eq_of_length hall).symm
  · rfl

end Characters

section Line

variable {rules : RuleTable} {family member : List Char}

theorem begins_of_endsAt {category : Category} {before word rest : List Char}
    (hrules : WellFormed rules) (hcategory : category ≠ .enumMember)
    (hword : word ∈ (Vocabulary.ofTable rules category).words) (hrest : word ++ rest = member)
    (hends : endsAt before word rest = true) : Begins word member := by
  have hne := words_ne_nil hrules hcategory word hword
  exact ⟨rest, hrest.symm, (Items.endsAt_append (s := []) hne).symm.trans hends⟩

section Before

variable (hfamily : Identifying family) (hmember : Identifying member)

include hfamily hmember

theorem notMem_assigned_pair {c : Char} (hc : continuesIdentifier c = false)
    (hmarks : c ∉ "x = .".toList) : c ∉ assigned (pair family member) := by
  have hnotFamily := notMem_of_identifying hfamily hc
  have hnotMember := notMem_of_identifying hmember hc
  intro hmem
  rw [assigned, pair, List.mem_append, List.mem_append, List.mem_cons] at hmem
  rcases hmem with hmem | hmem | rfl | hmem
  · exact hmarks (List.mem_append_left ".".toList hmem)
  · exact hnotFamily hmem
  · exact hmarks (by decide)
  · exact hnotMember hmem

theorem quoteFree_assigned_pair : QuoteFree (assigned (pair family member)) := by
  intro c hc
  by_contra hquote
  have hmarks : c = '"' ∨ c = '\'' := by simpa [isQuote, -not_or, or_iff_not_imp_left] using hquote
  rcases hmarks with rfl | rfl
  · exact notMem_assigned_pair hfamily hmember (by decide) (by decide) hc
  · exact notMem_assigned_pair hfamily hmember (by decide) (by decide) hc

theorem split_at_dot {before rest : List Char}
    (h : assigned (pair family member) = before ++ '.' :: rest) :
    before = assigned family ∧ rest = member := by
  have hdot : continuesIdentifier '.' = false := by decide
  have hstart : '.' ∉ assigned family := by
    rw [assigned, List.mem_append, not_or]
    exact ⟨by decide, notMem_of_identifying hfamily hdot⟩
  have hline : assigned (pair family member) = assigned family ++ '.' :: member :=
    (List.append_assoc _ _ _).symm
  rw [hline,
    List.append_cons_inj_of_notMem hstart (notMem_of_identifying hmember hdot)] at h
  exact ⟨h.1.symm, h.2.2.symm⟩

theorem property_quiet (hrules : WellFormed rules) (hspared : Spared rules family member) :
    Quiet (Member.property (.ofTable rules .propertyName)) (assigned (pair family member)) := by
  intro before after hit hsplit hfind
  obtain ⟨word, hword, rest, rfl, hends, htaken, htext⟩ := exists_of_property hfind
  rcases htext with htext | ⟨target, htarget, htext⟩
  · exact htext
  · obtain ⟨-, hrest⟩ := split_at_dot hfamily hmember hsplit
    obtain ⟨r, hr, rfl, hsame⟩ := exists_rule_of_mem_words hrules hword
    have hbegins := begins_of_endsAt hrules (by decide) hword hrest hends
    obtain rfl := Option.some.inj (hsame.symm.trans htarget)
    rw [htext, htaken, hspared.property r hr hbegins]

theorem mathFunction_quiet (hrules : WellFormed rules) (hspared : Spared rules family member) :
    Quiet (Member.mathFunction (.ofTable rules .mathFunction))
      (assigned (pair family member)) := by
  intro before after hit hsplit hfind
  obtain ⟨word, hword, rest, rfl, hleft, hends, rfl⟩ := exists_of_mathFunction hfind
  have hdot : assigned (pair family member) =
      (before ++ "math".toList) ++ '.' :: (word ++ rest) := by
    rw [hsplit, List.append_assoc, List.append_assoc]
    rfl
  obtain ⟨hlibrary, hrest⟩ := split_at_dot hfamily hmember hdot
  have hrun : wordRun family.reverse = "math".toList.reverse := by
    have hbefore : headIsWord before.reverse = false := (atBoundary_of_head rfl).mp hleft
    have hmath : WordRun "math".toList.reverse := by decide
    calc wordRun family.reverse
        = wordRun (family.reverse ++ ' ' :: "x =".toList.reverse) :=
          (wordRun_append_blank _ _).symm
      _ = wordRun (assigned family).reverse := by rw [assigned, List.reverse_append]; rfl
      _ = wordRun ("math".toList.reverse ++ before.reverse) := by
          rw [← hlibrary, List.reverse_append]
      _ = "math".toList.reverse := hmath.takeWhile_append hbefore
  obtain ⟨r, hr, rfl, hsame⟩ := exists_rule_of_mem_words hrules hword
  have hbegins := begins_of_endsAt hrules (by decide) hword hrest hends
  rw [hsame, Option.getD_some, hspared.function hrun r hr hbegins]

theorem quiet_before_items (hrules : WellFormed rules) (hspared : Spared rules family member) :
    ∀ find ∈ early (.ofTable rules) ++ (late (.ofTable rules)).take 4,
      Quiet find (assigned (pair family member)) := by
  have hcolon : ':' ∉ assigned (pair family member) :=
    notMem_assigned_pair hfamily hmember (by decide) (by decide)
  have hparen : '(' ∉ assigned (pair family member) :=
    notMem_assigned_pair hfamily hmember (by decide) (by decide)
  simp only [early, late, List.cons_append, List.nil_append, List.take_succ_cons, List.take_zero,
    List.forall_mem_cons, List.not_mem_nil, false_implies, implies_true, and_true]
  refine ⟨?_, ?_, ?_, ?_, ?_, ?_⟩
  · intro before after hit hsplit h
    obtain ⟨rest, rfl, hleft, hends, -⟩ := exists_of_lookup h
    exact absurd ⟨before, rest, hsplit, hleft, hends⟩ hspared.accessor
  · exact method_quiet_of_notMem hcolon
  · exact constructor_quiet_of_notMem hparen
  · exact instanceFactory_quiet_of_notMem hparen
  · exact property_quiet hfamily hmember hrules hspared
  · exact mathFunction_quiet hfamily hmember hrules hspared

end Before

section Items

variable {families members : Vocabulary} {before familyTarget memberTarget : List Char}

theorem firstWord?_eq_some {α : Type} {words : List (List Char)} {word rest : List Char}
    {accept : List Char → List Char → Option α} {a : α} (hword : word ∈ words)
    (haccept : accept word rest = some a)
    (hunique : ∀ w r b, word ++ rest = w ++ r → accept w r = some b → w = word) :
    firstWord? words (word ++ rest) accept = some a := by
  cases hfirst : firstWord? words (word ++ rest) accept with
  | none =>
      have hnone := List.findSome?_eq_none_iff.mp hfirst word hword
      rw [isPrefixOf?_eq_some_iff.mpr rfl, Option.bind_some, haccept] at hnone
      exact absurd hnone (by simp)
  | some b =>
      obtain ⟨w, -, r, hsplit, hb⟩ := exists_of_firstWord? hfirst
      obtain rfl := hunique w r b hsplit hb
      obtain rfl := List.append_cancel_left hsplit
      rw [← hb, haccept]

theorem item_eq_some (hlegible : Legible family member) (hdots : '.' ∉ family ∧ '.' ∉ member)
    (hword : family ∈ families.words) (hbefore : headIsWord before = false)
    (hplace : inMemberPosition before = false)
    (hfamily : families.target? family = some familyTarget)
    (hmember : members.target? (pair family member) = some memberTarget) :
    Enumeration.item families members before (pair family member) =
      some ⟨pair family member, pair familyTarget memberTarget⟩ := by
  have hboundary : atBoundary before (pair family member) = true := by
    have hhead : headIsWord (pair family member) = true := by
      rw [pair, headIsWord_append]
      · exact hlegible.family
      · rintro rfl
        exact absurd hlegible.family (by decide)
    exact (atBoundary_of_head hhead).mpr hbefore
  rw [Enumeration.item, if_pos hboundary]
  refine firstWord?_eq_some hword ?_ fun w r b hsplit haccept => ?_
  · rw [pair] at hmember
    simp only [hlegible.member, Option.map_some, hplace, hfamily, hmember, pair]
  · split at haccept
    · rw [List.append_cons_inj_of_notMem hdots.1 hdots.2] at hsplit
      exact hsplit.1.symm
    · exact absurd haccept (by simp)

theorem item_eq_none {after : List Char} (hwords : ∀ w ∈ families.words, w ≠ [] ∧ Identifying w)
    (h : ∀ c word rest, Identifying (c :: word) → after ≠ c :: (word ++ '.' :: rest)) :
    Enumeration.item families members before after = none := by
  cases hfind : Enumeration.item families members before after with
  | none => rfl
  | some hit =>
      obtain ⟨word, hword, member, rest, hafter, -⟩ := exists_of_item hfind
      obtain ⟨hne, hidentifying⟩ := hwords word hword
      obtain ⟨c, word, rfl⟩ := List.exists_cons_of_ne_nil hne
      exact absurd hafter (h c word _ hidentifying)

/-- The scan for items puts the targets for the pair, and nothing else. -/
theorem replaceAll_item (hwords : ∀ w ∈ families.words, w ≠ [] ∧ Identifying w)
    (hlegible : Legible family member) (hdots : '.' ∉ family ∧ '.' ∉ member)
    (hword : family ∈ families.words) (hfamily : families.target? family = some familyTarget)
    (hmember : members.target? (pair family member) = some memberTarget) :
    replaceAll (Enumeration.item families members) (assigned (pair family member)) =
      assigned (pair familyTarget memberTarget) := by
  obtain ⟨hit, hhit⟩ : ∃ hit : Hit, hit = ⟨pair family member, pair familyTarget memberTarget⟩ :=
    ⟨_, rfl⟩
  have hclaim : Enumeration.item families members [' ', '=', ' ', 'x'] hit.taken = some hit := by
    rw [hhit]
    exact item_eq_some hlegible hdots hword rfl rfl hfamily hmember
  have hline : assigned (pair family member) = 'x' :: ' ' :: '=' :: ' ' :: hit.taken := by
    rw [hhit]
    rfl
  have hmark : ∀ c before rest, continuesIdentifier c = false →
      Enumeration.item families members before (c :: rest) = none := by
    intro c before rest hc
    refine item_eq_none hwords fun d word rest' hidentifying hsplit => ?_
    obtain ⟨rfl, -⟩ := List.cons.inj hsplit
    exact notMem_of_identifying hidentifying hc (by simp)
  have hvariable : Enumeration.item families members [] ('x' :: ' ' :: '=' :: ' ' :: hit.taken) =
      none := by
    refine item_eq_none hwords fun d word rest hidentifying hsplit => ?_
    rcases word with _ | ⟨c, word⟩
    · exact absurd (List.cons.inj (List.cons.inj hsplit).2).1 (by decide)
    · obtain ⟨rfl, -⟩ := List.cons.inj (List.cons.inj hsplit).2
      exact notMem_of_identifying hidentifying (by decide : continuesIdentifier ' ' = false)
        (by simp)
  rw [replaceAll, hline, replaceFrom_kept hvariable, replaceFrom_kept (hmark ' ' _ _ (by decide)),
    replaceFrom_kept (hmark '=' _ _ (by decide)), replaceFrom_kept (hmark ' ' _ _ (by decide)),
    replaceFrom_whole (item_sound _ _) hclaim, hhit]
  rfl

end Items

section After

variable {text : List Char}

theorem constant_quiet {category : Category} (hrules : WellFormed rules)
    (h : ∀ r ∈ rules.rules category, ∀ rest, StandsAlone text r.source.toList rest →
      r.target = r.source) :
    Quiet (Enumeration.constant (.ofTable rules category)) text := by
  intro before after hit hsplit hfind
  obtain ⟨word, hword, rest, rfl, hleft, hright, rfl⟩ := exists_of_constant hfind
  obtain ⟨r, hr, rfl, htarget⟩ := exists_rule_of_mem_words hrules hword
  cases hplace : inMemberPosition before.reverse with
  | true => rfl
  | false =>
      have hsame := h r hr rest ⟨before, hsplit, hplace, hleft, hright⟩
      rw [htarget, hsame]
      rfl

theorem afterItems_eq (hrules : WellFormed rules) (h : Kept rules text) :
    afterItems rules text = text := by
  have hconstant := constant_quiet hrules h.constant
  have hkeyword := constant_quiet hrules h.keyword
  have hbright : Quiet Enumeration.bright text := by
    intro before after hit hsplit hfind
    obtain ⟨hleft, colour, hcolour, rest, rfl, hright, -⟩ := exists_of_bright hfind
    have hends : endsAt before.reverse (colour ++ Enumeration.brightEnding) rest = true :=
      (endsAt_of_wordRun (hcolour.append wordRun_brightEnding)).mpr hright
    exact absurd ⟨before, rest, hsplit, hleft, hends⟩ (h.shade colour hcolour)
  have helseIf : Quiet Keyword.elseIf text := by
    intro before after hit hsplit hfind
    obtain ⟨hleft, gap, hne, hgap, rest, rfl, hright, -⟩ := exists_of_elseIf hfind
    exact absurd ⟨before, rest, hsplit, hleft, hright⟩ (h.continuation gap hne hgap)
  have hfunction : Quiet (Keyword.globalFunction (.ofTable rules .globalFunction)) text := by
    intro before after hit hsplit hfind
    obtain ⟨word, hword, gap, hgap, rest, rfl, hleft, hright, rfl⟩ := exists_of_globalFunction hfind
    obtain ⟨r, hr, rfl, htarget⟩ := exists_rule_of_mem_words hrules hword
    cases hplace : inMemberPosition before.reverse with
    | true => rfl
    | false =>
        have hsame := h.function r hr gap rest hgap ⟨before, hsplit, hplace, hleft, hright⟩
        rw [htarget, hsame]
        rfl
  have hsound : ∀ {category : Category}, category ≠ .enumMember →
      Sound (Enumeration.constant (.ofTable rules category)) :=
    fun hcategory => constant_sound (words_ne_nil hrules hcategory)
  rw [afterItems, hconstant.replaceAll_eq (hsound (by decide)), hbright.replaceAll_eq bright_sound,
    rewriteWords, Keyword.apply, helseIf.replaceAll_eq elseIf_sound,
    hfunction.replaceAll_eq (globalFunction_sound _), keyword_eq_constant,
    hkeyword.replaceAll_eq (hsound (by decide))]

end After

end Line

section Table

variable {rules : RuleTable} {family : Rule} {member : List Char}

theorem rewriteCode_pair (hrules : WellFormed rules) {family : List Char}
    (hfamily : Identifying family) (hmember : Identifying member)
    (hspared : Spared rules family member) :
    rewriteCode (.ofTable rules) (assigned (pair family member)) =
      .ok (afterItems rules (replaceAll (Enumeration.item (.ofTable rules .enumFamily)
        (.ofTable rules .enumMember)) (assigned (pair family member)))) := by
  have hvisible : ∃ c ∈ assigned (pair family member), isBlank c = false :=
    ⟨'x', by simp [assigned], by decide⟩
  have hparen : '(' ∉ assigned (pair family member) :=
    notMem_assigned_pair hfamily hmember (by decide) (by decide)
  rw [rewriteCode_of_quiet hrules hvisible (fun b _ => broken?_of_notMem hparen)
    (quiet_before_items hfamily hmember hrules hspared)]
  rfl

theorem translateLine_assigned_pair {extra : List String} {t : Translator}
    (ht : Translator.ofTable rules extra = .ok t) (hfamily : family ∈ rules.rules .enumFamily)
    (hmember : isIdentifier member = true) {r : Rule}
    (hpair : rules.find? .enumMember (wordKey (pair family.source.toList member)) = some r)
    (hlegible : Legible family.source.toList member)
    (hspared : Spared rules family.source.toList member) :
    t.translateLine (assigned (pair family.source.toList member)) =
      .ok (afterItems rules (assigned (pair family.target.toList r.target.toList))) := by
  obtain ⟨hrules, -, hlexicon⟩ := ofTable_eq_ok ht
  have hidentifiers : ∀ w ∈ (Vocabulary.ofTable rules .enumFamily).words, isIdentifier w = true :=
    fun w => isIdentifier_of_mem_words hrules (by decide)
  have hword : family.source.toList ∈ (Vocabulary.ofTable rules .enumFamily).words :=
    mem_words_ofTable.mpr ⟨family, hfamily, rfl⟩
  have hsource := (identifying_of_isIdentifier (hidentifiers _ hword)).2
  have hname := (identifying_of_isIdentifier hmember).2
  have hdots : '.' ∉ family.source.toList ∧ '.' ∉ member :=
    ⟨dot_notMem_of_isIdentifier (hidentifiers _ hword), dot_notMem_of_isIdentifier hmember⟩
  have htarget : (Vocabulary.ofTable rules .enumMember).target?
      (pair family.source.toList member) = some r.target.toList := by
    rw [target?_ofTable hrules, hpair, Option.map_some]
  rw [Shades.translateLine_of_lastCode (.inl (quoteFree_assigned_pair hsource hname)), hlexicon,
    rewriteCode_pair hrules hsource hname hspared,
    replaceAll_item (fun w hw => identifying_of_isIdentifier (hidentifiers w hw)) hlegible hdots
      hword (target?_of_rule hrules hfamily) htarget]

end Table

theorem lookup?_of_given {config : Config} {rules : RuleTable}
    (hconfig : config.ruleTable = .ok rules) {key target : String}
    (hgiven : (key, target) ∈ config.rules.enumMembers.entries) :
    Category.enumMember.admits key.toList = true ∧
      ∃ r, rules.lookup? .enumMember key = some r := by
  let given : Rule := { category := .enumMember, source := key, target }
  have hmem : GivenFor config.rules .enumMember key given := ⟨List.mem_map_of_mem hgiven, rfl⟩
  rw [Config.ruleTable, mergeRules_eq] at hconfig
  split at hconfig
  · simp at hconfig
  · rename_i hfits
    obtain rfl := Except.ok.inj hconfig
    constructor
    · have hgivenFits : Fits given := by
        simpa using List.find?_eq_none.mp hfits given ((mem_rules_iff_given _).mpr hmem.1)
      have hvalid := isValid_iff_fits.mpr hgivenFits
      rw [Rule.isValid, Bool.and_eq_true] at hvalid
      exact hvalid.1
    · rcases (merged_placeAll config.rules).lookup .enumMember key with
        ⟨r, bound, -, -, hr⟩ | ⟨hnone, -⟩
      · exact ⟨_, hr⟩
      · exact absurd hmem (hnone given)

/-- A pair that the configuration registers for an enumeration of the table is resolved, if the scan
for items can read it, no rule of an earlier scan takes part of it, and no rule of a later scan
changes what it becomes. Only the first two are needed for the scan for items itself. -/
theorem translateLine_pair {config : Config} {rules : RuleTable}
    (hconfig : config.ruleTable = .ok rules) (extra : List String) {family : Rule}
    (hfamily : family ∈ rules.rules .enumFamily) {member target : String}
    (hgiven : (family.source ++ "." ++ member, target) ∈ config.rules.enumMembers.entries) :
    ∃ t r, Translator.ofTable rules extra = .ok t ∧
      rules.lookup? .enumMember (family.source ++ "." ++ member) = some r ∧
      (Legible family.source.toList member.toList →
        Spared rules family.source.toList member.toList →
        t.translateLine (assigned (pair family.source.toList member.toList)) =
            .ok (afterItems rules (assigned (pair family.target.toList r.target.toList))) ∧
          (Kept rules (assigned (pair family.target.toList r.target.toList)) →
            t.translateLine (assigned (pair family.source.toList member.toList)) =
              .ok (assigned (pair family.target.toList r.target.toList)))) := by
  have hrules := wellFormed_of_ruleTable hconfig
  obtain ⟨t, ht⟩ := exists_ofTable hrules extra
  obtain ⟨hadmits, r, hr⟩ := lookup?_of_given hconfig hgiven
  have hkey : (family.source ++ "." ++ member).toList =
      pair family.source.toList member.toList := by
    simp [pair]
  have hmember : isIdentifier member.toList = true := by
    rw [hkey] at hadmits
    obtain ⟨first, second, hsplit, hfirst, hsecond⟩ := admits_enumMember_iff.mp hadmits
    rw [eq_comm, pair, List.append_cons_inj_of_notMem (dot_notMem_of_isIdentifier hfirst)
      (dot_notMem_of_isIdentifier hsecond)] at hsplit
    rw [← hsplit.2.2]
    exact hsecond
  refine ⟨t, r, ht, hr, fun hlegible hspared => ?_⟩
  rw [RuleTable.lookup?, hkey] at hr
  have hline := translateLine_assigned_pair ht hfamily hmember hr hlegible hspared
  refine ⟨hline, fun hkept => ?_⟩
  rw [hline, afterItems_eq hrules hkept]

section Registering

/-- The configuration that registers one pair. -/
def registering (key target : String) : Config where
  rules := { enumMembers := ⟨[(key, target)], List.pairwise_singleton _ _⟩ }

/-- The rule of a registered pair. -/
def pairRule (key target : String) : Rule where
  category := .enumMember
  source := key
  target := target

/-- The default rules and one more for a pair. -/
def extended (key target : String) : RuleTable where
  entries := RuleTable.default.entries ++ [pairRule key target]

variable {key target : String}

theorem ruleTable_registering (hfits : Fits (pairRule key target))
    (hnew : ∀ x ∈ spellings.val, x.category = .enumMember → wordKey x.source ≠ wordKey key.toList) :
    (registering key target).ruleTable = .ok (extended key target) := by
  have hrules : (registering key target).rules.rules = [pairRule key target] := rfl
  have hfree : RuleTable.default.entries.find? (slot · = slot (pairRule key target)) = none := by
    refine List.find?_eq_none.mpr fun r hr hslot => ?_
    obtain ⟨hcategory, hkey⟩ := Prod.mk.inj (of_decide_eq_true hslot)
    exact forall_default hnew r hr hcategory hkey
  rw [Config.ruleTable, mergeRules_eq, hrules, List.find?_cons_of_neg (by simpa using hfits),
    List.find?_nil, placeAll, List.foldl_cons, List.foldl_nil, place_of_free hfree]
  rfl

theorem rules_extended {category : Category} (hcategory : category ≠ .enumMember) :
    (extended key target).rules category = RuleTable.default.rules category := by
  simp [RuleTable.rules, extended, pairRule, Ne.symm hcategory]

theorem pairRule_mem : pairRule key target ∈ (extended key target).rules .enumMember :=
  mem_rules_iff.mpr ⟨by simp [extended], rfl⟩

theorem lookup?_extended (h : WellFormed (extended key target)) :
    (extended key target).lookup? .enumMember key = some (pairRule key target) :=
  (find?_eq_some_iff h).mpr ⟨pairRule_mem, rfl⟩

theorem ofTable_extended : Lexicon.ofTable (extended key target) =
    { Lexicon.ofTable RuleTable.default with
      enumMembers := ⟨(Vocabulary.ofTable (extended key target) .enumMember).words,
        ((pairRule key target).key, target.toList) :: targets .enumMember⟩ } := by
  have hvocabulary : ∀ {category : Category}, category ≠ .enumMember →
      Vocabulary.ofTable (extended key target) category =
        Vocabulary.ofTable RuleTable.default category := by
    intro category hcategory
    rw [Vocabulary.ofTable, rules_extended hcategory, Vocabulary.ofTable]
  have htargets : (Vocabulary.ofTable (extended key target) .enumMember).targets =
      ((pairRule key target).key, target.toList) :: targets .enumMember := by
    rw [targets_eq]
    simp [Vocabulary.ofTable, RuleTable.rules, extended, pairRule]
  have hbounds : Lexicon.boundsOf (extended key target) = Lexicon.boundsOf RuleTable.default := by
    rw [Lexicon.boundsOf, rules_extended (by decide), Lexicon.boundsOf]
  rw [← htargets]
  simp only [Lexicon.ofTable, Lexicon.mk.injEq]
  exact ⟨hvocabulary (by decide), hvocabulary (by decide), hvocabulary (by decide),
    hvocabulary (by decide), hvocabulary (by decide), hvocabulary (by decide),
    hvocabulary (by decide), hvocabulary (by decide), trivial, hvocabulary (by decide), hbounds⟩

/-- A line under the default rules and one more for a pair, run without sorting words. -/
theorem rewriteCode_extended (code : List Char) :
    rewriteCode (.ofTable (extended key target)) code =
      rewriteCode { spelledLexicon with
        enumMembers := ⟨(Vocabulary.ofTable (extended key target) .enumMember).words,
          ((pairRule key target).key, target.toList) :: targets .enumMember⟩ } code := by
  rw [ofTable_extended, rewriteCode, rewriteCode, applyAll_spelled_items]

end Registering

section Sparing

variable {key target : String} {text word rest : List Char}

theorem hasRun_of_delimited (hword : WordRun word) (h : Delimited word text) :
    HasRun text word := by
  obtain ⟨before, rest, rfl, hleft, hright⟩ := h
  exact ⟨before, rest, rfl, stands_of_boundaries hword hleft hright⟩

theorem same_of_free (htext : Free Dialect text) {category : Category}
    (hcategory : category ∈ lexical) {r : Rule} (hr : r ∈ RuleTable.default.rules category)
    (h : StandsAlone text r.source.toList rest) : r.target = r.source := by
  have hrun : WordRun r.source.toList :=
    wordRun_of_mem_vocabulary (ne_enumMember hcategory) _ (mem_words_ofTable.mpr ⟨r, hr, rfl⟩)
  obtain ⟨before, hsplit, -, hdelimited⟩ := h
  obtain ⟨hmem, rfl⟩ := mem_rules_iff.mp hr
  by_contra hchanged
  exact htext _ (hasRun_of_delimited hrun ⟨before, rest, hsplit, hdelimited⟩)
    (.renamed r hmem hcategory rfl hchanged)

theorem kept_of_free (htext : Free Dialect text) : Kept (extended key target) text where
  constant r hr rest h := by
    rw [rules_extended (by decide)] at hr
    exact same_of_free htext (by decide) hr h
  shade colour hcolour h :=
    htext _ (hasRun_of_delimited (hcolour.append wordRun_brightEnding) h)
      (.bright (List.suffix_append _ _))
  continuation gap hne hgap h := by
    obtain ⟨before, rest, rfl, hleft, -⟩ := h
    have hsino : WordRun "sino".toList := by decide
    have hblank := hgap.headIsWord_append hne ("si".toList ++ rest)
    rw [List.append_assoc, List.append_assoc] at hleft htext
    refine htext _ ⟨before, gap ++ ("si".toList ++ rest), rfl, hsino, ?_, hblank⟩ dialect_sino
    exact (atBoundary_of_head (hsino.headIsWord_append _)).mp hleft
  function r hr gap rest _ h := by
    rw [rules_extended (by decide)] at hr
    exact same_of_free htext (by decide) hr h
  keyword r hr rest h := by
    rw [rules_extended (by decide)] at hr
    exact same_of_free htext (by decide) hr h

theorem spared_of_foreign {family member : List Char} (hmember : WordRun member)
    (hforeign : ¬ Dialect member)
    (haccessor : Free (· = Service.accessor) (assigned (pair family member))) :
    Spared (extended key target) family member := by
  have hsame : ∀ {category : Category}, category ∈ lexical →
      ∀ r ∈ RuleTable.default.rules category, Begins r.source.toList member →
        r.target = r.source := by
    rintro category hcategory r hr ⟨rest, hsplit, hends⟩
    have hrun : WordRun r.source.toList :=
      wordRun_of_mem_vocabulary (ne_enumMember hcategory) _ (mem_words_ofTable.mpr ⟨r, hr, rfl⟩)
    have hstop := (endsAt_of_wordRun hrun).mp hends
    have hsource : r.source.toList = member := by
      rcases rest with _ | ⟨c, rest⟩
      · rw [hsplit, List.append_nil]
      · have hc := hmember.2 c (by simp [hsplit])
        rw [show isWord c = false from hstop] at hc
        exact absurd hc (by decide)
    obtain ⟨hmem, rfl⟩ := mem_rules_iff.mp hr
    by_contra hchanged
    exact hforeign (.renamed r hmem hcategory hsource hchanged)
  constructor
  · exact fun h => haccessor _ (hasRun_of_delimited wordRun_accessor h) rfl
  · rw [rules_extended (by decide)]
    exact hsame (by decide)
  · rw [rules_extended (by decide)]
    exact fun _ => hsame (by decide)

theorem material_mem : ∃ family ∈ RuleTable.default.rules .enumFamily,
    family.source = "material" ∧ family.target = "Enum.Material" := by
  refine ⟨⟨.enumFamily, "material", "Enum.Material", none⟩, ?_, rfl, rfl⟩
  refine mem_rules_iff.mpr ⟨?_, rfl⟩
  simp [RuleTable.default, Rule.Defaults.plain, Rule.Defaults.enumFamilies]

end Sparing

theorem translateLine_pair_granito :
    ∃ rules t, (registering "material.Granito" "Granite").ruleTable = .ok rules ∧
      (∃ family ∈ rules.rules .enumFamily,
        family.source = "material" ∧ family.target = "Enum.Material") ∧
      Translator.ofTable rules [] = .ok t ∧
      Legible "material".toList "Granito".toList ∧
      Spared rules "material".toList "Granito".toList ∧
      Kept rules "x = Enum.Material.Granite".toList ∧
      t.translateLine "x = material.Granito".toList = .ok "x = Enum.Material.Granite".toList := by
  have hnew : ∀ x ∈ spellings.val, x.category = .enumMember →
      wordKey x.source ≠ wordKey "material.Granito".toList := by
    decide +kernel
  have hrules : (registering "material.Granito" "Granite").ruleTable =
      .ok (extended "material.Granito" "Granite") :=
    ruleTable_registering (by decide +kernel) hnew
  obtain ⟨family, hfamily, hsource, htarget⟩ := material_mem
  have hmem : family ∈ (extended "material.Granito" "Granite").rules .enumFamily := by
    rwa [rules_extended (by decide)]
  have hkey : family.source ++ "." ++ "Granito" = "material.Granito" := by
    rw [hsource]
    decide
  have hgiven : (family.source ++ "." ++ "Granito", "Granite") ∈
      (registering "material.Granito" "Granite").rules.enumMembers.entries := by
    rw [hkey]
    exact List.mem_singleton_self _
  obtain ⟨t, r, ht, hlookup, hresolved⟩ := translateLine_pair hrules [] hmem hgiven
  have hr : r.target = "Granite" := by
    rw [hkey, lookup?_extended (wellFormed_of_ruleTable hrules)] at hlookup
    rw [← Option.some.inj hlookup]
    rfl
  have hlegible : Legible "material".toList "Granito".toList := ⟨by decide, by decide +kernel⟩
  have hspared : Spared (extended "material.Granito" "Granite") "material".toList
      "Granito".toList :=
    spared_of_foreign (by decide) (by decide +kernel) (by decide +kernel)
  have hkept : Kept (extended "material.Granito" "Granite")
      "x = Enum.Material.Granite".toList :=
    kept_of_free (by decide +kernel)
  rw [hsource, htarget, hr] at hresolved
  exact ⟨_, t, hrules, ⟨family, hmem, hsource, htarget⟩, ht, hlegible, hspared, hkept,
    (hresolved hlegible hspared).2 hkept⟩

/-- With one registered item of `material` the line comes out as `lua`. -/
def ComesOut (key target line lua : String) : Prop :=
  ∃ rules t, (registering key target).ruleTable = .ok rules ∧
    (∃ family ∈ rules.rules .enumFamily,
      family.source = "material" ∧ family.target = "Enum.Material") ∧
    rules.target? .enumMember key = some target ∧ Translator.ofTable rules [] = .ok t ∧
    t.translateLine line.toList = .ok lua.toList

theorem comesOut_of_rewriteCode {key target line lua : String} (hfits : Fits (pairRule key target))
    (hnew : ∀ x ∈ spellings.val, x.category = .enumMember → wordKey x.source ≠ wordKey key.toList)
    (hquotes : line.toList.all (!isQuote ·) = true)
    (hline : rewriteCode { spelledLexicon with
      enumMembers := ⟨(Vocabulary.ofTable (extended key target) .enumMember).words,
        ((pairRule key target).key, target.toList) :: targets .enumMember⟩ } line.toList =
          .ok lua.toList) :
    ComesOut key target line lua := by
  have hrules := ruleTable_registering hfits hnew
  have hwellFormed := wellFormed_of_ruleTable hrules
  obtain ⟨t, ht⟩ := exists_ofTable hwellFormed []
  obtain ⟨family, hfamily, hsource, htarget⟩ := material_mem
  have hfree : QuoteFree line.toList := by
    intro c hc
    simpa using List.all_eq_true.mp hquotes c hc
  refine ⟨_, t, hrules, ⟨family, ?_, hsource, htarget⟩, ?_, ht, ?_⟩
  · rwa [rules_extended (by decide)]
  · rw [RuleTable.target?, lookup?_extended hwellFormed]
    rfl
  · rw [Shades.translateLine_of_lastCode (.inl hfree), (ofTable_eq_ok ht).2.2,
      rewriteCode_extended, hline]

/-- A registered item that is also a property goes the way of the property, a keyword in what an
item becomes is translated in its turn, and an item whose name does not end as words do is not
found. -/
theorem translateLine_pair_unresolved :
    ComesOut "material.color" "Color" "x = material.color" "x = material.Color3" ∧
      ComesOut "material.Granito" "Granite y Neon" "x = material.Granito"
        "x = Enum.Material.Granite and Neon" ∧
      ComesOut "material.a²" "A" "x = material.a²" "x = material.a²" := by
  have hnew : ∀ x ∈ spellings.val, x.category = .enumMember →
      wordKey x.source ≠ wordKey "material.color".toList ∧
        wordKey x.source ≠ wordKey "material.Granito".toList ∧
        wordKey x.source ≠ wordKey "material.a²".toList := by
    decide +kernel
  refine ⟨comesOut_of_rewriteCode (by decide +kernel) (fun x hx hmember => (hnew x hx hmember).1)
      (by decide) (by decide +kernel),
    comesOut_of_rewriteCode (by decide +kernel) (fun x hx hmember => (hnew x hx hmember).2.1)
      (by decide) (by decide +kernel),
    comesOut_of_rewriteCode (by decide +kernel) (fun x hx hmember => (hnew x hx hmember).2.2)
      (by decide) (by decide +kernel)⟩

end SpanishLua.Proofs.Pairs
