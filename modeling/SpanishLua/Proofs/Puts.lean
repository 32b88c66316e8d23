import SpanishLua.Proofs.Counting
import SpanishLua.Proofs.Quoting
import SpanishLua.Proofs.Words

namespace SpanishLua.Proofs.Puts

open SpanishLua.Code
open SpanishLua.Text
open SpanishLua.Proofs.Recognisers
open SpanishLua.Proofs.Seams
open SpanishLua.Proofs.Tables
open SpanishLua.Proofs.Defaults
open SpanishLua.Proofs.Places
open SpanishLua.Proofs.Invariance
open SpanishLua.Proofs.Words
open SpanishLua.Proofs.Edits
open SpanishLua.Proofs.Counting
open SpanishLua.Proofs.Quoting

/-- The text lifts the depth of brackets by `n` and has nothing to do with literals. -/
structure Neutral (n : Nat) (s : List Char) : Prop where
  lift : Lift n s
  plain : ∀ c ∈ s, isQuote c = false ∧ c ≠ '\\'

/-- The type that the default rules bound. -/
def color3 : List Char :=
  "Color3".toList

/-- What is put for a claim leaves what stands before it and behind it as it reads. -/
structure Fit (before : List Char) (hit : Hit) (rest : List Char) : Prop where
  opens : Opens before hit
  closes : Closes hit rest
  foreign : Free Dialect hit.text
  library : ¬ "math".toList <:+ hit.text
  fresh : ¬ "new".toList <+: hit.text ∧ ¬ ".new".toList <+: hit.text
  neutral : ∃ n, Neutral n hit.taken ∧ Neutral n hit.text
  color : HasRun hit.text color3 →
    hit.taken = ".color".toList ∧ hit.text = ".Color3".toList

/-- Every claim that changes something fits. -/
def Fitting (find : Recogniser) : Prop :=
  ∀ before hit rest, find before (hit.taken ++ rest) = some hit → hit.text ≠ hit.taken →
    Fit before hit rest

/-- What holds of a text that is put for a whole word. -/
structure Tame (text : List Char) : Prop where
  foreign : Free Dialect text
  library : ¬ "math".toList <:+ text
  fresh : ¬ "new".toList <+: text
  neutral : Neutral 0 text

section Texts

variable {s t w : List Char}

theorem Neutral.append {m n : Nat} (hs : Neutral m s) (ht : Neutral n t) :
    Neutral (m + n) (s ++ t) :=
  ⟨hs.lift.append ht.lift, fun c hc => (List.mem_append.mp hc).elim (hs.plain c) (ht.plain c)⟩

theorem neutral_char {c : Char} (hbrackets : isOpener c = false ∧ isCloser c = false ∧ c ≠ ',')
    (hplain : isQuote c = false ∧ c ≠ '\\') : Neutral 0 [c] := by
  constructor
  · exact lift_zero fun d hd => List.mem_singleton.mp hd ▸ hbrackets
  · exact fun d hd => List.mem_singleton.mp hd ▸ hplain

theorem neutral_word (h : WordRun s) : Neutral 0 s :=
  ⟨lift_word h, plain_of_wordRun h⟩

theorem blank_nil : Blank [] := by
  simp [Blank]

theorem neutral_blanks (h : Blank s) : Neutral 0 s :=
  ⟨lift_zero fun c hc => plain_of_isBlank (h c hc), plain_of_blank h⟩

theorem neutral_opening (h : Blank s) : Neutral 1 (s ++ ['(']) := by
  have hplain : isQuote '(' = false ∧ '(' ≠ '\\' := by decide
  have hparen : Neutral 1 ['('] := ⟨lift_paren, fun c hc => List.mem_singleton.mp hc ▸ hplain⟩
  exact (neutral_blanks h).append hparen

theorem prefix_of_prefix_append (hw : WordRun w) (ht : headIsWord t = false) (h : w <+: s ++ t) :
    w <+: s := by
  obtain ⟨rest, hrest⟩ := h
  rcases List.append_eq_append_iff.mp hrest with ⟨more, hs, -⟩ | ⟨more, rfl, rfl⟩
  · exact ⟨more, hs.symm⟩
  · by_cases hmore : more = []
    · simp [hmore]
    · have hrun : WordRun more := ⟨hmore, fun c hc => hw.2 c (by simp [hc])⟩
      rw [hrun.headIsWord_append] at ht
      exact absurd ht (by decide)

theorem suffix_of_suffix_append (hw : WordRun w) (hs : headIsWord s.reverse = false)
    (h : w <:+ s ++ t) : w <:+ t := by
  rw [← List.reverse_prefix] at h ⊢
  rw [List.reverse_append] at h
  exact prefix_of_prefix_append hw.reverse hs h

theorem not_suffix_paren (hw : WordRun w) : ¬ w <:+ s ++ ['('] := by
  intro h
  rw [← List.append_nil (s ++ ['('])] at h
  have hnil : w <:+ [] := suffix_of_suffix_append hw (by rw [List.reverse_concat]; rfl) h
  exact hw.1 (List.suffix_nil.mp hnil)

end Texts

section Defaults

/-- No letter of the word is a capital. -/
def lower (w : List Char) : Bool :=
  w.all fun c => !(65 ≤ c.toNat && c.toNat ≤ 90)

/-- A number for a word, so that two words are compared at once. -/
def wordCode (w : List Char) : Nat :=
  w.foldl (fun n c => n * 2097152 + c.toNat) 0

/-- The rule makes its source a word of the dialect. -/
def isDialectal (x : Spelling) : Bool :=
  x.category ∈ lexical ∧ x.target ≠ x.source ∨ x.category = .enumFamily

theorem foreign_target : ∀ r ∈ RuleTable.default.entries, Free Dialect r.target.toList := by
  let codes := (spellings.val.filter isDialectal).map (wordCode ·.source)
  have hlower : ∀ x ∈ spellings.val.filter isDialectal, lower x.source = true := by decide +kernel
  -- most targets have a capital somewhere, and are not looked up
  have htargets : ∀ x ∈ spellings.val,
      Free (fun w => lower w = true ∧ wordCode w ∈ codes ∨ w = Service.accessor ∨
        w = "instancia_nueva".toList ∨ constructorEnding <:+ w ∨ Enumeration.brightEnding <:+ w)
        x.target := by
    decide +kernel
  intro r hr word hrun hdialect
  refine forall_default htargets r hr word hrun ?_
  rcases dialect_iff.mp hdialect with ⟨x, hx, rfl, hchanged⟩ | hfixed
  · have hmem : x ∈ spellings.val.filter isDialectal := by
      rw [List.mem_filter, isDialectal, decide_eq_true_eq]
      exact ⟨hx, hchanged⟩
    exact .inl ⟨hlower x hmem, List.mem_map_of_mem hmem⟩
  · exact .inr hfixed

theorem tame_target : ∀ r ∈ RuleTable.default.entries, Tame r.target.toList := by
  have hedges : ∀ x ∈ spellings.val,
      ¬ "math".toList <:+ x.target ∧ ¬ "new".toList <+: x.target ∧
        depthAfter? 0 x.target = some 0 := by
    decide +kernel
  intro r hr
  obtain ⟨hlibrary, hfresh, hdepth⟩ := forall_default hedges r hr
  exact ⟨foreign_target r hr, hlibrary, hfresh, lift_of_depthAfter? hdepth, plain_default r hr⟩

/-- How targets start and end. Only the length operator does not start as a word. -/
theorem ends_of_target : ∀ r ∈ RuleTable.default.entries,
    (headIsWord r.target.toList = true ∨ r.target.toList.head? = some '#') ∧
      (r.category ≠ .globalFunction →
        headIsWord r.target.toList = true ∧ headIsWord r.target.toList.reverse = true) ∧
      (r.category = .propertyName → WordRun r.target.toList) := by
  have hends : ∀ x ∈ spellings.val,
      (headIsWord x.target = true ∨ x.target.head? = some '#') ∧
        (x.category ≠ .globalFunction →
          headIsWord x.target = true ∧ headIsWord x.target.reverse = true) ∧
        (x.category = .propertyName → WordRun x.target) := by
    decide +kernel
  exact forall_default hends

theorem edges_of_target (r : Rule) (hr : r ∈ RuleTable.default.entries)
    (hcategory : r.category ≠ .globalFunction) :
    headIsWord r.target.toList = true ∧ headIsWord r.target.toList.reverse = true :=
  (ends_of_target r hr).2.1 hcategory

theorem free_color3_target : ∀ r ∈ RuleTable.default.entries, r.category ≠ .constructorName →
    Free (· = color3) r.target.toList ∨
      r.category = .propertyName ∧ r.source.toList = "color".toList ∧
        r.target.toList = "Color3".toList := by
  have hcolor : ∀ x ∈ spellings.val, x.category ≠ .constructorName →
      Free (· = color3) x.target ∨
        x.category = .propertyName ∧ x.source = "color".toList ∧ x.target = "Color3".toList := by
    decide +kernel
  exact forall_default hcolor

theorem exists_target {category : Category} {word : List Char}
    (hword : word ∈ (vocabulary category).words) :
    ∃ r ∈ RuleTable.default.entries, r.category = category ∧ r.source.toList = word ∧
      (vocabulary category).target? word = some r.target.toList := by
  obtain ⟨r, hr, hsource, htarget⟩ := exists_rule_of_mem_words default_wellFormed hword
  obtain ⟨hmem, hcategory⟩ := mem_rules_iff.mp hr
  exact ⟨r, hmem, hcategory, hsource, htarget⟩

theorem free_color3_of_category {r : Rule} (hr : r ∈ RuleTable.default.entries)
    (hconstructor : r.category ≠ .constructorName) (hproperty : r.category ≠ .propertyName) :
    Free (· = color3) r.target.toList :=
  (free_color3_target r hr hconstructor).resolve_right fun h => hproperty h.1

theorem wordRun_of_registered {family member rest target : List Char}
    (hmember : Enumeration.itemName? (member ++ rest) = some member)
    (htarget : (vocabulary .enumMember).target? (family ++ '.' :: member) = some target) :
    WordRun member ∧ headIsWord rest = false := by
  have hsupplies : Supplies (fun _ => True) RuleTable.default :=
    ⟨default_wellFormed, default_ascii, fun _ _ => trivial, fun _ _ => trivial⟩
  obtain ⟨-, -, hascii⟩ := hsupplies.members htarget
  obtain ⟨hne, hchars, rest', hrest, hends⟩ := exists_of_itemName? hmember
  obtain rfl : rest = rest' := List.append_cancel_left hrest
  have hrun : WordRun member :=
    ⟨hne, fun c hc => isWord_of_isItemChar (hascii c (by simp [hc])) (hchars c hc)⟩
  exact ⟨hrun, (endsAt_of_wordRun hrun).mp hends⟩

end Defaults

section Claims

variable {before rest : List Char} {hit : Hit}

theorem not_dotted_of_head {text : List Char}
    (h : headIsWord text = true ∨ text.head? = some '#') : ¬ ".new".toList <+: text := by
  rintro ⟨rest, rfl⟩
  simp [headIsWord, show isWord '.' = false by decide] at h

theorem fit_of_word (hleft : headIsWord before = false) (hstart : headIsWord hit.taken = true)
    (hend : headIsWord hit.taken.reverse = true) (hright : headIsWord rest = false)
    (hneutral : Neutral 0 hit.taken) (htame : Tame hit.text)
    (hedges : headIsWord hit.text = true ∧ headIsWord hit.text.reverse = true)
    (hcolor : Free (· = color3) hit.text) : Fit before hit rest where
  opens := .word hleft hstart (.inl hedges.1)
  closes := .word hend hedges.2 hright
  foreign := htame.foreign
  library := htame.library
  fresh := ⟨htame.fresh, not_dotted_of_head (.inl hedges.1)⟩
  neutral := ⟨0, hneutral, htame.neutral⟩
  color := fun h => absurd rfl (hcolor _ h)

theorem tame_fixed : ∀ s ∈ ["GetService".toList, "game:GetService".toList, "elseif".toList],
    Tame s ∧ (headIsWord s = true ∧ headIsWord s.reverse = true) ∧ Free (· = color3) s := by
  have hfixed : ∀ s ∈ ["GetService".toList, "game:GetService".toList, "elseif".toList],
      (Free Dialect s ∧ ¬ "math".toList <:+ s ∧ ¬ "new".toList <+: s) ∧
        (depthAfter? 0 s = some 0 ∧ s.all (fun c => !isQuote c && c != '\\') = true) ∧
        (headIsWord s = true ∧ headIsWord s.reverse = true) ∧ Free (· = color3) s := by
    decide +kernel
  intro s hs
  obtain ⟨⟨hforeign, hlibrary, hfresh⟩, ⟨hdepth, hplain⟩, hedges, hcolor⟩ := hfixed s hs
  refine ⟨⟨hforeign, hlibrary, hfresh, lift_of_depthAfter? hdepth, fun c hc => ?_⟩, hedges, hcolor⟩
  simpa using List.all_eq_true.mp hplain c hc

theorem fit_of_stands {word text : List Char} (hstands : Stands before word rest)
    (htame : Tame text) (hedges : headIsWord text = true ∧ headIsWord text.reverse = true)
    (hcolor : Free (· = color3) text) : Fit before ⟨word, text⟩ rest := by
  have hrun := hstands.wordRun
  exact fit_of_word hstands.left hrun.head hrun.reverse.head hstands.right
    (neutral_word hrun) htame hedges hcolor

theorem lookup_fitting : Fitting Service.lookup := by
  intro before hit rest hclaim hchanged
  obtain ⟨rest', hafter, hstands, rfl⟩ := lookup_eq_some_iff.mp hclaim
  obtain rfl : rest = rest' := List.append_cancel_left hafter
  have hfixed : (if inMemberPosition before then "GetService" else "game:GetService").toList ∈
      ["GetService".toList, "game:GetService".toList, "elseif".toList] := by
    split <;> simp
  obtain ⟨htame, hedges, hcolor⟩ := tame_fixed _ hfixed
  exact fit_of_stands hstands htame hedges hcolor

theorem constant_fitting {category : Category} (hcategory : category ∈ lexical)
    (hglobal : category ≠ .globalFunction) (hproperty : category ≠ .propertyName) :
    Fitting (Enumeration.constant (vocabulary category)) := by
  intro before hit rest hclaim hchanged
  obtain ⟨word, hword, rest', hafter, hstands, rfl⟩ :=
    (constant_eq_some_iff (wordRun_of_mem_vocabulary (ne_enumMember hcategory))).mp hclaim
  obtain rfl : rest = rest' := List.append_cancel_left hafter
  obtain ⟨r, hr, rfl, rfl, htarget⟩ := exists_target hword
  have hconstructor : r.category ≠ .constructorName := by
    intro h
    rw [h] at hcategory
    exact absurd hcategory (by decide)
  have htext : (if inMemberPosition before then r.source.toList
      else ((vocabulary r.category).target? r.source.toList).getD r.source.toList) =
        r.target.toList := by
    rw [htarget, Option.getD_some]
    by_cases hposition : inMemberPosition before = true
    · simp [hposition] at hchanged
    · rw [if_neg hposition]
  rw [htext]
  exact fit_of_stands hstands (tame_target r hr) (edges_of_target r hr hglobal)
    (free_color3_of_category hr hconstructor hproperty)

theorem elseIf_fitting : Fitting Keyword.elseIf := by
  intro before hit rest hclaim hchanged
  obtain ⟨gap, hne, hgap, rest', hafter, hleft, hright, rfl⟩ := elseIf_eq_some_iff.mp hclaim
  obtain rfl : rest = rest' := by simpa using hafter
  have hsino : WordRun "sino".toList := by decide
  have hsi : WordRun "si".toList := by decide
  obtain ⟨htame, hedges, hcolor⟩ := tame_fixed "elseif".toList (by simp)
  refine fit_of_word hleft ?_ ?_ hright ?_ htame hedges hcolor
  · rw [List.append_assoc]
    exact hsino.headIsWord_append _
  · rw [List.reverse_append]
    exact hsi.reverse.headIsWord_append _
  · exact ((neutral_word hsino).append (neutral_blanks hgap)).append (neutral_word hsi)

theorem fit_of_call {a t gap : List Char} (hopens : Opens before hit)
    (htaken : hit.taken = a ++ ['(']) (htext : hit.text = t ++ (gap ++ ['('])) (hgap : Blank gap)
    (hlift : Neutral 1 hit.taken) (hforeign : Free Dialect t) (hfresh : ¬ "new".toList <+: t)
    (hneutral : Neutral 0 t) (hcolor : Free (· = color3) t) : Fit before hit rest := by
  have hparen : hit.text = (t ++ gap) ++ ['('] := by simp [htext]
  refine ⟨hopens, .paren a (t ++ gap) htaken hparen, ?_, ?_, ⟨?_, ?_⟩, ⟨1, hlift, ?_⟩, ?_⟩
  · rw [htext]
    exact hforeign.append_opening hgap
  · rw [hparen]
    exact not_suffix_paren (by decide)
  · rw [htext]
    exact fun hprefix => hfresh
      (prefix_of_prefix_append (by decide) (headIsWord_gap hgap []) hprefix)
  · cases hopens with
    | word _ _ hhead => exact not_dotted_of_head hhead
    | colon _ b _ hcolon => simp [hcolon]
    | dot w b hw _ hdot _ =>
        have hmem : '(' ∈ '.' :: w := by simp [← hdot, htaken]
        exact absurd (hw.2 '(' (by simpa using hmem)) (by decide)
  · rw [htext]
    exact hneutral.append (neutral_opening hgap)
  · rw [htext]
    exact fun hrun => absurd rfl ((hcolor.append_opening hgap) _ hrun)

theorem globalFunction_fitting : Fitting (Keyword.globalFunction (vocabulary .globalFunction)) := by
  intro before hit rest hclaim hchanged
  have hruns := wordRun_of_mem_vocabulary (by decide : Category.globalFunction ≠ .enumMember)
  obtain ⟨word, hword, gap, hgap, rest', hafter, hleft, rfl⟩ :=
    (globalFunction_eq_some_iff hruns).mp hclaim
  have hrun := hruns word hword
  obtain ⟨r, hr, hcategory, rfl, htarget⟩ := exists_target hword
  have hne : r.target.toList ≠ [] := target_ne_nil default_wellFormed hr
  have htext : (if inMemberPosition before then r.source.toList
      else ((vocabulary .globalFunction).target? r.source.toList).getD r.source.toList) =
        r.target.toList := by
    rw [htarget, Option.getD_some]
    by_cases hposition : inMemberPosition before = true
    · simp [hposition] at hchanged
    · rw [if_neg hposition]
  rw [htext]
  have htame := tame_target r hr
  refine fit_of_call (.word hleft (hrun.headIsWord_append _) ?_) (List.append_assoc _ _ _).symm rfl
    hgap ((neutral_word hrun).append (neutral_opening hgap)) htame.foreign htame.fresh htame.neutral
    (free_color3_of_category hr (by rw [hcategory]; decide) (by rw [hcategory]; decide))
  rcases (ends_of_target r hr).1 with hhead | hhead
  · exact .inl (by rwa [headIsWord_append hne])
  · exact .inr (by rw [List.head?_append_of_ne_nil _ hne]; exact hhead)

theorem method_fitting : Fitting (Call.method (vocabulary .methodName)) := by
  intro before hit rest hclaim hchanged
  have hruns := wordRun_of_mem_vocabulary (by decide : Category.methodName ≠ .enumMember)
  obtain ⟨blanks, hblanks, word, hword, gap, hgap, rest', hafter, htaken, htext⟩ :=
    (method_eq_some_iff hruns).mp hclaim
  have hrun := hruns word hword
  obtain ⟨r, hr, hcategory, rfl, htarget⟩ := exists_target hword
  have htext : hit.text = (':' :: r.target.toList) ++ ([] ++ ['(']) := by
    rw [htext, htarget]
    rfl
  have htame := tame_target r hr
  have hcolon : Neutral 0 [':'] := neutral_char (by decide) (by decide)
  have hfree := free_color3_of_category hr (by rw [hcategory]; decide) (by rw [hcategory]; decide)
  have hlift : Neutral 1 hit.taken := by
    rw [htaken]
    exact hcolon.append ((neutral_blanks hblanks).append
      ((neutral_word hrun).append (neutral_opening hgap)))
  have hparen : hit.taken = (':' :: (blanks ++ (r.source.toList ++ gap))) ++ ['('] := by
    simp [htaken]
  exact fit_of_call (.colon _ _ htaken htext) hparen htext blank_nil hlift
    (htame.foreign.of_cons (by decide)) (by simp) (hcolon.append htame.neutral)
    (hfree.of_cons (by decide))

theorem instanceFactory_fitting : Fitting Call.instanceFactory := by
  intro before hit rest hclaim hchanged
  obtain ⟨gap, hgap, rest', hafter, hleft, rfl⟩ := instanceFactory_eq_some_iff.mp hclaim
  have hrun := wordRun_instanceFactory
  have hplain : "Instance.new".toList.all (fun c => !isQuote c && c != '\\') = true := by
    decide +kernel
  have hneutral : Neutral 0 "Instance.new".toList :=
    ⟨lift_of_depthAfter? (by decide), fun c hc => by simpa using List.all_eq_true.mp hplain c hc⟩
  have hforeign : Free Dialect "Instance.new".toList := by decide +kernel
  have hcolor : Free (· = color3) "Instance.new".toList := by decide +kernel
  have htext : "Instance.new(".toList = "Instance.new".toList ++ ([] ++ ['(']) := by decide
  have hcall := (neutral_word hrun).append (neutral_opening hgap)
  exact fit_of_call (.word hleft (hrun.headIsWord_append _) (.inl rfl))
    (List.append_assoc _ _ _).symm htext blank_nil hcall hforeign (by decide) hneutral hcolor

theorem property_fitting : Fitting (Member.property (vocabulary .propertyName)) := by
  intro before hit rest hclaim hchanged
  have hruns := wordRun_of_mem_vocabulary (by decide : Category.propertyName ≠ .enumMember)
  obtain ⟨word, hword, rest', hafter, hright, rfl⟩ := (property_eq_some_iff hruns).mp hclaim
  obtain rfl : rest = rest' := by simpa using hafter
  have hrun := hruns word hword
  obtain ⟨r, hr, hcategory, rfl, htarget⟩ := exists_target hword
  have htargetRun := (ends_of_target r hr).2.2 hcategory
  have htext : (if before.head? = some '.' then r.source.toList
      else ((vocabulary .propertyName).target? r.source.toList).getD r.source.toList) =
        r.target.toList := by
    rw [htarget, Option.getD_some]
    by_cases hdot : before.head? = some '.'
    · simp [hdot] at hchanged
    · rw [if_neg hdot]
  rw [htext]
  have htame := tame_target r hr
  have hmath : WordRun "math".toList := by decide
  have hdot : Neutral 0 ['.'] := neutral_char (by decide) (by decide)
  constructor
  · exact .dot _ _ hrun htargetRun rfl rfl
  · refine .word ?_ ?_ hright
    · rw [List.reverse_cons]
      exact hrun.reverse.headIsWord_append _
    · rw [List.reverse_cons]
      exact htargetRun.reverse.headIsWord_append _
  · exact htame.foreign.of_cons (by decide)
  · intro hsuffix
    exact htame.library (suffix_of_suffix_append hmath (s := ['.']) (by decide) hsuffix)
  · refine ⟨by simp, fun hprefix => htame.fresh ?_⟩
    exact (List.cons_prefix_cons.mp hprefix).2
  · exact ⟨0, hdot.append (neutral_word hrun), hdot.append htame.neutral⟩
  · intro hcolor
    rcases free_color3_target r hr (by rw [hcategory]; decide) with hfree | ⟨-, hsource, htarget'⟩
    · exact absurd rfl ((hfree.of_cons (by decide)) _ hcolor)
    · rw [hsource, htarget']
      exact ⟨rfl, rfl⟩

theorem Tame.dot {s t : List Char} (hforeign : Free Dialect s) (hfresh : ¬ "new".toList <+: s)
    (hneutral : Neutral 0 s) (ht : Tame t) : Tame (s ++ '.' :: t) := by
  have hdot : Neutral 0 ['.'] := neutral_char (by decide) (by decide)
  refine ⟨hforeign.append (.of_head rfl) (ht.foreign.of_cons (by decide)), ?_, ?_,
    hneutral.append (hdot.append ht.neutral)⟩
  · intro hsuffix
    rw [List.append_cons] at hsuffix
    exact ht.library
      (suffix_of_suffix_append (by decide) (by rw [List.reverse_concat]; rfl) hsuffix)
  · exact fun hprefix => hfresh (prefix_of_prefix_append (by decide) rfl hprefix)

theorem mathFunction_fitting : Fitting (Member.mathFunction (vocabulary .mathFunction)) := by
  intro before hit rest hclaim hchanged
  have hruns := wordRun_of_mem_vocabulary (by decide : Category.mathFunction ≠ .enumMember)
  obtain ⟨word, hword, rest', hafter, hleft, hright, rfl⟩ :=
    (mathFunction_eq_some_iff hruns).mp hclaim
  obtain rfl : rest = rest' := by simpa using hafter
  have hrun := hruns word hword
  obtain ⟨r, hr, hcategory, rfl, htarget⟩ := exists_target hword
  rw [htarget, Option.getD_some]
  have hmath : WordRun "math".toList := by decide
  have hdot : Neutral 0 ['.'] := neutral_char (by decide) (by decide)
  have hforeign : Free Dialect "math".toList := by decide +kernel
  have hne : r.target.toList ≠ [] := target_ne_nil default_wellFormed hr
  have hedges := edges_of_target r hr (by rw [hcategory]; decide)
  have hfree := free_color3_of_category hr (by rw [hcategory]; decide) (by rw [hcategory]; decide)
  refine fit_of_word hleft (hmath.headIsWord_append _) ?_ hright
    ((neutral_word hmath).append (hdot.append (neutral_word hrun)))
    (Tame.dot hforeign (by decide) (neutral_word hmath) (tame_target r hr)) ⟨rfl, ?_⟩ ?_
  · rw [List.reverse_append]
    exact hrun.reverse.headIsWord_append _
  · rw [List.reverse_append, headIsWord_append (by simpa using hne)]
    exact hedges.2
  · have hlibrary : Free (· = color3) "math".toList := by decide +kernel
    exact hlibrary.append (.of_head rfl) (hfree.of_cons (by decide))

theorem exists_of_item_changed
    (hclaim : Enumeration.item (vocabulary .enumFamily) (vocabulary .enumMember) before
      (hit.taken ++ rest) = some hit) (hchanged : hit.text ≠ hit.taken) :
    ∃ family ∈ (vocabulary .enumFamily).words, ∃ member,
      ∃ r ∈ RuleTable.default.rules .enumFamily, ∃ r' ∈ RuleTable.default.rules .enumMember,
        WordRun member ∧ headIsWord before = false ∧ headIsWord rest = false ∧
        inMemberPosition before = false ∧
        hit = ⟨family ++ '.' :: member, r.target.toList ++ '.' :: r'.target.toList⟩ := by
  have hruns := wordRun_of_mem_vocabulary (by decide : Category.enumFamily ≠ .enumMember)
  obtain ⟨family, hfamily, member, rest', _, _, hafter, hmember, hleft, hposition, hft, hmt, rfl,
    -⟩ := (item_changed_iff hruns).mp ⟨hclaim, hchanged⟩
  obtain rfl : rest = rest' := by simpa using hafter
  obtain ⟨hrun, hright⟩ := wordRun_of_registered hmember hmt
  obtain ⟨r, hr, -, rfl⟩ := exists_rule_of_target? default_wellFormed hft
  obtain ⟨r', hr', -, rfl⟩ := exists_rule_of_target? default_wellFormed hmt
  exact ⟨family, hfamily, member, r, hr, r', hr', hrun, hleft, hright, hposition, rfl⟩

theorem item_fitting :
    Fitting (Enumeration.item (vocabulary .enumFamily) (vocabulary .enumMember)) := by
  intro before hit rest hclaim hchanged
  obtain ⟨family, hfamily, member, r, hr, r', hr', hmember, hleft, hright, -, rfl⟩ :=
    exists_of_item_changed hclaim hchanged
  obtain ⟨hr, hcategory⟩ := mem_rules_iff.mp hr
  obtain ⟨hr', hcategory'⟩ := mem_rules_iff.mp hr'
  have hrun := wordRun_of_mem_vocabulary (by decide) family hfamily
  have hdot : Neutral 0 ['.'] := neutral_char (by decide) (by decide)
  have hne : r.target.toList ≠ [] := target_ne_nil default_wellFormed hr
  have hne' : r'.target.toList ≠ [] := target_ne_nil default_wellFormed hr'
  have hedges := edges_of_target r hr (by rw [hcategory]; decide)
  have hedges' := edges_of_target r' hr' (by rw [hcategory']; decide)
  have htame := tame_target r hr
  refine fit_of_word hleft (hrun.headIsWord_append _) ?_ hright
    ((neutral_word hrun).append (hdot.append (neutral_word hmember)))
    (Tame.dot htame.foreign htame.fresh htame.neutral (tame_target r' hr')) ⟨?_, ?_⟩ ?_
  · rw [List.append_cons, List.reverse_append]
    exact hmember.reverse.headIsWord_append _
  · rw [headIsWord_append hne]
    exact hedges.1
  · dsimp only
    rw [List.append_cons, List.reverse_append, headIsWord_append (by simpa using hne')]
    exact hedges'.2
  · have hfree := free_color3_of_category hr (by rw [hcategory]; decide) (by rw [hcategory]; decide)
    have hfree' :=
      free_color3_of_category hr' (by rw [hcategory']; decide) (by rw [hcategory']; decide)
    exact hfree.append (.of_head rfl) (hfree'.of_cons (by decide))

end Claims

end SpanishLua.Proofs.Puts
