import SpanishLua.Proofs.Items
import SpanishLua.Proofs.Untouched

namespace SpanishLua.Proofs.Settling

open SpanishLua.Code
open SpanishLua.Text
open SpanishLua.Proofs.Scanning
open SpanishLua.Proofs.Recognisers
open SpanishLua.Proofs.Sweep
open SpanishLua.Proofs.Tables
open SpanishLua.Proofs.Lines
open SpanishLua.Proofs.Defaults
open SpanishLua.Proofs.Places
open SpanishLua.Proofs.Stages
open SpanishLua.Proofs.Words
open SpanishLua.Proofs.Untouched
open SpanishLua.Proofs.Edits
open SpanishLua.Proofs.Counting
open SpanishLua.Proofs.Puts
open SpanishLua.Proofs.Reflections
open SpanishLua.Proofs.Items

/-- Neither a word with one of the two endings nor a colour constructed as a member is in the
text. -/
structure Clean (s : List Char) : Prop where
  endings : Free Ending s
  colour : ¬ ".color.new".toList <:+: s

section Edits

variable {es : List Edit}

theorem new_kept {left right : List Edit} (h : Fits (left ++ right)) {r : List Char}
    (hresult : result right = ".new".toList ++ r) :
    ∃ rest, right = kept ".new".toList ++ rest ∧ result rest = r := by
  have hnew : WordRun "new".toList := by decide
  have hdot : result right = '.' :: ("new".toList ++ r) := hresult
  rcases Aligned.dot_cases h.aligned hdot with
    ⟨right, rfl, hrest⟩ | ⟨hit, right, a, b, rfl, -, hb, -, htext, hrest⟩
  · have hbehind : Aligned ((left ++ [.keep '.']) ++ right) := by simpa using h.aligned
    rcases hbehind.word_head hnew hrest with ⟨rest, rfl, htail⟩ | ⟨hit, rest, rfl, hfresh⟩
    · exact ⟨rest, rfl, htail⟩
    · exact absurd hfresh (h (left ++ [.keep '.']) hit rest (by simp)).fresh.1
  · exfalso
    have hfresh : "new".toList <+: b := h.aligned.word_text (a := ['.']) htext hb.1 hnew hrest
    refine (h left hit right rfl).fresh.2 ?_
    rw [htext]
    exact List.cons_prefix_cons.mpr ⟨rfl, hfresh⟩

theorem dialect_color : Dialect "color".toList :=
  .renamed ⟨.propertyName, "color", "Color3", none⟩ (by simp [RuleTable.default,
    Rule.Defaults.plain, Rule.Defaults.properties]) (by decide) rfl (by decide)

theorem Clean.of_source (hclean : Clean (source es)) (h : Fits es) : Clean (result es) := by
  constructor
  · intro word hrun hending
    exact hclean.endings word (h.hasRun_source (dialect_of_ending hending) hrun) hending
  · rintro ⟨p, r, hresult⟩
    have hregroup : result es = (p ++ ['.']) ++ ("color".toList ++ (".new".toList ++ r)) := by
      simp [← hresult]
    obtain ⟨left, right, rfl, hleft, hright, -⟩ := h.run_kept hregroup
      ⟨by decide, by rw [List.reverse_concat]; rfl, rfl⟩ dialect_color
    obtain ⟨start, rfl, -⟩ := h.aligned.keep_last hleft (by decide) (by decide)
    have hbehind : Fits ((start ++ [.keep '.'] ++ kept "color".toList) ++ right) := by simpa using h
    obtain ⟨rest, rfl, -⟩ := new_kept hbehind hright
    exact hclean.colour ⟨source start, source rest, by simp⟩

theorem arguments_kept {left right : List Edit} (h : Fits (left ++ right)) {gap r : List Char}
    (hgap : Blank gap) (hresult : result right = gap ++ '(' :: r) {n : Nat} (hn : 0 < n)
    (hcount : n < (countArguments r).1) :
    ∃ rest, right = kept gap ++ .keep '(' :: rest ∧ n < (countArguments (source rest)).1 := by
  obtain ⟨rest, rfl, rfl⟩ := h.aligned.keep_opening hgap hresult
  refine ⟨rest, rfl, ?_⟩
  have hlifts : ∀ hit, .put hit ∈ rest → ∃ n, Lift n hit.taken ∧ Lift n hit.text := by
    intro hit hhit
    obtain ⟨before, after, rfl⟩ := List.append_of_mem hhit
    obtain ⟨n, htaken, htext⟩ :=
      (h (left ++ (kept gap ++ .keep '(' :: before)) hit after (by simp)).neutral
    exact ⟨n, htaken.lift, htext.lift⟩
  rw [← Nat.not_le, countArguments_le_iff hn] at hcount ⊢
  rwa [scanArguments_result hlifts] at hcount

/-- A call that breaks the bound in the new text did so in the old one, unless the name of its type
has been put in for a member. -/
theorem Excess.of_result_or_color (h : Fits es) {p r : List Char}
    (hexcess : Excess (result es) p r) :
    (∃ p' r', Excess (source es) p' r') ∨
      ∃ left hit right, es = left ++ .put hit :: right ∧ hit.taken = ".color".toList ∧
        ".new".toList <+: source right := by
  obtain ⟨⟨hleft, gap, hgap, hresult⟩, hcount⟩ := hexcess
  have hregroup : result es = p ++ (color3 ++ (".new".toList ++ (gap ++ '(' :: r))) := hresult
  rcases h.aligned.run_cases hregroup ⟨by decide, hleft, rfl⟩ with
    ⟨left, right, rfl, -, hright, hstands⟩ |
    ⟨left, hit, right, a, b, rfl, htext, hstands, -, hright⟩
  · have hbehind : Fits ((left ++ kept color3) ++ right) := by simpa using h
    obtain ⟨right, rfl, hopening⟩ := new_kept hbehind hright
    have hcall : Fits ((left ++ kept color3 ++ kept ".new".toList) ++ right) := by simpa using h
    obtain ⟨rest, rfl, hsource⟩ := arguments_kept hcall hgap hopening (by decide) hcount
    have hname : color3New = color3 ++ ".new".toList := rfl
    exact .inl ⟨source left, source rest, ⟨hstands.left, gap, hgap, by simp [hname]⟩, hsource⟩
  · obtain ⟨htaken, htext'⟩ := (h left hit right rfl).color ⟨a, b, htext, hstands⟩
    have hsplit : ".Color3".toList = a ++ (color3 ++ b) := htext'.symm.trans htext
    have hlength := congrArg List.length hsplit
    obtain rfl : b = [] := by
      rcases a with _ | ⟨c, a⟩
      · exact absurd (congrArg List.head? hsplit) (by simp [color3])
      · refine List.length_eq_zero_iff.mp ?_
        simp only [List.length_append, List.length_cons, show color3.length = 6 from rfl,
          show ".Color3".toList.length = 7 from rfl] at hlength
        omega
    have hbehind : Fits ((left ++ [.put hit]) ++ right) := by simpa using h
    obtain ⟨rest, rfl, -⟩ := new_kept hbehind hright.symm
    exact .inr ⟨left, hit, _, rfl, htaken, by simp⟩

theorem Excess.of_result (h : Fits es) (hcolour : ¬ ".color.new".toList <:+: source es)
    {p r : List Char} (hexcess : Excess (result es) p r) : ∃ p' r', Excess (source es) p' r' := by
  rcases Excess.of_result_or_color h hexcess with
    hkept | ⟨left, hit, right, rfl, htaken, rest, hnew⟩
  · exact hkept
  · exact absurd ⟨source left, rest, by simp [htaken, ← hnew]⟩ hcolour

end Edits

/-- The recogniser of items under the default rules. -/
def items : Recogniser :=
  Enumeration.item (vocabulary .enumFamily) (vocabulary .enumMember)

/-- The recognisers before that of items. -/
def naming : List Recogniser :=
  [Service.lookup, Call.method (vocabulary .methodName),
   Call.constructor (vocabulary .constructorName), Call.instanceFactory,
   Member.property (vocabulary .propertyName), Member.mathFunction (vocabulary .mathFunction)]

/-- The recognisers after that of items. -/
def aside : List Recogniser :=
  [Enumeration.constant (vocabulary .enumConstant), Enumeration.bright, Keyword.elseIf,
   Keyword.globalFunction (vocabulary .globalFunction),
   Enumeration.constant (vocabulary .keyword)]

theorem early_append_late :
    early (.ofTable RuleTable.default) ++ late (.ofTable RuleTable.default) =
      naming ++ items :: aside :=
  rfl

theorem items_mem : items ∈ naming ++ items :: aside :=
  List.mem_append_right _ List.mem_cons_self

/-- What the recogniser changes fits, it finds again what it would have found before other edits,
and its claims do not hide each other. -/
structure Regular (find : Recogniser) : Prop where
  fitting : Fitting find
  reflects : ∀ es, Fits es → Reflects find es
  exposed : ∀ s, Exposed find s

theorem regular_constant {category : Category} (hcategory : category ∈ lexical)
    (hglobal : category ≠ .globalFunction) (hproperty : category ≠ .propertyName) :
    Regular (Enumeration.constant (vocabulary category)) :=
  ⟨constant_fitting hcategory hglobal hproperty, fun _ h => constant_reflects h hcategory,
    fun _ => constant_exposed (wordRun_of_mem_vocabulary (ne_enumMember hcategory))⟩

theorem regular_or_quiet {find : Recogniser} (hfind : find ∈ naming ++ aside) :
    Regular find ∨ ∀ s, Clean s → Quiet find s := by
  have hruns : ∀ {category : Category}, category ≠ .enumMember →
      ∀ w ∈ (vocabulary category).words, WordRun w := wordRun_of_mem_vocabulary
  simp only [naming, aside, List.cons_append, List.nil_append, List.mem_cons, List.not_mem_nil,
    or_false] at hfind
  rcases hfind with rfl | rfl | rfl | rfl | rfl | rfl | rfl | rfl | rfl | rfl | rfl
  · exact .inl ⟨lookup_fitting, fun _ => lookup_reflects, fun _ => lookup_exposed⟩
  · exact .inl ⟨method_fitting, fun _ => method_reflects,
      fun _ => method_exposed (hruns (by decide))⟩
  · exact .inr fun s hclean => constructor_quiet hclean.endings
  · exact .inl ⟨instanceFactory_fitting, fun _ => instanceFactory_reflects,
      fun _ => instanceFactory_exposed⟩
  · exact .inl ⟨property_fitting, fun _ => property_reflects,
      fun _ => property_exposed (hruns (by decide))⟩
  · exact .inl ⟨mathFunction_fitting, fun _ => mathFunction_reflects,
      fun _ => mathFunction_exposed (hruns (by decide)) (notMem_vocabulary (by simp) _)⟩
  · exact .inl (regular_constant (by decide) (by decide) (by decide))
  · exact .inr fun s hclean => bright_quiet hclean.endings
  · exact .inl ⟨elseIf_fitting, fun _ => elseIf_reflects, fun _ => elseIf_exposed⟩
  · exact .inl ⟨globalFunction_fitting, fun _ => globalFunction_reflects,
      fun _ => globalFunction_exposed (hruns (by decide))⟩
  · exact .inl (regular_constant (by decide) (by decide) (by decide))

section Scripts

variable {find : Recogniser} {es : List Edit} (hclean : Clean (source es))
  (hscript : Script find [] es)

include hclean hscript

omit hclean in
theorem not_put_of_quiet (hquiet : Quiet find (source es)) {left right : List Edit} {hit : Hit} :
    es ≠ left ++ .put hit :: right := by
  intro hes
  obtain ⟨hclaim, hchanged⟩ := hscript.put left hit right hes
  rw [List.append_nil] at hclaim
  exact hchanged (hquiet (source left) (hit.taken ++ source right) hit (by simp [hes]) hclaim)

theorem fits_of_mem (hfind : find ∈ naming ++ items :: aside) : Fits es := by
  have hcases : find ∈ naming ++ aside ∨ find = items := by
    simp only [List.mem_append, List.mem_cons] at hfind ⊢
    tauto
  rcases hcases with hfind | rfl
  · rcases regular_or_quiet hfind with hregular | hquiet
    · exact fits_of_script hregular.fitting hscript
    · exact fun left hit right hes => absurd hes (not_put_of_quiet hscript (hquiet _ hclean))
  · exact fits_of_script item_fitting hscript

theorem naming_of_mem (hfind : find ∈ naming) {hit : Hit} (hhit : .put hit ∈ es) : Naming hit := by
  obtain ⟨left, right, hes⟩ := List.append_of_mem hhit
  obtain ⟨hclaim, hchanged⟩ := hscript.put left hit right hes
  simp only [naming, List.mem_cons, List.not_mem_nil, or_false] at hfind
  rcases hfind with rfl | rfl | rfl | rfl | rfl | rfl
  · exact lookup_naming hclaim
  · exact method_naming hclaim
  · exact absurd hes (not_put_of_quiet hscript (constructor_quiet hclean.endings))
  · exact instanceFactory_naming hclaim
  · exact property_naming hclaim
  · exact mathFunction_naming hclaim

theorem aside_of_mem (hfind : find ∈ items :: aside) : Aside es := by
  intro left hit right hes
  obtain ⟨hclaim, hchanged⟩ := hscript.put left hit right hes
  rw [List.append_nil] at hclaim
  simp only [aside, List.mem_cons, List.not_mem_nil, or_false] at hfind
  rcases hfind with rfl | rfl | rfl | rfl | rfl | rfl
  · exact (item_aside hclaim hchanged).imp_right .inl
  · exact (constant_aside (by decide) hclaim hchanged).imp_right .inl
  · exact absurd hes (not_put_of_quiet hscript (bright_quiet hclean.endings))
  · exact (elseIf_aside hclaim).imp_right .inr
  · exact (globalFunction_aside hclaim hchanged).imp_right .inl
  · exact (constant_aside (by decide) hclaim hchanged).imp_right .inl

end Scripts

/-- A clean text in which no name of which `N` holds runs on. -/
structure Tidy (N : List Char → List Char → Prop) (s : List Char) : Prop where
  clean : Clean s
  within : ¬ Overruns N s

theorem Tidy.registered {s : List Char} (h : Tidy AnyName s) : Tidy Registered s :=
  ⟨h.clean, fun hover => h.within hover.anyName⟩

section Steps

variable {find g : Recogniser} {s : List Char}

theorem exists_edits (hfind : find ∈ naming ++ items :: aside) (hclean : Clean s) :
    ∃ es, source es = s ∧ result es = replaceAll find s ∧ Script find [] es ∧ Fits es := by
  have hsound : Sound find := sound_of_mem default_wellFormed (by rwa [early_append_late])
  obtain ⟨es, rfl, hresult, hscript⟩ := exists_script hsound [] s
  exact ⟨es, rfl, hresult, hscript, fits_of_mem hclean hscript hfind⟩

theorem Clean.replaceEach_keeps {P : List Char → Prop}
    (hP : ∀ es, Fits es → Clean (source es) → P (source es) → P (result es))
    {finds : List Recogniser} (hfinds : ∀ find ∈ finds, find ∈ naming ++ items :: aside)
    (hclean : Clean s) (hs : P s) : Clean (replaceEach finds s) ∧ P (replaceEach finds s) := by
  induction finds generalizing s with
  | nil => exact ⟨hclean, hs⟩
  | cons find finds ih =>
      obtain ⟨es, rfl, hresult, -, hfits⟩ := exists_edits (hfinds find (by simp)) hclean
      rw [replaceEach_cons, ← hresult]
      exact ih (fun f hf => hfinds f (by simp [hf])) (hclean.of_source hfits)
        (hP es hfits hclean hs)

theorem quiet_step (hfind : find ∈ naming ++ items :: aside) (hg : g ∈ naming ++ aside)
    (hclean : Clean s) (hquiet : Quiet g s) : Quiet g (replaceAll find s) := by
  obtain ⟨es, rfl, hresult, -, hfits⟩ := exists_edits hfind hclean
  rw [← hresult]
  rcases regular_or_quiet hg with hregular | hclear
  · exact quiet_of_reflects (hregular.reflects es hfits) hquiet
  · exact hclear _ (hclean.of_source hfits)

theorem quiet_self (hfind : find ∈ naming ++ aside) (hclean : Clean s) :
    Quiet find (replaceAll find s) := by
  have hmem : find ∈ naming ++ items :: aside := by
    simp only [List.mem_append, List.mem_cons] at hfind ⊢
    tauto
  obtain ⟨es, rfl, hresult, hscript, hfits⟩ := exists_edits hmem hclean
  rw [← hresult]
  rcases regular_or_quiet hfind with hregular | hclear
  · exact quiet_of_script hscript (hregular.reflects es hfits) (hregular.exposed _)
  · exact hclear _ (hclean.of_source hfits)

theorem naming_step (hfind : find ∈ naming) (h : Tidy AnyName s) :
    Tidy AnyName (replaceAll find s) := by
  obtain ⟨es, rfl, hresult, hscript, hfits⟩ :=
    exists_edits (List.mem_append_left _ hfind) h.clean
  rw [← hresult]
  exact ⟨h.clean.of_source hfits,
    fun hover => h.within (hover.of_result hfits fun _ => naming_of_mem h.clean hscript hfind)⟩

theorem aside_step (hfind : find ∈ items :: aside) (h : Tidy Registered s) :
    Tidy Registered (replaceAll find s) := by
  obtain ⟨es, rfl, hresult, hscript, hfits⟩ :=
    exists_edits (List.mem_append_right _ hfind) h.clean
  rw [← hresult]
  exact ⟨h.clean.of_source hfits,
    fun hover => h.within (hover.of_result_aside hfits (aside_of_mem h.clean hscript hfind))⟩

theorem items_step (hfind : find ∈ items :: aside) (h : Tidy Registered s)
    (hquiet : Quiet items s) : Quiet items (replaceAll find s) := by
  obtain ⟨es, rfl, hresult, hscript, hfits⟩ :=
    exists_edits (List.mem_append_right _ hfind) h.clean
  rw [← hresult]
  exact quiet_of_reflects (item_reflects hfits (aside_of_mem h.clean hscript hfind) h.within) hquiet

theorem items_self (h : Tidy AnyName s) : Quiet items (replaceAll items s) := by
  obtain ⟨es, rfl, hresult, hscript, hfits⟩ := exists_edits items_mem h.clean
  rw [← hresult]
  have haside := aside_of_mem h.clean hscript List.mem_cons_self
  exact quiet_of_script hscript (item_reflects hfits haside h.registered.within)
    (item_exposed h.within)

end Steps

section Runs

variable {code lua : List Char}

theorem quiet_all (h : Tidy AnyName code) :
    ∀ g ∈ naming ++ items :: aside, Quiet g (replaceEach (naming ++ items :: aside) code) := by
  have hnaming : Tidy AnyName (replaceEach naming code) ∧
      ∀ g ∈ [] ++ naming, Quiet g (replaceEach naming code) :=
    quiet_replaceEach (Tidy AnyName) (fun find hfind s => naming_step hfind)
      (fun find hfind s hs => quiet_self (List.mem_append_left _ hfind) hs.clean)
      (fun find hfind g hg s hs =>
        quiet_step (List.mem_append_left _ hfind) (List.mem_append_left _ hg) hs.clean)
      h (by simp)
  obtain ⟨htidy, hquiet⟩ := hnaming
  rw [replaceEach_append, replaceEach_cons, List.append_cons]
  -- the first half holds its own, and with the items found the second half does
  refine (quiet_replaceEach (Tidy Registered)
    (fun find hfind s => aside_step (List.mem_cons_of_mem _ hfind))
    (fun find hfind s hs => quiet_self (List.mem_append_right _ hfind) hs.clean)
    (fun find hfind g hg s hs hgs => ?_)
    (aside_step List.mem_cons_self htidy.registered) (fun g hg => ?_)).2
  · have hmem : find ∈ naming ++ items :: aside :=
      List.mem_append_right _ (List.mem_cons_of_mem _ hfind)
    have hcases : g ∈ naming ++ aside ∨ g = items := by
      simp only [List.mem_append, List.mem_singleton] at hg ⊢
      tauto
    rcases hcases with hg | rfl
    · exact quiet_step hmem hg hs.clean hgs
    · exact items_step (List.mem_cons_of_mem _ hfind) hs hgs
  · rcases List.mem_append.mp hg with hg | hg
    · exact quiet_step items_mem (List.mem_append_left _ hg) htidy.clean (hquiet g hg)
    · rw [List.mem_singleton.mp hg]
      exact items_self htidy

theorem mem_of_mem_early {find : Recogniser} (h : find ∈ early (.ofTable RuleTable.default)) :
    find ∈ naming ++ items :: aside :=
  early_append_late ▸ List.mem_append_left _ h

theorem mem_of_mem_late {find : Recogniser} (h : find ∈ late (.ofTable RuleTable.default)) :
    find ∈ naming ++ items :: aside :=
  early_append_late ▸ List.mem_append_right _ h

theorem applyAll_eq_ok
    (h : Pass.applyAll (.ofTable RuleTable.default) code = .ok lua) :
    Bound.broken? color3Bound (replaceEach (early (.ofTable RuleTable.default)) code) = none ∧
      lua = replaceEach (naming ++ items :: aside) code := by
  have hbounds : (Lexicon.ofTable RuleTable.default).bounds = [color3Bound] := boundsOf_default
  rw [applyAll_eq, hbounds, List.findSome?_singleton] at h
  rw [← early_append_late, replaceEach_append]
  cases hbroken : Bound.broken? color3Bound
      (replaceEach (early (.ofTable RuleTable.default)) code) with
  | some e => simp [hbroken] at h
  | none =>
      rw [hbroken] at h
      exact ⟨rfl, (Except.ok.inj h).symm⟩

theorem not_excess_of_applyAll (hclean : Clean code)
    (hlua : Pass.applyAll (.ofTable RuleTable.default) code = .ok lua) :
    Clean lua ∧ ∀ before rest, ¬ Excess lua before rest := by
  obtain ⟨hbroken, rfl⟩ := applyAll_eq_ok hlua
  have hearly := (hclean.replaceEach_keeps (P := fun _ => True) (fun _ _ _ _ => trivial)
    (fun _ => mem_of_mem_early) trivial).1
  rw [← early_append_late, replaceEach_append]
  refine hearly.replaceEach_keeps (P := fun s => ∀ before rest, ¬ Excess s before rest)
    (fun es hfits hes hfine before rest hexcess => ?_) (fun _ => mem_of_mem_late) ?_
  · obtain ⟨before', rest', hexcess'⟩ := Excess.of_result hfits hes.colour hexcess
    exact hfine before' rest' hexcess'
  · rcases broken?_of_free hearly.endings with ⟨-, hfine⟩ | ⟨_, _, -, hsome⟩
    · exact hfine
    · rw [hbroken] at hsome
      simp at hsome

/-- What the passes make of tidy code they leave as it is. -/
theorem applyAll_settles (h : Tidy AnyName code)
    (hlua : Pass.applyAll (.ofTable RuleTable.default) code = .ok lua) :
    Pass.applyAll (.ofTable RuleTable.default) lua = .ok lua ∧ Quiet Service.lookup lua := by
  obtain ⟨hclean, hfine⟩ := not_excess_of_applyAll h.clean hlua
  obtain ⟨-, rfl⟩ := applyAll_eq_ok hlua
  have hquiet := quiet_all h
  refine ⟨?_, hquiet _ List.mem_cons_self⟩
  rw [applyAll_of_quiet default_wellFormed (fun find hfind => hquiet find (mem_of_mem_early hfind))
    fun find hfind => hquiet find (mem_of_mem_late hfind), boundsOf_default,
    List.findSome?_singleton]
  rcases broken?_of_free hclean.endings with ⟨hnone, -⟩ | ⟨before, rest, hfirst, -⟩
  · rw [hnone]
  · exact absurd hfirst.1 (hfine before rest)

theorem not_endsInLookup_of_quiet (h : Quiet Service.lookup lua) : ¬ EndsInLookup lua := by
  intro hends
  obtain ⟨before, rest, rfl, hstands⟩ := hasRun_of_endsInLookup hends
  have hsame := h before _ _ rfl (lookup_eq_some_iff.mpr ⟨rest, rfl, hstands, rfl⟩)
  revert hsame
  dsimp only
  split <;> decide

theorem rewriteCode_settles (h : Tidy AnyName code)
    (hlua : rewriteCode (.ofTable RuleTable.default) code = .ok lua) :
    rewriteCode (.ofTable RuleTable.default) lua = .ok lua ∧ ¬ EndsInLookup lua := by
  by_cases hblank : (trim code).isEmpty = true
  · rw [rewriteCode, if_pos hblank] at hlua
    obtain rfl := Except.ok.inj hlua
    refine ⟨by rw [rewriteCode, if_pos hblank], fun hends => ?_⟩
    obtain ⟨before, rest, rfl, -⟩ := hasRun_of_endsInLookup hends
    have hmem : 'o' ∈ Service.accessor := by decide
    exact absurd (trim_eq_nil (by simpa using hblank) 'o' (by simp [hmem])) (by decide)
  · rw [rewriteCode, if_neg hblank] at hlua
    obtain ⟨hfixed, hquiet⟩ := applyAll_settles h hlua
    refine ⟨?_, not_endsInLookup_of_quiet hquiet⟩
    rw [rewriteCode]
    split
    · rfl
    · exact hfixed

theorem Clean.rewriteCode_keeps {P : List Char → Prop}
    (hP : ∀ es, Fits es → P (source es) → P (result es)) (hclean : Clean code)
    (hlua : rewriteCode (.ofTable RuleTable.default) code = .ok lua) (hcode : P code) : P lua := by
  rw [rewriteCode] at hlua
  split at hlua
  · obtain rfl := Except.ok.inj hlua
    exact hcode
  · obtain ⟨-, rfl⟩ := applyAll_eq_ok hlua
    exact (hclean.replaceEach_keeps (fun es hfits _ => hP es hfits) (fun _ h => h) hcode).2

end Runs

end SpanishLua.Proofs.Settling
