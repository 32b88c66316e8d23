import Mathlib.Data.Option.Defs
import SpanishLua.Proofs.Stages

namespace SpanishLua.Proofs.Agreement

open SpanishLua.Code
open SpanishLua.Text
open SpanishLua.Proofs.Scanning
open SpanishLua.Proofs.Recognisers
open SpanishLua.Proofs.Sweep
open SpanishLua.Proofs.Lines
open SpanishLua.Proofs.Stages

/-- The categories for whose words code is scanned. -/
def scanned : List Category :=
  [.keyword, .globalFunction, .methodName, .propertyName, .mathFunction, .enumFamily,
   .enumConstant]

/-- The categories in which tokens are only looked up. -/
def lookedUp : List Category :=
  [.constructorName, .serviceName, .enumMember]

/-- At every place of `s` two vocabularies offer the same words in the same order, with the same
targets. -/
structure Agree (s : List Char) (v v' : Vocabulary) : Prop where
  words : ∀ {after}, after <:+ s → v'.words.filter (· <+: after) = v.words.filter (· <+: after)
  targets : ∀ word ∈ v.words, v'.target? word = v.target? word

/-- Two recognisers make the same claims on every text with the property `P`. -/
def Concur (P : List Char → Prop) (find find' : Recogniser) : Prop :=
  ∀ s, P s → ∀ before after, after <:+ s → find' before after = find before after

/-- Two results are the same, or failures that `R` relates. -/
inductive Alike {ε α : Type} (R : ε → ε → Prop) : Except ε α → Except ε α → Prop
  | ok (a : α) : Alike R (.ok a) (.ok a)
  | error {e e' : ε} (h : R e e') : Alike R (.error e) (.error e')

/-- Two documents fail by the same forbidden word, or on the same line by causes that `R`
relates. -/
inductive SameFailure (R : ArityError → ArityError → Prop) : DocumentError → DocumentError → Prop
  | forbidden (word : ForbiddenWord) : SameFailure R (.forbidden word) (.forbidden word)
  | line (number : Nat) {e e' : ArityError} (h : R e e') :
      SameFailure R (.line number e) (.line number e')

/-- On texts with the property `P`, which the passes keep, one table does as well as the other, but
for the bounds, of which they report broken ones that `R` relates. -/
structure Interchangeable (P : List Char → Prop) (R : ArityError → ArityError → Prop)
    (rules rules' : RuleTable) : Prop where
  words : ∀ category ∈ scanned, ∀ s, P s →
    Agree s (.ofTable rules category) (.ofTable rules' category)
  targets : ∀ category ∈ lookedUp, ∀ token,
    (Vocabulary.ofTable rules' category).target? token =
      (Vocabulary.ofTable rules category).target? token
  bounds : ∀ code,
    Option.Rel R ((Lexicon.ofTable rules).bounds.findSome? (Bound.broken? · code))
      ((Lexicon.ofTable rules').bounds.findSome? (Bound.broken? · code))
  keeps : ∀ find ∈ early (.ofTable rules) ++ late (.ofTable rules), ∀ s, P s →
    P (replaceAll find s)

theorem Alike.bind {ε α β : Type} {R : ε → ε → Prop} {x y : Except ε α} {f g : α → Except ε β}
    (h : Alike R x y) (hfg : ∀ a, Alike R (f a) (g a)) : Alike R (x.bind f) (y.bind g) := by
  cases h with
  | ok a => exact hfg a
  | error he => exact .error he

theorem SameFailure.eq {e e' : DocumentError} (h : SameFailure Eq e e') : e = e' := by
  cases h with
  | forbidden word => rfl
  | line number he => rw [he]

theorem Alike.eq {α : Type} {x y : Except DocumentError α} (h : Alike (SameFailure Eq) x y) :
    x = y := by
  cases h with
  | ok a => rfl
  | error he => rw [he.eq]

section Words

variable {s after : List Char} {v v' : Vocabulary}

theorem firstWord?_eq_filter {α : Type} (words : List (List Char)) (after : List Char)
    (accept : List Char → List Char → Option α) :
    firstWord? words after accept = firstWord? (words.filter (· <+: after)) after accept := by
  induction words with
  | nil => rfl
  | cons word words ih =>
      simp only [firstWord?] at ih ⊢
      by_cases hword : word <+: after
      · rw [List.filter_cons_of_pos (by simpa using hword), List.findSome?_cons,
          List.findSome?_cons, ih]
      · have hnone : word.isPrefixOf? after = none := by
          rw [Option.eq_none_iff_forall_ne_some]
          intro rest hrest
          exact hword ⟨rest, (isPrefixOf?_eq_some_iff.mp hrest).symm⟩
        rw [List.filter_cons_of_neg (by simpa using hword), List.findSome?_cons, hnone,
          Option.bind_none, ih]

theorem Agree.firstWord? {α : Type} (h : Agree s v v') (hafter : after <:+ s)
    {accept accept' : List Char → List Char → Option α}
    (haccept : ∀ word rest, v'.target? word = v.target? word →
      accept' word rest = accept word rest) :
    firstWord? v'.words after accept' = firstWord? v.words after accept := by
  rw [firstWord?_eq_filter, h.words hafter, firstWord?_eq_filter v.words, Code.firstWord?,
    Code.firstWord?]
  apply findSome?_congr
  intro word hword
  have htarget := h.targets word (List.mem_of_mem_filter hword)
  congr 1
  funext rest
  exact haccept word rest htarget

end Words

section Recognisers

variable {P : List Char → Prop} {v v' : Vocabulary}

theorem concur_refl (find : Recogniser) : Concur P find find :=
  fun _ _ _ _ _ => rfl

theorem method_concur (h : ∀ s, P s → Agree s v v') :
    Concur P (Call.method v) (Call.method v') := by
  intro s hs before after hafter
  simp only [Call.method]
  split
  · rename_i rest
    have hrest : rest.dropWhile isBlank <:+ s :=
      ((List.dropWhile_suffix _).trans (List.suffix_cons _ _)).trans hafter
    refine (h s hs).firstWord? hrest fun word tail htarget => ?_
    rw [htarget]
  · rfl

theorem constructor_concur (h : ∀ token, v'.target? token = v.target? token) :
    Concur P (Call.constructor v) (Call.constructor v') := by
  intro s hs before after hafter
  simp only [Call.constructor, h]

theorem property_concur (h : ∀ s, P s → Agree s v v') :
    Concur P (Member.property v) (Member.property v') := by
  intro s hs before after hafter
  simp only [Member.property]
  split
  · refine (h s hs).firstWord? ((List.suffix_cons _ _).trans hafter) fun word tail htarget => ?_
    rw [htarget]
  · rfl

theorem mathFunction_concur (h : ∀ s, P s → Agree s v v') :
    Concur P (Member.mathFunction v) (Member.mathFunction v') := by
  intro s hs before after hafter
  simp only [Member.mathFunction]
  cases hlibrary : Member.mathLibrary.isPrefixOf? after with
  | none => rfl
  | some rest =>
      have hrest : rest <:+ s :=
        List.IsSuffix.trans ⟨_, (isPrefixOf?_eq_some_iff.mp hlibrary).symm⟩ hafter
      simp only [Option.bind_some]
      congr 1
      refine (h s hs).firstWord? hrest fun word tail htarget => ?_
      rw [htarget]

theorem item_concur {members members' : Vocabulary} (h : ∀ s, P s → Agree s v v')
    (hmembers : ∀ token, members'.target? token = members.target? token) :
    Concur P (Enumeration.item v members) (Enumeration.item v' members') := by
  intro s hs before after hafter
  simp only [Enumeration.item]
  congr 1
  refine (h s hs).firstWord? hafter fun word rest htarget => ?_
  simp only [htarget, hmembers]

theorem constant_concur (h : ∀ s, P s → Agree s v v') :
    Concur P (Enumeration.constant v) (Enumeration.constant v') := by
  intro s hs before after hafter
  simp only [Enumeration.constant]
  congr 1
  refine (h s hs).firstWord? hafter fun word rest htarget => ?_
  rw [htarget]

theorem globalFunction_concur (h : ∀ s, P s → Agree s v v') :
    Concur P (Keyword.globalFunction v) (Keyword.globalFunction v') := by
  intro s hs before after hafter
  simp only [Keyword.globalFunction]
  congr 1
  refine (h s hs).firstWord? hafter fun word rest htarget => ?_
  rw [htarget]

theorem replaceFrom_concur {find find' : Recogniser} {before after : List Char}
    (h : ∀ before' after', after' <:+ after → find' before' after' = find before' after') :
    replaceFrom find' before after = replaceFrom find before after := by
  fun_induction replaceFrom find before after with
  | case1 before => rw [replaceFrom]
  | case2 before c rest hfind ih =>
      rw [replaceFrom, h before _ (List.suffix_refl _), hfind]
      exact congrArg (c :: ·) (ih fun b a ha => h b a (ha.trans (List.suffix_cons c rest)))
  | case3 before c rest hit hfind skipped ih =>
      have hskip : rest.drop skipped <:+ c :: rest :=
        (List.drop_suffix skipped rest).trans (List.suffix_cons c rest)
      rw [replaceFrom, h before _ (List.suffix_refl _), hfind]
      exact congrArg (hit.text ++ ·) (ih fun b a ha => h b a (ha.trans hskip))

theorem replaceEach_concur {finds finds' : List Recogniser}
    (h : List.Forall₂ (Concur P) finds finds')
    (hkeeps : ∀ find ∈ finds, ∀ s, P s → P (replaceAll find s)) {s : List Char} (hs : P s) :
    replaceEach finds' s = replaceEach finds s := by
  induction h generalizing s with
  | nil => rfl
  | @cons find find' finds finds' hfind _ ih =>
      have hstep : replaceAll find' s = replaceAll find s := replaceFrom_concur (hfind s hs)
      rw [replaceEach_cons, replaceEach_cons, hstep]
      exact ih (fun f hf => hkeeps f (by simp [hf])) (hkeeps find (by simp) s hs)

end Recognisers

section Lookups

variable {v v' : Vocabulary}

theorem named_of_targets (h : ∀ token, v'.target? token = v.target? token) (s : Segment) :
    Service.named v' s = Service.named v s := by
  simp only [Service.named, h]

theorem nameEach_of_targets (h : ∀ token, v'.target? token = v.target? token)
    (previous : Option Segment) (segments : List Segment) :
    nameEach v' previous segments = nameEach v previous segments := by
  induction segments generalizing previous with
  | nil => rfl
  | cons s rest ih =>
      have hs : renamed v' previous s rest.head? = renamed v previous s rest.head? := by
        simp only [renamed, named_of_targets h]
      rw [nameEach, nameEach, hs, ih]

end Lookups

theorem code_mem_of_nameEach {services : Vocabulary} {previous : Option Segment}
    {segments : List Segment} {code : List Char}
    (h : .code code ∈ nameEach services previous segments) : .code code ∈ segments := by
  have hmem : some code ∈ (nameEach services previous segments).map codeText? :=
    List.mem_map.mpr ⟨_, h, rfl⟩
  rw [map_codeText?_nameEach, List.mem_map] at hmem
  obtain ⟨s, hs, hcode⟩ := hmem
  cases s with
  | code text => rwa [← Option.some.inj hcode]
  | literal text => simp [codeText?] at hcode

/-- The segments of a line after the passes, or its failure. -/
def outcome (lexicon : Lexicon) (segments : List Segment) : Except ArityError (List Segment) :=
  match (translateCode lexicon segments).2 with
  | some e => .error e
  | none => .ok (translateCode lexicon segments).1

theorem outcome_literal (lexicon : Lexicon) (text : List Char) (rest : List Segment) :
    outcome lexicon (.literal text :: rest) =
      (outcome lexicon rest).bind fun out => .ok (.literal text :: out) := by
  rw [outcome, outcome, translateCode_literal]
  cases (translateCode lexicon rest).2 <;> rfl

theorem outcome_code (lexicon : Lexicon) (code : List Char) (rest : List Segment) :
    outcome lexicon (.code code :: rest) =
      (rewriteCode lexicon code).bind fun lua =>
        (outcome lexicon rest).bind fun out => .ok (.code lua :: out) := by
  rw [outcome, outcome, translateCode_code]
  cases rewriteCode lexicon code with
  | error e => rfl
  | ok lua => cases (translateCode lexicon rest).2 <;> rfl

theorem translateLine_eq_outcome (t : Translator) (line : List Char) :
    t.translateLine line =
      (outcome t.lexicon (nameEach t.lexicon.services none (partition line))).bind fun out =>
        .ok (Segment.join out) := by
  rw [translateLine_eq, translateSegments, nameAll_eq_nameEach, outcome]
  cases (translateCode t.lexicon (nameEach t.lexicon.services none (partition line))).2 <;> rfl

section Tables

variable {P : List Char → Prop} {R : ArityError → ArityError → Prop} {rules rules' : RuleTable}

theorem Interchangeable.early (h : Interchangeable P R rules rules') :
    List.Forall₂ (Concur P) (early (.ofTable rules)) (early (.ofTable rules')) :=
  .cons (concur_refl _) (.cons (method_concur (h.words _ (by decide))) .nil)

theorem Interchangeable.late (h : Interchangeable P R rules rules') :
    List.Forall₂ (Concur P) (late (.ofTable rules)) (late (.ofTable rules')) := by
  simp only [Stages.late, keyword_eq_constant]
  refine .cons ?_ (.cons ?_ (.cons ?_ (.cons ?_ (.cons ?_ (.cons ?_ (.cons ?_ (.cons ?_ (.cons ?_
    (.cons ?_ .nil)))))))))
  · exact constructor_concur (h.targets _ (by decide))
  · exact concur_refl _
  · exact property_concur (h.words _ (by decide))
  · exact mathFunction_concur (h.words _ (by decide))
  · exact item_concur (h.words _ (by decide)) (h.targets _ (by decide))
  · exact constant_concur (h.words _ (by decide))
  · exact concur_refl _
  · exact concur_refl _
  · exact globalFunction_concur (h.words _ (by decide))
  · exact constant_concur (h.words _ (by decide))

theorem Interchangeable.rewriteCode (h : Interchangeable P R rules rules') {code : List Char}
    (hcode : P code) :
    Alike R (rewriteCode (.ofTable rules) code) (rewriteCode (.ofTable rules') code) := by
  have hkeepsEarly := fun find hfind => h.keeps find (List.mem_append_left _ hfind)
  have hkeepsLate := fun find hfind => h.keeps find (List.mem_append_right _ hfind)
  have hearly := replaceEach_concur h.early hkeepsEarly hcode
  have hlate := replaceEach_concur h.late hkeepsLate (replaceEach_keeps hkeepsEarly hcode)
  rw [Lines.rewriteCode, Lines.rewriteCode]
  split
  · exact .ok code
  · rw [applyAll_eq, applyAll_eq, hearly, hlate]
    generalize replaceEach (Stages.early (.ofTable rules)) code = s
    have hbounds := h.bounds s
    revert hbounds
    generalize (Lexicon.ofTable rules).bounds.findSome? (Bound.broken? · s) = broken
    generalize (Lexicon.ofTable rules').bounds.findSome? (Bound.broken? · s) = broken'
    rintro (he | _)
    · exact .error he
    · exact .ok _

theorem Interchangeable.outcome (h : Interchangeable P R rules rules') {segments : List Segment}
    (hsegments : ∀ code, .code code ∈ segments → P code) :
    Alike R (outcome (.ofTable rules) segments) (outcome (.ofTable rules') segments) := by
  induction segments with
  | nil => exact .ok []
  | cons s rest ih =>
      have hrest := ih fun code hcode => hsegments code (List.mem_cons_of_mem s hcode)
      cases s with
      | literal text =>
          rw [outcome_literal, outcome_literal]
          exact hrest.bind fun out => .ok _
      | code code =>
          rw [outcome_code, outcome_code]
          exact (h.rewriteCode (hsegments code (by simp))).bind fun lua =>
            hrest.bind fun out => .ok _

variable {extra : List String} {t t' : Translator}

theorem Interchangeable.translateLine (h : Interchangeable P R rules rules')
    (ht : Translator.ofTable rules extra = .ok t) (ht' : Translator.ofTable rules' extra = .ok t')
    {line : List Char} (hline : ∀ code, .code code ∈ partition line → P code) :
    Alike R (t.translateLine line) (t'.translateLine line) := by
  obtain ⟨-, -, hlexicon⟩ := ofTable_eq_ok ht
  obtain ⟨-, -, hlexicon'⟩ := ofTable_eq_ok ht'
  have hservices : nameEach t'.lexicon.services none (partition line) =
      nameEach t.lexicon.services none (partition line) := by
    rw [hlexicon, hlexicon']
    exact nameEach_of_targets (h.targets .serviceName (by decide)) _ _
  rw [translateLine_eq_outcome, translateLine_eq_outcome, hservices, hlexicon, hlexicon']
  refine (h.outcome fun code hcode => ?_).bind fun out => .ok _
  exact hline code (code_mem_of_nameEach hcode)

theorem Interchangeable.translateFrom (h : Interchangeable P R rules rules')
    (ht : Translator.ofTable rules extra = .ok t) (ht' : Translator.ofTable rules' extra = .ok t')
    {ls : List (List Char)} (hls : ∀ line ∈ ls, ∀ code, .code code ∈ partition line → P code)
    (number : Nat) :
    Alike (SameFailure R) (t.translateFrom number ls) (t'.translateFrom number ls) := by
  induction ls generalizing number with
  | nil => exact .ok []
  | cons line rest ih =>
      have hline := h.translateLine ht ht' (hls line (by simp))
      have hrest := ih (fun l hl => hls l (by simp [hl])) (number + 1)
      rw [Translator.translateFrom, Translator.translateFrom]
      -- the first line decides the number of a failure, if it fails at all
      revert hline hrest
      generalize t.translateLine line = x
      generalize t'.translateLine line = x'
      generalize t.translateFrom (number + 1) rest = y
      generalize t'.translateFrom (number + 1) rest = y'
      rintro (lua | he) (luas | hes)
      · exact .ok _
      · exact .error hes
      · exact .error (.line number he)
      · exact .error (.line number he)

theorem Interchangeable.translate (h : Interchangeable P R rules rules')
    (ht : Translator.ofTable rules extra = .ok t) (ht' : Translator.ofTable rules' extra = .ok t')
    (document : List Char) (label : String)
    (hdocument : ∀ line ∈ lines document, ∀ code, .code code ∈ partition line → P code) :
    Alike (SameFailure R) (t.translate document label) (t'.translate document label) := by
  obtain ⟨-, hdeny, -⟩ := ofTable_eq_ok ht
  obtain ⟨-, hdeny', -⟩ := ofTable_eq_ok ht'
  have hlines := h.translateFrom ht ht' hdocument 1
  rw [Translator.translate, Translator.translate, hdeny, hdeny']
  cases (DenyList.ofExtra extra).check document label with
  | error word => exact .error (.forbidden word)
  | ok _ =>
      revert hlines
      generalize t.translateFrom 1 (lines document) = x
      generalize t'.translateFrom 1 (lines document) = x'
      rintro (luas | he)
      · exact .ok _
      · exact .error he

end Tables

end SpanishLua.Proofs.Agreement
