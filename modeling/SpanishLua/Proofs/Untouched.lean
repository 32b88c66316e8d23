import SpanishLua.Proofs.Bounds
import SpanishLua.Proofs.Safety
import SpanishLua.Proofs.Words

namespace SpanishLua.Proofs.Untouched

open SpanishLua.Code
open SpanishLua.Text
open SpanishLua.Proofs.Characters
open SpanishLua.Proofs.Scanning
open SpanishLua.Proofs.Recognisers
open SpanishLua.Proofs.Sweep
open SpanishLua.Proofs.Lines
open SpanishLua.Proofs.Bounds
open SpanishLua.Proofs.Defaults
open SpanishLua.Proofs.Places
open SpanishLua.Proofs.Safety
open SpanishLua.Proofs.Stages
open SpanishLua.Proofs.Words

/-- The constructor that the default rules bound, in Lua. -/
def color3New : List Char :=
  "Color3.new".toList

/-- The code calls the constructor after `before`, and `rest` starts with its arguments. -/
structure Calls (code before rest : List Char) : Prop where
  left : headIsWord before.reverse = false
  call : ∃ gap, Blank gap ∧ code = before ++ (color3New ++ (gap ++ '(' :: rest))

/-- Such a call with more arguments than the constructor takes. -/
def Excess (code before rest : List Char) : Prop :=
  Calls code before rest ∧ 3 < (countArguments rest).1

/-- The first such call in the code. -/
def FirstExcess (code before rest : List Char) : Prop :=
  Excess code before rest ∧
    ∀ before' rest', Excess code before' rest' → before.length ≤ before'.length

/-- The error for a call whose arguments start `rest`. -/
def excessError (rest : List Char) : ArityError where
  call := "Color3.new"
  arguments := String.ofList (trim (countArguments rest).2)
  max := 3
  found := (countArguments rest).1

/-- The first code segment with such a call fails, by its first one. -/
def FailsBy (segments : List Segment) (e : ArityError) : Prop :=
  ∃ left code right, segments = left ++ .code code :: right ∧
    (∀ code', .code code' ∈ left → ∀ before rest, ¬ Excess code' before rest) ∧
    ∃ before rest, FirstExcess code before rest ∧ e = excessError rest

/-- The bound of the default rules. -/
def color3Bound : Bound :=
  ⟨"Color3".toList, "Color3".toList, 3⟩

theorem boundsOf_default : Lexicon.boundsOf RuleTable.default = [color3Bound] := by
  rfl

theorem dropTrailing_append {p : Char → Bool} {s t : List Char}
    (hs : ∀ c, s.getLast? = some c → p c = false) (ht : ∀ c ∈ t, p c = true) :
    dropTrailing p (s ++ t) = s := by
  rw [dropTrailing, List.reverse_append,
    List.dropWhile_append_of_pos fun c hc => ht c (List.mem_reverse.mp hc)]
  rcases s.eq_nil_or_concat with rfl | ⟨s, c, rfl⟩
  · rfl
  · simp [hs c (by simp)]

theorem calleeOf_append {name gap : List Char} {c : Char} (hlast : name.getLast? = some c)
    (hc : isBlank c = false) (hparen : c ≠ '(') (hgap : Blank gap) :
    calleeOf (name ++ (gap ++ ['('])) = name := by
  have hopening : dropTrailing (· == '(') ((name ++ gap) ++ ['(']) = name ++ gap := by
    refine dropTrailing_append (fun d hd => ?_) (by simp)
    rw [beq_eq_false_iff_ne]
    rintro rfl
    rcases gap.eq_nil_or_concat with rfl | ⟨gap, d, rfl⟩
    · rw [List.append_nil, hlast] at hd
      exact hparen (Option.some.inj hd)
    · rw [List.concat_eq_append, ← List.append_assoc, List.getLast?_concat] at hd
      obtain rfl := Option.some.inj hd
      exact absurd (hgap '(' (by simp)) (by decide)
  have hblanks : trimEnd (name ++ gap) = name := by
    refine dropTrailing_append (fun d hd => ?_) hgap
    rw [hlast] at hd
    rw [← Option.some.inj hd]
    exact hc
  rw [calleeOf, ← List.append_assoc, hopening, hblanks]

theorem calleeOf_call {gap : List Char} (hgap : Blank gap) :
    calleeOf (color3New ++ (gap ++ ['('])) = color3New :=
  calleeOf_append (c := 'w') (by decide) (by decide) (by decide) hgap

section Claims

variable {code : List Char}

theorem Calls.exists_claim {before rest : List Char} (h : Calls code before rest) :
    ∃ hit : Hit, code = before ++ (hit.taken ++ rest) ∧
      (hit, rest) ∈ claims (Bound.call color3Bound) code := by
  obtain ⟨gap, hgap, rfl⟩ := h.call
  let hit : Hit := ⟨color3New ++ (gap ++ ['(']), color3New ++ (gap ++ ['('])⟩
  have hregroup : color3New ++ (gap ++ '(' :: rest) = hit.taken ++ rest := by simp [hit]
  have hfind : Bound.call color3Bound (before.reverse ++ []) (hit.taken ++ rest) = some hit := by
    have hboundary : atBoundary before.reverse (color3New ++ (gap ++ '(' :: rest)) = true :=
      (atBoundary_of_head rfl).mpr h.left
    have hdialect : (color3Bound.source ++ constructorEnding).isPrefixOf?
        (color3New ++ (gap ++ '(' :: rest)) = none := rfl
    have hlua : (color3Bound.target ++ ".new".toList).isPrefixOf?
        (color3New ++ (gap ++ '(' :: rest)) = some (gap ++ '(' :: rest) := rfl
    rw [List.append_nil, ← hregroup, Bound.call, if_pos hboundary, firstWord?,
      List.findSome?_cons, hdialect, List.findSome?_cons, hlua]
    simp only [Option.bind_none, Option.bind_some, opening?_gap hgap, Option.map_some]
    rfl
  rw [hregroup]
  rcases mem_claimsFrom_or_exists (boundCall_sound _) hfind with
    hmem | ⟨left, inner, hit', rfl, hne, hclaim, hlength⟩
  · exact ⟨hit, rfl, hmem⟩
  · -- no such call starts inside another one
    exfalso
    have hinner : headIsWord inner.reverse = false := by
      have hleft := h.left
      rwa [List.reverse_append, headIsWord_append (by simpa using hne)] at hleft
    obtain ⟨-, word, hword, gap', hgap', rest', hafter, htaken⟩ := exists_of_boundCall hclaim
    rw [← hregroup] at hafter
    rw [htaken] at hlength
    rcases List.mem_pair.mp hword with rfl | rfl
    · have hrun : WordRun (color3Bound.source ++ constructorEnding) := by decide
      refine hne (eq_nil_of_word_inside hrun hgap' hafter.symm rfl hinner ?_)
      simpa [Nat.add_assoc] using hlength
    · have hcall : WordRun "Color3".toList := by decide
      have hsplit : color3Bound.target ++ ".new".toList ++ (gap' ++ '(' :: rest') =
          inner ++ ("Color3".toList ++ (".new".toList ++ (gap ++ '(' :: rest))) := hafter.symm
      have hprefix := prefix_target_of_inside hgap' hcall rfl (by decide) hinner hsplit hlength
      have hshort : (inner ++ "Color3".toList).length ≤ "Color3".toList.length := hprefix.length_le
      rw [List.length_append] at hshort
      exact hne (List.length_eq_zero_iff.mp (by omega))

theorem exists_calls_of_mem_claims (hfree : Free Ending code) {hit : Hit} {rest : List Char}
    (h : (hit, rest) ∈ claims (Bound.call color3Bound) code) :
    ∃ before, Calls code before rest ∧ code = before ++ (hit.taken ++ rest) ∧
      calleeOf hit.taken = color3New := by
  obtain ⟨before, rfl, hfind⟩ := exists_of_mem_claimsFrom (boundCall_sound _) h
  rw [List.append_nil] at hfind
  obtain ⟨hboundary, word, hword, gap, hgap, rest', hafter, htaken⟩ := exists_of_boundCall hfind
  obtain rfl : rest = rest' := by
    rw [htaken] at hafter
    simpa using hafter
  rcases List.mem_pair.mp hword with rfl | rfl
  · -- in the dialect the constructor is a word of its own
    exfalso
    have hrun : WordRun (color3Bound.source ++ constructorEnding) := by decide
    rw [hafter] at hfree hboundary
    rw [atBoundary_of_head (hrun.headIsWord_append _)] at hboundary
    exact hfree.not_of_stands ⟨hrun, hboundary, headIsWord_gap hgap rest⟩
      (.inl (List.suffix_append _ _))
  · refine ⟨before, ⟨?_, gap, hgap, by rw [hafter]; rfl⟩, rfl, ?_⟩
    · rw [hafter] at hboundary
      exact (atBoundary_of_head rfl).mp hboundary
    · rw [htaken]
      exact calleeOf_call hgap

/-- In code without constructors of the dialect, the check of bounds finds the first call with too
many arguments. -/
theorem broken?_of_free (hfree : Free Ending code) :
    Bound.broken? color3Bound code = none ∧ (∀ before rest, ¬ Excess code before rest) ∨
      ∃ before rest, FirstExcess code before rest ∧
        Bound.broken? color3Bound code = some (excessError rest) := by
  cases hbroken : Bound.broken? color3Bound code with
  | none =>
      refine .inl ⟨rfl, fun before rest hexcess => ?_⟩
      obtain ⟨hit, -, hmem⟩ := hexcess.1.exists_claim
      have hle := broken?_eq_none_iff.mp hbroken hit rest hmem
      exact absurd hexcess.2 (Nat.not_lt.mpr hle)
  | some e =>
      obtain ⟨earlier, ⟨hit, rest⟩, later, hclaims, hfound, hnone⟩ :=
        List.findSome?_eq_some_iff.mp hbroken
      have hmem : (hit, rest) ∈ claims (Bound.call color3Bound) code := by
        rw [hclaims]
        simp
      obtain ⟨before, hcalls, hcode, hcallee⟩ := exists_calls_of_mem_claims hfree hmem
      have hcount : 3 < (countArguments rest).1 ∧ e = excessError rest := by
        simp only [Option.ite_none_right_eq_some] at hfound
        refine ⟨hfound.1, ?_⟩
        rw [← Option.some.inj hfound.2, hcallee]
        rfl
      obtain ⟨hcount, rfl⟩ := hcount
      refine .inr ⟨before, rest, ⟨⟨hcalls, hcount⟩, ?_⟩, rfl⟩
      intro before' rest' hexcess
      obtain ⟨hit', hcode', hmem'⟩ := hexcess.1.exists_claim
      have hordered := pairwise_claimsFrom (boundCall_sound color3Bound) [] code
      have hlengths := congrArg List.length (hcode.symm.trans hcode')
      simp only [List.length_append] at hlengths
      rw [← claims, hclaims, List.pairwise_append, List.pairwise_cons] at hordered
      rw [hclaims, List.mem_append, List.mem_cons] at hmem'
      rcases hmem' with hmem' | heq | hmem'
      · have hnone' := hnone _ hmem'
        simp only [ite_eq_right_iff, reduceCtorEq, imp_false] at hnone'
        exact absurd hexcess.2 hnone'
      · obtain ⟨rfl, rfl⟩ := Prod.mk.inj heq
        omega
      · have hlater : (hit'.taken ++ rest').length ≤ rest.length :=
          (hordered.2.1.1 _ hmem').length_le
        rw [List.length_append] at hlater
        omega

theorem rewriteCode_of_free (hfree : Free Dialect code) :
    rewriteCode (.ofTable RuleTable.default) code = .ok code ∧
        (∀ before rest, ¬ Excess code before rest) ∨
      ∃ before rest, FirstExcess code before rest ∧
        rewriteCode (.ofTable RuleTable.default) code = .error (excessError rest) := by
  obtain ⟨hearly, hlate⟩ := quiet_of_free hfree
  have hpasses := applyAll_of_quiet default_wellFormed hearly hlate
  rw [boundsOf_default, List.findSome?_singleton] at hpasses
  rw [rewriteCode]
  split
  · rename_i hblank
    refine .inl ⟨rfl, fun before rest hexcess => ?_⟩
    obtain ⟨gap, -, rfl⟩ := hexcess.1.call
    have hmem : 'C' ∈ color3New := by decide
    exact absurd (trim_eq_nil (by simpa using hblank) 'C' (by simp [hmem])) (by decide)
  · have hending := hfree.mono fun _ => dialect_of_ending
    rcases broken?_of_free hending with ⟨hnone, hfine⟩ | ⟨before, rest, hfirst, hsome⟩
    · rw [hnone] at hpasses
      exact .inl ⟨hpasses, hfine⟩
    · rw [hsome] at hpasses
      exact .inr ⟨before, rest, hfirst, hpasses⟩

end Claims

theorem firstFailure?_of_free {segments : List Segment}
    (hfree : ∀ code, .code code ∈ segments → Free Dialect code) :
    (∀ code, .code code ∈ segments →
        rewriteCode (.ofTable RuleTable.default) code = .ok code ∧
          ∀ before rest, ¬ Excess code before rest) ∨
      ∃ e, FailsBy segments e ∧
        firstFailure? (.ofTable RuleTable.default) (segments.map codeText?) = some e := by
  induction segments with
  | nil => exact .inl fun code hcode => absurd hcode (by simp)
  | cons s rest ih =>
      have hs : (firstFailure? (.ofTable RuleTable.default) ((s :: rest).map codeText?) =
            firstFailure? (.ofTable RuleTable.default) (rest.map codeText?) ∧
          ∀ code, s = .code code → rewriteCode (.ofTable RuleTable.default) code = .ok code ∧
            ∀ before rest, ¬ Excess code before rest) ∨
          ∃ code before rest, s = .code code ∧ FirstExcess code before rest ∧
            rewriteCode (.ofTable RuleTable.default) code = .error (excessError rest) := by
        cases s with
        | literal text => exact .inl ⟨rfl, fun code hcode => Segment.noConfusion hcode⟩
        | code code =>
            rcases rewriteCode_of_free (hfree code (by simp)) with hfine | ⟨before, rest', hfails⟩
            · refine .inl ⟨?_, ?_⟩
              · rw [List.map_cons, codeText?, firstFailure?, hfine.1]
              · rintro code' hcode
                obtain rfl := Segment.code.inj hcode
                exact hfine
            · exact .inr ⟨code, before, rest', rfl, hfails⟩
      rcases hs with ⟨hskip, hs⟩ | ⟨code, before, rest', rfl, hfirst, herror⟩
      · rw [hskip]
        rcases ih fun code hcode => hfree code (List.mem_cons_of_mem s hcode) with
          hfine | ⟨e, ⟨left, code, right, rfl, hleft, hfails⟩, hfailure⟩
        · refine .inl fun code hcode => ?_
          rcases List.mem_cons.mp hcode with heq | hcode
          · exact hs code heq.symm
          · exact hfine code hcode
        · refine .inr ⟨e, ⟨s :: left, code, right, rfl, fun code' hcode' => ?_, hfails⟩, hfailure⟩
          rcases List.mem_cons.mp hcode' with heq | hcode'
          · exact (hs code' heq.symm).2
          · exact hleft code' hcode'
      · refine .inr ⟨_, ⟨[], code, rest, rfl, by simp, before, rest', hfirst, rfl⟩, ?_⟩
        rw [List.map_cons, codeText?, firstFailure?, herror]

/-- A line without words of the dialect stays as it is, unless a call in it breaks the bound. -/
theorem translateLine_untouched {extra : List String} {t : Translator}
    (ht : Translator.ofTable RuleTable.default extra = .ok t) {line : List Char}
    (hfree : ∀ code, .code code ∈ partition line → Free Dialect code) :
    t.translateLine line = .ok line ∧
        (∀ code, .code code ∈ partition line → ∀ before rest, ¬ Excess code before rest) ∨
      ∃ e, FailsBy (partition line) e ∧ t.translateLine line = .error e := by
  obtain ⟨-, -, hlexicon⟩ := ofTable_eq_ok ht
  rcases firstFailure?_of_free hfree with hfine | ⟨e, hfails, hfailure⟩
  · refine .inl ⟨translateLine_of_fixed ?_ ?_, fun code hcode => (hfine code hcode).2⟩
    · intro code hcode hends
      exact hfree code hcode _ (hasRun_of_endsInLookup hends) (.accessor rfl)
    · intro code hcode
      rw [hlexicon]
      exact (hfine code hcode).1
  · refine .inr ⟨e, hfails, ?_⟩
    rw [translateLine_eq_error_iff, hlexicon]
    exact hfailure

theorem translateLine_untouched_color3 :
    let line := "local c = Color3.new (f(1, 2), 2, 3, 4) -- 'obtener_servicio'".toList
    (∀ code, .code code ∈ partition line → Free Dialect code) ∧
      ∃ t, Translator.ofTable RuleTable.default [] = .ok t ∧
        ∃ e, FailsBy (partition line) e ∧ t.translateLine line = .error e := by
  intro line
  have hpartition : partition line =
      [.code "local c = Color3.new (f(1, 2), 2, 3, 4) -- ".toList,
       .literal "'obtener_servicio'".toList] := by
    decide +kernel
  have hfree : ∀ code, .code code ∈ partition line → Free Dialect code := by
    intro code hcode
    rw [hpartition] at hcode
    obtain rfl : code = _ := by simpa using hcode
    decide +kernel
  obtain ⟨t, ht⟩ := exists_translator_default
  refine ⟨hfree, t, ht, ?_⟩
  rcases translateLine_untouched ht hfree with ⟨-, hnone⟩ | hfails
  · exfalso
    refine hnone _ (by rw [hpartition]; exact List.mem_cons_self) "local c = ".toList
      "f(1, 2), 2, 3, 4) -- ".toList ⟨⟨by decide +kernel, [' '], ?_, by decide +kernel⟩, ?_⟩
    · intro c hc
      obtain rfl := List.mem_singleton.mp hc
      decide
    · decide +kernel
  · exact hfails

end SpanishLua.Proofs.Untouched
