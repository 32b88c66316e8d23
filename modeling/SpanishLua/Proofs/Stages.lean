import SpanishLua.Proofs.Literals
import SpanishLua.Proofs.Places

namespace SpanishLua.Proofs.Stages

open SpanishLua.Code
open SpanishLua.Text
open SpanishLua.Proofs.Scanning
open SpanishLua.Proofs.Recognisers
open SpanishLua.Proofs.Sweep
open SpanishLua.Proofs.Tables
open SpanishLua.Proofs.Lines
open SpanishLua.Proofs.Literals
open SpanishLua.Proofs.Partition
open SpanishLua.Proofs.Places

/-- The recognisers before the check of bounds. -/
def early (lexicon : Lexicon) : List Recogniser :=
  [Service.lookup, Call.method lexicon.methods]

/-- The recognisers after the check of bounds. -/
def late (lexicon : Lexicon) : List Recogniser :=
  [Call.constructor lexicon.constructors, Call.instanceFactory,
   Member.property lexicon.properties, Member.mathFunction lexicon.mathFunctions,
   Enumeration.item lexicon.enumFamilies lexicon.enumMembers,
   Enumeration.constant lexicon.enumConstants, Enumeration.bright,
   Keyword.elseIf, Keyword.globalFunction lexicon.globalFunctions,
   Keyword.keyword lexicon.keywords]

/-- The text after one recogniser and then the next. -/
def replaceEach (finds : List Recogniser) (s : List Char) : List Char :=
  finds.foldl (fun s find => replaceAll find s) s

theorem replaceEach_cons (find : Recogniser) (finds : List Recogniser) (s : List Char) :
    replaceEach (find :: finds) s = replaceEach finds (replaceAll find s) :=
  rfl

theorem replaceEach_append (finds finds' : List Recogniser) (s : List Char) :
    replaceEach (finds ++ finds') s = replaceEach finds' (replaceEach finds s) :=
  List.foldl_append

theorem replaceEach_keeps {P : List Char → Prop} {finds : List Recogniser}
    (h : ∀ find ∈ finds, ∀ s, P s → P (replaceAll find s)) {s : List Char} (hs : P s) :
    P (replaceEach finds s) := by
  induction finds generalizing s with
  | nil => exact hs
  | cons find finds ih =>
      rw [replaceEach_cons]
      exact ih (fun f hf => h f (by simp [hf])) (h find (by simp) s hs)

theorem applyAll_eq (lexicon : Lexicon) (code : List Char) :
    Pass.applyAll lexicon code =
      match lexicon.bounds.findSome? (Bound.broken? · (replaceEach (early lexicon) code)) with
      | some e => .error e
      | none => .ok (replaceEach (late lexicon) (replaceEach (early lexicon) code)) := by
  have hpasses : Pass.applyAll lexicon code =
      Call.applyConstructors lexicon.constructors lexicon.bounds
        (replaceEach (early lexicon) code) >>= fun s =>
          .ok (replaceEach ((late lexicon).drop 2) s) := rfl
  rw [hpasses, Call.applyConstructors]
  cases lexicon.bounds.findSome? (Bound.broken? · (replaceEach (early lexicon) code)) <;> rfl

theorem rewriteCode_eq_ok {lexicon : Lexicon} {code lua : List Char}
    (h : rewriteCode lexicon code = .ok lua) :
    lua = code ∨ lua = replaceEach (early lexicon ++ late lexicon) code := by
  rw [rewriteCode] at h
  split at h
  · exact .inl (Except.ok.inj h).symm
  · rw [applyAll_eq] at h
    split at h
    · simp at h
    · rw [replaceEach_append]
      exact .inr (Except.ok.inj h).symm

theorem rewriteCode_keeps {P : List Char → Prop} {lexicon : Lexicon}
    (h : ∀ find ∈ early lexicon ++ late lexicon, ∀ s, P s → P (replaceAll find s))
    {code lua : List Char} (hrewrite : rewriteCode lexicon code = .ok lua) (hcode : P code) :
    P lua := by
  rcases rewriteCode_eq_ok hrewrite with rfl | rfl
  · exact hcode
  · exact replaceEach_keeps h hcode

theorem sound_of_mem_early {lexicon : Lexicon} {find : Recogniser} (hfind : find ∈ early lexicon) :
    Sound find := by
  simp only [early, List.mem_cons, List.not_mem_nil, or_false] at hfind
  rcases hfind with rfl | rfl
  · exact lookup_sound
  · exact method_sound _

theorem sound_of_mem_late {rules : RuleTable} (hrules : WellFormed rules) {find : Recogniser}
    (hfind : find ∈ late (.ofTable rules)) : Sound find := by
  simp only [late, List.mem_cons, List.not_mem_nil, or_false] at hfind
  rcases hfind with rfl | rfl | rfl | rfl | rfl | rfl | rfl | rfl | rfl | rfl
  · exact constructor_sound _
  · exact instanceFactory_sound
  · exact property_sound _
  · exact mathFunction_sound _
  · exact item_sound _ _
  · exact constant_sound (words_ne_nil hrules (by decide))
  · exact bright_sound
  · exact elseIf_sound
  · exact globalFunction_sound _
  · rw [keyword_eq_constant]
    exact constant_sound (words_ne_nil hrules (by decide))

theorem sound_of_mem {rules : RuleTable} (hrules : WellFormed rules) {find : Recogniser}
    (hfind : find ∈ early (.ofTable rules) ++ late (.ofTable rules)) : Sound find := by
  rcases List.mem_append.mp hfind with hearly | hlate
  · exact sound_of_mem_early hearly
  · exact sound_of_mem_late hrules hlate

theorem replaceEach_of_quiet {finds : List Recogniser} {s : List Char}
    (hsound : ∀ find ∈ finds, Sound find) (h : ∀ find ∈ finds, Quiet find s) :
    replaceEach finds s = s := by
  induction finds with
  | nil => rfl
  | cons find finds ih =>
      have hstep : replaceAll find s = s :=
        (h find (by simp)).replaceAll_eq (hsound find (by simp))
      rw [replaceEach_cons, hstep]
      exact ih (fun f hf => hsound f (by simp [hf])) fun f hf => h f (by simp [hf])

/-- What recognisers have been over stays without anything to change for them, if each leaves it so
for itself and for the others. -/
theorem quiet_replaceEach (Inv : List Char → Prop) {done finds : List Recogniser} {s : List Char}
    (hkeeps : ∀ find ∈ finds, ∀ s, Inv s → Inv (replaceAll find s))
    (hself : ∀ find ∈ finds, ∀ s, Inv s → Quiet find (replaceAll find s))
    (hothers : ∀ find ∈ finds, ∀ g ∈ done ++ finds, ∀ s, Inv s → Quiet g s →
      Quiet g (replaceAll find s))
    (hs : Inv s) (hdone : ∀ g ∈ done, Quiet g s) :
    Inv (replaceEach finds s) ∧ ∀ g ∈ done ++ finds, Quiet g (replaceEach finds s) := by
  induction finds generalizing done s with
  | nil => exact ⟨hs, by rwa [List.append_nil]⟩
  | cons find finds ih =>
      rw [List.append_cons] at hothers ⊢
      refine ih (fun f hf => hkeeps f (by simp [hf])) (fun f hf => hself f (by simp [hf]))
        (fun f hf => hothers f (by simp [hf])) (hkeeps find (by simp) s hs) fun g hg => ?_
      rcases List.mem_append.mp hg with hg | hg
      · exact hothers find (by simp) g (by simp [hg]) s hs (hdone g hg)
      · rw [List.mem_singleton.mp hg]
        exact hself find (by simp) s hs

theorem applyAll_of_quiet {rules : RuleTable} (hrules : WellFormed rules) {code : List Char}
    (hearly : ∀ find ∈ early (.ofTable rules), Quiet find code)
    (hlate : ∀ find ∈ late (.ofTable rules), Quiet find code) :
    Pass.applyAll (.ofTable rules) code =
      match (Lexicon.boundsOf rules).findSome? (Bound.broken? · code) with
      | some e => .error e
      | none => .ok code := by
  rw [applyAll_eq, replaceEach_of_quiet (fun _ => sound_of_mem_early) hearly,
    replaceEach_of_quiet (fun _ => sound_of_mem_late hrules) hlate]
  rfl

theorem rewriteCode_of_quiet {rules : RuleTable} (hrules : WellFormed rules) {code : List Char}
    {n : Nat} (hvisible : ∃ c ∈ code, isBlank c = false)
    (hbounds : ∀ b ∈ (Lexicon.ofTable rules).bounds, Bound.broken? b code = none)
    (hquiet : ∀ find ∈ early (.ofTable rules) ++ (late (.ofTable rules)).take n, Quiet find code) :
    rewriteCode (.ofTable rules) code =
      .ok (replaceEach ((late (.ofTable rules)).drop n) code) := by
  have hcode : ¬ (trim code).isEmpty = true := by
    intro hempty
    obtain ⟨c, hc, hblank⟩ := hvisible
    rw [trim_eq_nil (List.isEmpty_iff.mp hempty) c hc] at hblank
    exact absurd hblank (by decide)
  have hearly : replaceEach (early (.ofTable rules)) code = code := by
    apply replaceEach_of_quiet fun find => sound_of_mem_early
    exact fun find hfind => hquiet find (List.mem_append_left _ hfind)
  have hlate : replaceEach ((late (.ofTable rules)).take n) code = code := by
    apply replaceEach_of_quiet
    · intro find hfind
      exact sound_of_mem_late hrules (List.mem_of_mem_take hfind)
    · exact fun find hfind => hquiet find (List.mem_append_right _ hfind)
  have hsplit : replaceEach (late (.ofTable rules)) code =
      replaceEach ((late (.ofTable rules)).drop n) code := by
    conv_lhs => rw [← List.take_append_drop n (late (.ofTable rules)), replaceEach_append, hlate]
  rw [rewriteCode, if_neg hcode, applyAll_eq, hearly, List.findSome?_eq_none_iff.mpr hbounds,
    hsplit]

theorem nameEach_of_not_endsInLookup (services : Vocabulary) {previous : Option Segment}
    {segments : List Segment}
    (hprevious : ∀ code, previous = some (.code code) → ¬ EndsInLookup code)
    (h : ∀ code, .code code ∈ segments → ¬ EndsInLookup code) :
    nameEach services previous segments = segments := by
  induction segments generalizing previous with
  | nil => rfl
  | cons s rest ih =>
      have hrest : nameEach services (some s) rest = rest := by
        apply ih
        · intro code hcode
          exact h code (by simp [Option.some.inj hcode])
        · intro code hcode
          exact h code (List.mem_cons_of_mem s hcode)
      have hs : renamed services previous s rest.head? = s := by
        unfold renamed
        split
        · rename_i previous next _
          rw [if_neg]
          intro hlookup
          obtain ⟨before, after, rfl, -, hends, -⟩ := isLookupArgument_iff.mp hlookup
          exact hprevious before rfl hends
        · rfl
      rw [nameEach, hs, hrest]

theorem translateLine_of_fixed {t : Translator} {line : List Char}
    (hlookup : ∀ code, .code code ∈ partition line → ¬ EndsInLookup code)
    (hfixed : ∀ code, .code code ∈ partition line → rewriteCode t.lexicon code = .ok code) :
    t.translateLine line = .ok line := by
  have hsegments : ∀ segments : List Segment,
      (∀ code, .code code ∈ segments → rewriteCode t.lexicon code = .ok code) →
        translateCode t.lexicon segments = (segments, none) := by
    intro segments hfixed
    induction segments with
    | nil => rfl
    | cons s rest ih =>
        have hrest := ih fun code hcode => hfixed code (List.mem_cons_of_mem s hcode)
        cases s with
        | literal text => rw [translateCode_literal, hrest]
        | code code => rw [translateCode_code, hfixed code (by simp), hrest]
  rw [translateLine_eq, translateSegments, nameAll_eq_nameEach,
    nameEach_of_not_endsInLookup _ (by simp) hlookup, hsegments _ hfixed]
  exact congrArg Except.ok (join_partition line)

end SpanishLua.Proofs.Stages
