import SpanishLua.Proofs.Bounds
import SpanishLua.Proofs.Counting
import SpanishLua.Proofs.Stages

/-!
A blank at the end of a text. No recogniser sees it: no word ends in a blank, and the end of a text
is as good a boundary as a blank. So a rewriting copies it, and so does counting arguments.
-/

namespace SpanishLua.Proofs.Trailing

open SpanishLua.Code
open SpanishLua.Text
open SpanishLua.Proofs.Characters
open SpanishLua.Proofs.Scanning
open SpanishLua.Proofs.Recognisers
open SpanishLua.Proofs.Tables
open SpanishLua.Proofs.Lines
open SpanishLua.Proofs.Bounds
open SpanishLua.Proofs.Stages
open SpanishLua.Proofs.Counting

/-- A recogniser makes the same claims whether or not `c` stands at the end of the text. -/
def Ignores (c : Char) (find : Recogniser) : Prop :=
  ∀ before after, find before (after ++ [c]) = find before after

section Scans

variable {c : Char} {find : Recogniser} (hsound : Sound find) (hignores : Ignores c find)
include hsound hignores

theorem find_singleton (before : List Char) : find before [c] = none := by
  have hend : find before [c] = find before [] := hignores before []
  cases hfind : find before [] with
  | none => rw [hend, hfind]
  | some hit =>
      obtain ⟨hne, hprefix⟩ := hsound before [] hit hfind
      exact absurd (List.prefix_nil.mp hprefix) hne

theorem replaceFrom_append (before after : List Char) :
    replaceFrom find before (after ++ [c]) = replaceFrom find before after ++ [c] := by
  induction before, after using scan_induction hsound with
  | nil before =>
      rw [List.nil_append, replaceFrom_kept (find_singleton hsound hignores before),
        replaceFrom_nil, replaceFrom_nil]
      rfl
  | kept before d rest hfind ih =>
      have hkept : find before (d :: (rest ++ [c])) = none :=
        (hignores before (d :: rest)).trans hfind
      rw [List.cons_append, replaceFrom_kept hkept, replaceFrom_kept hfind, ih]
      rfl
  | claimed before hit rest hfind ih =>
      have hclaimed : find before (hit.taken ++ (rest ++ [c])) = some hit := by
        rw [← List.append_assoc, hignores]
        exact hfind
      rw [List.append_assoc, replaceFrom_claimed hsound hclaimed, replaceFrom_claimed hsound hfind,
        ih, List.append_assoc]

theorem claimsFrom_append (before after : List Char) :
    claimsFrom find before (after ++ [c]) =
      (claimsFrom find before after).map fun (hit, rest) => (hit, rest ++ [c]) := by
  induction before, after using scan_induction hsound with
  | nil before =>
      rw [List.nil_append, claimsFrom_kept (find_singleton hsound hignores before), claimsFrom_nil,
        claimsFrom_nil]
      rfl
  | kept before d rest hfind ih =>
      have hkept : find before (d :: (rest ++ [c])) = none :=
        (hignores before (d :: rest)).trans hfind
      rw [List.cons_append, claimsFrom_kept hkept, claimsFrom_kept hfind, ih]
  | claimed before hit rest hfind ih =>
      have hclaimed : find before (hit.taken ++ (rest ++ [c])) = some hit := by
        rw [← List.append_assoc, hignores]
        exact hfind
      rw [List.append_assoc, claimsFrom_claimed hsound hclaimed, claimsFrom_claimed hsound hfind,
        ih, List.map_cons]

end Scans

theorem replaceEach_append_ignored {c : Char} {finds : List Recogniser}
    (hsound : ∀ find ∈ finds, Sound find) (hignores : ∀ find ∈ finds, Ignores c find)
    (s : List Char) :
    replaceEach finds (s ++ [c]) = replaceEach finds s ++ [c] := by
  induction finds generalizing s with
  | nil => rfl
  | cons find finds ih =>
      obtain ⟨hfind, hfinds⟩ := List.forall_mem_cons.mp hsound
      obtain ⟨hignore, hignores⟩ := List.forall_mem_cons.mp hignores
      have hstep : replaceAll find (s ++ [c]) = replaceAll find s ++ [c] :=
        replaceFrom_append hfind hignore [] s
      rw [replaceEach_cons, replaceEach_cons, hstep, ih hfinds hignores]

theorem isPrefixOf?_append {w : List Char} {c : Char} (hw : w.getLast? ≠ some c) (s : List Char) :
    w.isPrefixOf? (s ++ [c]) = (w.isPrefixOf? s).map (· ++ [c]) := by
  ext rest
  simp only [isPrefixOf?_eq_some_iff, Option.map_eq_some_iff]
  constructor
  · intro h
    rcases List.eq_nil_or_concat' rest with rfl | ⟨rest, d, rfl⟩
    · rw [List.append_nil] at h
      exact absurd (by rw [← h, List.getLast?_concat]) hw
    · rw [← List.append_assoc] at h
      obtain ⟨rfl, hd⟩ := List.append_singleton_inj.mp h
      exact ⟨rest, rfl, by rw [hd]⟩
  · rintro ⟨rest, rfl, rfl⟩
    rw [List.append_assoc]

theorem firstWord?_append {α : Type} {c : Char} {words : List (List Char)}
    (hwords : ∀ w ∈ words, w.getLast? ≠ some c) {accept accept' : List Char → List Char → Option α}
    (haccept : ∀ w ∈ words, ∀ rest, accept' w (rest ++ [c]) = accept w rest) (after : List Char) :
    firstWord? words (after ++ [c]) accept' = firstWord? words after accept := by
  refine findSome?_congr fun w hw => ?_
  rw [isPrefixOf?_append (hwords w hw)]
  cases w.isPrefixOf? after with
  | none => rfl
  | some rest => exact haccept w hw rest

theorem firstWord?_nil {α : Type} {words : List (List Char)}
    {accept : List Char → List Char → Option α} (h : ∀ w, accept w [] = none) :
    firstWord? words [] accept = none := by
  refine List.findSome?_eq_none_iff.mpr fun w _ => ?_
  cases w with
  | nil => exact h []
  | cons d w => rfl

theorem method_cons (v : Vocabulary) (before rest : List Char) :
    Call.method v before (':' :: rest) =
      firstWord? v.words (rest.dropWhile isBlank) fun word tail =>
        (opening? tail).map fun (paren, _) =>
          { taken := ':' :: rest.takeWhile isBlank ++ word ++ paren
            text := match v.target? word with
              | some target => ':' :: target ++ ['(']
              | none => ':' :: rest.takeWhile isBlank ++ word ++ paren } :=
  rfl

section Blanks

variable {c : Char} (hc : isBlank c = true)
include hc

theorem ne_of_isBlank {d : Char} (hd : isBlank d = false) : c ≠ d := by
  rintro rfl
  simp [hc] at hd

theorem headIsWord_append_blank (s : List Char) : headIsWord (s ++ [c]) = headIsWord s := by
  cases s with
  | nil => exact isWord_of_isBlank hc
  | cons d s => rfl

theorem atBoundary_append (before after : List Char) :
    atBoundary before (after ++ [c]) = atBoundary before after := by
  rw [atBoundary, atBoundary, headIsWord_append_blank hc]

theorem endsAt_append_blank (before word rest : List Char) :
    endsAt before word (rest ++ [c]) = endsAt before word rest :=
  atBoundary_append hc _ _

theorem opening?_append (s : List Char) :
    opening? (s ++ [c]) = (opening? s).map fun (paren, rest) => (paren, rest ++ [c]) := by
  ext ⟨paren, rest⟩
  simp only [opening?_eq_some_iff, Option.map_eq_some_iff, Prod.exists, Prod.mk.injEq]
  constructor
  · rintro ⟨gap, hgap, rfl, hs⟩
    rcases List.eq_nil_or_concat' rest with rfl | ⟨rest, d, rfl⟩
    · have hparen : c = '(' := (List.append_singleton_inj.mp hs).2
      exact absurd hparen (ne_of_isBlank hc (by decide))
    · rw [← List.cons_append, ← List.append_assoc] at hs
      obtain ⟨rfl, rfl⟩ := List.append_singleton_inj.mp hs
      exact ⟨gap ++ ['('], rest, ⟨gap, hgap, rfl, rfl⟩, rfl, rfl⟩
  · rintro ⟨paren', rest', ⟨gap, hgap, rfl, rfl⟩, rfl, rfl⟩
    exact ⟨gap, hgap, rfl, by simp⟩

theorem map_opening?_append {α : Type} {f : List Char × List Char → α}
    (hf : ∀ paren rest rest', f (paren, rest) = f (paren, rest')) (s : List Char) :
    (opening? (s ++ [c])).map f = (opening? s).map f := by
  rw [opening?_append hc, Option.map_map]
  exact congrFun (congrArg Option.map (funext fun (paren, rest) => hf paren _ rest)) _

theorem getLast?_ne {w : List Char} (h : w.getLast?.any isBlank = false) : w.getLast? ≠ some c := by
  intro hlast
  rw [hlast, Option.any_some, hc] at h
  simp at h

omit hc in
theorem takeWhile_append_of_not {p : Char → Bool} (hp : p c = false) (s : List Char) :
    (s ++ [c]).takeWhile p = s.takeWhile p := by
  induction s with
  | nil => simp [hp]
  | cons d s ih => simp [List.takeWhile_cons, ih]

theorem blanks_append (s : List Char) :
    (s.dropWhile isBlank = [] ∧ (s ++ [c]).dropWhile isBlank = []) ∨
      (s ++ [c]).takeWhile isBlank = s.takeWhile isBlank ∧
        (s ++ [c]).dropWhile isBlank = s.dropWhile isBlank ++ [c] := by
  induction s with
  | nil => exact .inl ⟨rfl, by simp [hc]⟩
  | cons d s ih =>
      cases hd : isBlank d with
      | true => simpa [List.takeWhile_cons, List.dropWhile_cons, hd] using ih
      | false => exact .inr (by simp [hd])

theorem nameless_of_isBlank : continuesIdentifier c = false ∧ Enumeration.isItemStart c = false ∧
    Enumeration.isItemChar c = false :=
  forall_blank (p := fun c => continuesIdentifier c = false ∧ Enumeration.isItemStart c = false ∧
    Enumeration.isItemChar c = false) (by decide +kernel) hc

theorem itemName?_append (s : List Char) :
    Enumeration.itemName? (s ++ [c]) = Enumeration.itemName? s := by
  obtain ⟨-, hstart, hchar⟩ := nameless_of_isBlank hc
  cases s with
  | nil => simp [Enumeration.itemName?, hstart]
  | cons d s =>
      rw [List.cons_append, Enumeration.itemName?, Enumeration.itemName?]
      dsimp only
      rw [← List.cons_append, takeWhile_append_of_not hchar]
      split
      · refine findSome?_congr fun k hk => ?_
        have hlength : k + 1 ≤ (d :: s).length := by
          rw [List.mem_reverse, List.mem_range] at hk
          exact Nat.le_trans hk (List.takeWhile_sublist _).length_le
        rw [List.take_append_of_le_length hlength, List.drop_append_of_le_length hlength,
          endsAt_append_blank hc]
      · rfl

theorem lookup_ignores : Ignores c Service.lookup := by
  intro before after
  have hwords : ∀ w ∈ [Service.accessor], w.getLast? ≠ some c :=
    List.forall_mem_singleton.mpr (getLast?_ne hc (by decide))
  unfold Service.lookup
  rw [atBoundary_append hc, firstWord?_append hwords]
  intro w _ rest
  rw [endsAt_append_blank hc]

theorem elseIf_ignores : Ignores c Keyword.elseIf := by
  intro before after
  have hsino : "sino".toList.getLast? ≠ some c := getLast?_ne hc (by decide)
  have hsi : "si".toList.getLast? ≠ some c := getLast?_ne hc (by decide)
  unfold Keyword.elseIf
  rw [atBoundary_append hc, isPrefixOf?_append hsino]
  cases "sino".toList.isPrefixOf? after with
  | none => rfl
  | some rest =>
      simp only [Option.map_some, Option.bind_some]
      rcases blanks_append hc rest with ⟨hdrop, hdrop'⟩ | ⟨htake, hdrop⟩
      · have hnone : "si".toList.isPrefixOf? [] = none := rfl
        simp only [hdrop, hdrop', hnone, Option.bind_none, ite_self]
      · rw [htake, hdrop, isPrefixOf?_append hsi]
        cases "si".toList.isPrefixOf? (rest.dropWhile isBlank) with
        | none => rfl
        | some tail => simp only [Option.map_some, Option.bind_some, endsAt_append_blank hc]

theorem instanceFactory_ignores : Ignores c Call.instanceFactory := by
  intro before after
  have hwords : ∀ w ∈ ["instancia_nueva".toList], w.getLast? ≠ some c :=
    List.forall_mem_singleton.mpr (getLast?_ne hc (by decide))
  unfold Call.instanceFactory
  rw [atBoundary_append hc, firstWord?_append hwords]
  intro w _ rest
  exact map_opening?_append hc (fun _ _ _ => rfl) rest

theorem boundCall_ignores (b : Bound) : Ignores c (Bound.call b) := by
  intro before after
  have hwords : ∀ w ∈ [b.source ++ constructorEnding, b.target ++ ".new".toList],
      w.getLast? ≠ some c := by
    simp only [List.mem_cons, List.not_mem_nil, or_false, forall_eq_or_imp, forall_eq,
      List.getLast?_append]
    exact ⟨getLast?_ne hc (w := constructorEnding) (by decide),
      getLast?_ne hc (w := ".new".toList) (by decide)⟩
  unfold Bound.call
  rw [atBoundary_append hc, firstWord?_append hwords]
  intro w _ rest
  exact map_opening?_append hc (fun _ _ _ => rfl) rest

theorem bright_ignores : Ignores c Enumeration.bright := by
  intro before after
  unfold Enumeration.bright
  rw [atBoundary_append hc, wordRun, takeWhile_append_of_not (isWord_of_isBlank hc)]
  rfl

theorem constructor_ignores (types : Vocabulary) : Ignores c (Call.constructor types) := by
  intro before after
  have hrun : wordRun (after ++ [c]) = wordRun after :=
    takeWhile_append_of_not (isWord_of_isBlank hc) after
  have hlength : (wordRun after).length ≤ after.length :=
    (List.takeWhile_sublist _).length_le
  unfold Call.constructor
  rw [atBoundary_append hc, hrun]
  split
  · refine Option.bind_congr fun name _ => ?_
    rw [List.drop_append_of_le_length hlength]
    exact map_opening?_append hc (fun _ _ _ => rfl) _
  · rfl

variable {v : Vocabulary} (hv : ∀ w ∈ v.words, w.getLast? ≠ some c)
include hv

theorem constant_ignores : Ignores c (Enumeration.constant v) := by
  intro before after
  unfold Enumeration.constant
  rw [atBoundary_append hc, firstWord?_append hv]
  intro w _ rest
  rw [endsAt_append_blank hc]

theorem globalFunction_ignores : Ignores c (Keyword.globalFunction v) := by
  intro before after
  unfold Keyword.globalFunction
  rw [atBoundary_append hc, firstWord?_append hv]
  intro w _ rest
  rw [endsAt_append_blank hc, map_opening?_append hc fun _ _ _ => rfl]

theorem mathFunction_ignores : Ignores c (Member.mathFunction v) := by
  intro before after
  have hmath : Member.mathLibrary.getLast? ≠ some c := getLast?_ne hc (by decide)
  unfold Member.mathFunction
  rw [atBoundary_append hc, isPrefixOf?_append hmath]
  cases Member.mathLibrary.isPrefixOf? after with
  | none => rfl
  | some rest =>
      rw [Option.map_some, Option.bind_some, Option.bind_some, firstWord?_append hv]
      intro w _ tail
      rw [endsAt_append_blank hc]

theorem property_ignores : Ignores c (Member.property v) := by
  intro before after
  have hdot : c ≠ '.' := ne_of_isBlank hc (by decide)
  rcases after with _ | ⟨d, rest⟩
  · simp [Member.property, hdot]
  · by_cases hd : d = '.'
    · subst hd
      refine firstWord?_append hv ?_ rest
      intro w _ tail
      rw [endsAt_append_blank hc]
    · simp [Member.property, hd]

theorem method_ignores : Ignores c (Call.method v) := by
  intro before after
  have hcolon : c ≠ ':' := ne_of_isBlank hc (by decide)
  rcases after with _ | ⟨d, rest⟩
  · simp [Call.method, hcolon]
  by_cases hd : d = ':'
  · subst hd
    rw [List.cons_append, method_cons, method_cons]
    rcases blanks_append hc rest with ⟨hdrop, hdrop'⟩ | ⟨htake, hdrop⟩
    · rw [hdrop, hdrop', firstWord?_nil fun _ => rfl, firstWord?_nil fun _ => rfl]
    · rw [htake, hdrop, firstWord?_append hv]
      intro w _ tail
      exact map_opening?_append hc (fun _ _ _ => rfl) tail
  · simp [Call.method, hd]

theorem item_ignores (members : Vocabulary) : Ignores c (Enumeration.item v members) := by
  intro before after
  have hdot : c ≠ '.' := ne_of_isBlank hc (by decide)
  unfold Enumeration.item
  rw [atBoundary_append hc, firstWord?_append hv]
  intro w _ rest
  rcases rest with _ | ⟨d, rest⟩
  · simp [hdot]
  · by_cases hd : d = '.'
    · subst hd
      simp only [List.cons_append, itemName?_append hc]
    · simp [hd]

omit hv

theorem trim_append_blank (s : List Char) : trim (s ++ [c]) = trim s := by
  have hend : ∀ s, trimEnd (s ++ [c]) = trimEnd s := by
    intro s
    rw [trimEnd, dropTrailing, List.reverse_concat, List.dropWhile_cons_of_pos hc]
    rfl
  rw [trim, trim, trimStart, trimStart]
  rcases blanks_append hc s with ⟨hdrop, hdrop'⟩ | ⟨-, hdrop⟩
  · rw [hdrop, hdrop']
  · rw [hdrop, hend]

/-- The scan ends before the blank, or has it as its last character. -/
theorem scanArguments_append (depth : Nat) (s : List Char) :
    scanArguments depth (s ++ [c]) = scanArguments depth s ∨
      scanArguments depth (s ++ [c]) =
        ((scanArguments depth s).1 ++ [c], (scanArguments depth s).2) := by
  obtain ⟨hopener, hcloser, hcomma⟩ := plain_of_isBlank hc
  induction s generalizing depth with
  | nil => exact .inr (by cases depth <;> simp [scanArguments, hopener, hcloser, hcomma])
  | cons d s ih =>
      rw [List.cons_append, scanArguments.eq_def, scanArguments.eq_def depth (d :: s)]
      dsimp only
      split
      · rcases ih (depth + 1) with h | h <;> simp [h]
      · split
        · cases depth with
          | zero => exact .inl rfl
          | succ depth => rcases ih depth with h | h <;> simp [h]
        · rcases ih depth with h | h <;> simp [h]

theorem countArguments_append (s : List Char) :
    (countArguments (s ++ [c])).1 = (countArguments s).1 ∧
      trim (countArguments (s ++ [c])).2 = trim (countArguments s).2 := by
  rw [countArguments, countArguments]
  rcases scanArguments_append hc 0 s with h | h
  · rw [h]
    exact ⟨rfl, rfl⟩
  · rw [h]
    exact ⟨by simp only [trim_append_blank hc], trim_append_blank hc _⟩

theorem broken?_append (b : Bound) (code : List Char) :
    Bound.broken? b (code ++ [c]) = Bound.broken? b code := by
  unfold Bound.broken?
  rw [claims, claims, claimsFrom_append (boundCall_sound b) (boundCall_ignores hc b),
    List.findSome?_map]
  apply findSome?_congr
  rintro ⟨hit, rest⟩ -
  obtain ⟨hfound, harguments⟩ := countArguments_append hc rest
  simp only [Function.comp_apply, hfound, harguments]

variable {rules : RuleTable} (hrules : WellFormed rules)
include hrules

theorem getLast?_ne_of_mem_words {category : Category} (hcategory : category ≠ .enumMember) :
    ∀ w ∈ (Vocabulary.ofTable rules category).words, w.getLast? ≠ some c := by
  intro w hw hlast
  have hmem : c ∈ w := List.mem_of_getLast? hlast
  have hidentifier : continuesIdentifier c = true :=
    continuesIdentifier_of_isIdentifier (isIdentifier_of_mem_words hrules hcategory hw) c hmem
  simp [(nameless_of_isBlank hc).1] at hidentifier

theorem ignores_of_mem_early {find : Recogniser} (hfind : find ∈ early (.ofTable rules)) :
    Ignores c find := by
  simp only [early, List.mem_cons, List.not_mem_nil, or_false] at hfind
  rcases hfind with rfl | rfl
  · exact lookup_ignores hc
  · exact method_ignores hc (getLast?_ne_of_mem_words hc hrules (by decide))

theorem ignores_of_mem_late {find : Recogniser} (hfind : find ∈ late (.ofTable rules)) :
    Ignores c find := by
  have hwords : ∀ {category : Category}, category ≠ .enumMember →
      ∀ w ∈ (Vocabulary.ofTable rules category).words, w.getLast? ≠ some c :=
    getLast?_ne_of_mem_words hc hrules
  simp only [late, List.mem_cons, List.not_mem_nil, or_false] at hfind
  rcases hfind with rfl | rfl | rfl | rfl | rfl | rfl | rfl | rfl | rfl | rfl
  · exact constructor_ignores hc _
  · exact instanceFactory_ignores hc
  · exact property_ignores hc (hwords (by decide))
  · exact mathFunction_ignores hc (hwords (by decide))
  · exact item_ignores hc (hwords (by decide)) _
  · exact constant_ignores hc (hwords (by decide))
  · exact bright_ignores hc
  · exact elseIf_ignores hc
  · exact globalFunction_ignores hc (hwords (by decide))
  · rw [keyword_eq_constant]
    exact constant_ignores hc (hwords (by decide))

theorem rewriteCode_append (code : List Char) :
    rewriteCode (.ofTable rules) (code ++ [c]) =
      (rewriteCode (.ofTable rules) code).map (· ++ [c]) := by
  have hearly : replaceEach (early (.ofTable rules)) (code ++ [c]) =
      replaceEach (early (.ofTable rules)) code ++ [c] :=
    replaceEach_append_ignored (fun _ => sound_of_mem_early)
      (fun _ => ignores_of_mem_early hc hrules) code
  have hlate := replaceEach_append_ignored (fun _ => sound_of_mem_late hrules)
    (fun _ => ignores_of_mem_late hc hrules) (replaceEach (early (.ofTable rules)) code)
  rw [rewriteCode, rewriteCode, trim_append_blank hc]
  split
  · rfl
  · rw [applyAll_eq, applyAll_eq, hearly, hlate]
    simp only [broken?_append hc]
    split <;> rfl

end Blanks

end SpanishLua.Proofs.Trailing
