import SpanishLua.Proofs.Recognisers

/-!
Properties of texts that only depend on their words. A scan keeps such a property when nothing that
it puts into the text grows together with a word next to it.
-/

namespace SpanishLua.Proofs.Seams

open SpanishLua.Code
open SpanishLua.Text
open SpanishLua.Proofs.Scanning
open SpanishLua.Proofs.Recognisers

/-- No word runs on from `s` into `t`. -/
def Seam (s t : List Char) : Prop :=
  headIsWord s.reverse = false ∨ headIsWord t = false

/-- A property that passes to every piece of a text, and to a text from pieces that meet at a
seam. -/
structure WordLocal (P : List Char → Prop) : Prop where
  of_infix : ∀ {s t : List Char}, s <:+: t → P t → P s
  append : ∀ {s t : List Char}, Seam s t → P s → P t → P (s ++ t)

/-- What is put for a claim does not grow together with the words around it. -/
structure Sealed (before : List Char) (hit : Hit) (rest : List Char) : Prop where
  ne_nil : hit.text ≠ []
  left : headIsWord hit.text = true → headIsWord before = false ∧ headIsWord hit.taken = true
  right : headIsWord hit.text.reverse = true → headIsWord rest = false

/-- Every claim of `find` puts back what it takes, or something sealed that has the property `P` if
what it takes has it. -/
def Keeps (P : List Char → Prop) (find : Recogniser) : Prop :=
  ∀ before hit rest, find before (hit.taken ++ rest) = some hit →
    hit.text = hit.taken ∨ Sealed before hit rest ∧ (P hit.taken → P hit.text)

theorem Seam.of_head {s t : List Char} (h : headIsWord t = false) : Seam s t :=
  .inr h

theorem Seam.of_last {s t : List Char} (h : headIsWord s.reverse = false) : Seam s t :=
  .inl h

/-- A word of a text stands on one side of a seam. -/
theorem Seam.infix_or {s t w : List Char} (h : Seam s t) (hw : WordRun w) (hpiece : w <:+: s ++ t) :
    w <:+: s ∨ w <:+: t := by
  rcases List.infix_append_iff_ne_nil.mp hpiece with
    hleft | hright | ⟨u, v, hu, hv, rfl, ⟨s', rfl⟩, ⟨t', rfl⟩⟩
  · exact .inl hleft
  · exact .inr hright
  · have hleft : WordRun u := ⟨hu, fun c hc => hw.2 c (by simp [hc])⟩
    have hright : WordRun v := ⟨hv, fun c hc => hw.2 c (by simp [hc])⟩
    rcases h with h | h
    · rw [List.reverse_append, hleft.reverse.headIsWord_append] at h
      exact absurd h (by decide)
    · rw [hright.headIsWord_append] at h
      exact absurd h (by decide)

theorem not_headIsWord_cons {c : Char} (hc : isWord c = false) (s : List Char) :
    ¬ headIsWord (c :: s) = true := by
  simpa [headIsWord] using hc

theorem not_lastIsWord_append {t : List Char} (hne : t ≠ []) (ht : headIsWord t.reverse = false)
    (s : List Char) : ¬ headIsWord (s ++ t).reverse = true := by
  rw [List.reverse_append, headIsWord_append (by simpa using hne), ht]
  decide

theorem headIsWord_replaceFrom {P : List Char → Prop} {find : Recogniser} (hsound : Sound find)
    (hkeeps : Keeps P find) {before after : List Char} (h : headIsWord after = false) :
    headIsWord (replaceFrom find before after) = false := by
  induction before, after using scan_induction hsound with
  | nil before =>
      rw [replaceFrom_nil]
      rfl
  | kept before c rest hfind ih =>
      rw [replaceFrom_kept hfind]
      exact h
  | claimed before hit rest hfind ih =>
      have hne := (hsound _ _ _ hfind).1
      rw [headIsWord_append hne] at h
      rw [replaceFrom_claimed hsound hfind]
      rcases hkeeps before hit rest hfind with hsame | ⟨hsealed, -⟩
      · rw [hsame, headIsWord_append hne]
        exact h
      · rw [headIsWord_append hsealed.ne_nil]
        by_contra hword
        rw [Bool.not_eq_false] at hword
        rw [(hsealed.left hword).2] at h
        exact absurd h (by decide)

theorem WordLocal.append_replaceFrom {P : List Char → Prop} (hP : WordLocal P) {find : Recogniser}
    (hsound : Sound find) (hkeeps : Keeps P find) {before after : List Char} (kept : List Char)
    (hkept : kept <+: before) (h : P (kept.reverse ++ after)) :
    P (kept.reverse ++ replaceFrom find before after) := by
  -- `kept` is what has been copied since the last replacement: a word of the text may have been
  -- copied in part only when the induction hypothesis is used
  induction before, after using scan_induction hsound generalizing kept with
  | nil before => rwa [replaceFrom_nil]
  | kept before c rest hfind ih =>
      rw [replaceFrom_kept hfind]
      simpa using ih (c :: kept) (by simpa using hkept) (by simpa using h)
  | claimed before hit rest hfind ih =>
      rw [replaceFrom_claimed hsound hfind]
      rcases hkeeps before hit rest hfind with hsame | ⟨hsealed, htext⟩
      · rw [hsame]
        simpa using ih (hit.taken.reverse ++ kept) (by simpa using hkept) (by simpa using h)
      · have hrest : P rest := hP.of_infix ⟨kept.reverse ++ hit.taken, [], by simp⟩ h
        have htaken : P hit.taken := hP.of_infix ⟨kept.reverse, rest, by simp⟩ h
        have hcopied : P kept.reverse := hP.of_infix ⟨[], hit.taken ++ rest, by simp⟩ h
        have houtput : P (replaceFrom find (hit.taken.reverse ++ before) rest) := by
          simpa using ih [] (by simp) (by simpa using hrest)
        apply hP.append _ hcopied
        · apply hP.append _ (htext htaken) houtput
          by_cases hlast : headIsWord hit.text.reverse = true
          · exact .of_head (headIsWord_replaceFrom hsound hkeeps (hsealed.right hlast))
          · exact .of_last (by simpa using hlast)
        · by_cases hhead : headIsWord hit.text = true
          · refine .of_last ?_
            rw [List.reverse_reverse]
            rcases kept with _ | ⟨c, kept⟩
            · rfl
            · obtain ⟨tail, rfl⟩ := hkept
              exact (hsealed.left hhead).1
          · refine .of_head ?_
            rw [headIsWord_append hsealed.ne_nil]
            simpa using hhead

theorem WordLocal.replaceAll {P : List Char → Prop} (hP : WordLocal P) {find : Recogniser}
    (hsound : Sound find) (hkeeps : Keeps P find) {s : List Char} (h : P s) :
    P (replaceAll find s) :=
  hP.append_replaceFrom hsound hkeeps [] List.nil_prefix h

/-- The texts that passes put in on their own account. -/
def fixedTexts : List (List Char) :=
  ["GetService", "game:GetService", ":", "(", ".new(", "Instance.new(", ".", "math.",
   "BrickColor.new(\"Bright ", "\")", "elseif"].map String.toList

/-- The words of the vocabulary are whole words, and what stands for them has the property `P`. -/
structure Proper (P : List Char → Prop) (v : Vocabulary) : Prop where
  wordRun : ∀ word ∈ v.words, WordRun word
  target_ne_nil : ∀ {token target : List Char}, v.target? token = some target → target ≠ []
  target : ∀ {token target : List Char}, v.target? token = some target → P target

section Claims

variable {P : List Char → Prop}

theorem lookup_keeps (hfixed : ∀ s ∈ fixedTexts, P s) : Keeps P Service.lookup := by
  intro before hit rest h
  obtain ⟨rest', hafter, hboundary, hends, rfl⟩ := exists_of_lookup h
  obtain rfl := List.append_cancel_left hafter
  have hhead := wordRun_accessor.headIsWord_append rest
  rw [atBoundary_of_head hhead] at hboundary
  rw [endsAt_of_wordRun wordRun_accessor] at hends
  refine .inr ⟨⟨?_, fun _ => ⟨hboundary, ?_⟩, fun _ => hends⟩, fun _ => ?_⟩
  · split <;> simp
  · simpa using wordRun_accessor.headIsWord_append []
  · split
    · exact hfixed _ (by simp [fixedTexts])
    · exact hfixed _ (by simp [fixedTexts])

theorem constant_keeps {constants : Vocabulary} (hproper : Proper P constants) :
    Keeps P (Enumeration.constant constants) := by
  intro before hit rest h
  obtain ⟨word, hword, rest', hafter, hboundary, hends, rfl⟩ := exists_of_constant h
  obtain rfl := List.append_cancel_left hafter
  have hrun := hproper.wordRun word hword
  rw [atBoundary_of_head (hrun.headIsWord_append rest)] at hboundary
  rw [endsAt_of_wordRun hrun] at hends
  dsimp only
  split
  · exact .inl rfl
  · cases htarget : constants.target? word with
    | none => exact .inl rfl
    | some target =>
        refine .inr ⟨⟨hproper.target_ne_nil htarget, fun _ => ⟨hboundary, ?_⟩, fun _ => hends⟩,
          fun _ => hproper.target htarget⟩
        simpa using hrun.headIsWord_append []

theorem method_keeps (hP : WordLocal P) (hfixed : ∀ s ∈ fixedTexts, P s) {methods : Vocabulary}
    (hproper : Proper P methods) : Keeps P (Call.method methods) := by
  intro before hit rest h
  obtain ⟨blanks, -, word, -, gap, -, rest', -, -, htext⟩ := exists_of_method h
  cases htarget : methods.target? word with
  | none =>
      rw [htarget] at htext
      exact .inl htext
  | some target =>
      rw [htarget] at htext
      have hcolon : P [':'] := hfixed _ (by simp [fixedTexts])
      have hparen : P ['('] := hfixed _ (by simp [fixedTexts])
      refine .inr ⟨⟨by simp [htext], ?_, ?_⟩, fun _ => ?_⟩
      · rw [htext]
        exact fun hhead => absurd hhead (not_headIsWord_cons (by decide) _)
      · rw [htext]
        exact fun hlast => absurd hlast (not_lastIsWord_append (by decide) (by decide) _)
      · rw [htext]
        exact hP.append (.of_head (by decide)) (hP.append (.of_last (by decide)) hcolon
          (hproper.target htarget)) hparen

theorem constructor_keeps (hP : WordLocal P) (hfixed : ∀ s ∈ fixedTexts, P s) {types : Vocabulary}
    (hproper : Proper P types) : Keeps P (Call.constructor types) := by
  intro before hit rest h
  obtain ⟨hbefore, name, hname, gap, -, rest', -, rfl⟩ := constructor_eq_some_iff.mp h
  have hnew : P ".new(".toList := hfixed _ (by simp [fixedTexts])
  refine .inr ⟨⟨by simp, fun _ => ⟨hbefore, ?_⟩, ?_⟩, fun htaken => ?_⟩
  · rw [List.append_assoc]
    exact hname.headIsWord_append _
  · exact fun hlast => absurd hlast (not_lastIsWord_append (by decide) (by decide) _)
  · refine hP.append (.of_head (by decide)) ?_ hnew
    cases htarget : types.target? name with
    | none => exact hP.of_infix ⟨[], constructorEnding ++ (gap ++ ['(']), by simp⟩ htaken
    | some target => exact hproper.target htarget

theorem instanceFactory_keeps (hfixed : ∀ s ∈ fixedTexts, P s) : Keeps P Call.instanceFactory := by
  intro before hit rest h
  obtain ⟨hboundary, gap, -, rest', hafter, rfl⟩ := exists_of_instanceFactory h
  have hrun := wordRun_instanceFactory
  rw [hafter, atBoundary_of_head (hrun.headIsWord_append _)] at hboundary
  refine .inr ⟨⟨by simp, fun _ => ⟨hboundary, hrun.headIsWord_append _⟩, ?_⟩, fun _ => ?_⟩
  · exact fun hlast => absurd hlast (not_lastIsWord_append (s := []) (by decide) (by decide))
  · exact hfixed _ (by simp [fixedTexts])

theorem property_keeps (hP : WordLocal P) (hfixed : ∀ s ∈ fixedTexts, P s) {properties : Vocabulary}
    (hproper : Proper P properties) : Keeps P (Member.property properties) := by
  intro before hit rest h
  obtain ⟨word, hword, rest', hafter, hends, htaken, hsame | ⟨target, htarget, htext⟩⟩ :=
    exists_of_property h
  · exact .inl hsame
  · rw [htaken] at hafter
    obtain rfl := List.append_cancel_left hafter
    rw [endsAt_of_wordRun (hproper.wordRun word hword)] at hends
    have hdot : P ['.'] := hfixed _ (by simp [fixedTexts])
    refine .inr ⟨⟨by simp [htext], ?_, fun _ => hends⟩, fun _ => ?_⟩
    · rw [htext]
      exact fun hhead => absurd hhead (not_headIsWord_cons (by decide) _)
    · rw [htext]
      exact hP.append (s := ['.']) (.of_last (by decide)) hdot (hproper.target htarget)

theorem mathFunction_keeps (hP : WordLocal P) (hfixed : ∀ s ∈ fixedTexts, P s)
    {functions : Vocabulary} (hproper : Proper P functions) :
    Keeps P (Member.mathFunction functions) := by
  intro before hit rest h
  obtain ⟨word, hword, rest', hafter, hboundary, hends, rfl⟩ := exists_of_mathFunction h
  obtain rfl := List.append_cancel_left hafter
  have hlibrary : headIsWord Member.mathLibrary = true := by decide
  have hne : Member.mathLibrary ≠ [] := by decide
  have hmath : P Member.mathLibrary := hfixed _ (by simp [fixedTexts, Member.mathLibrary])
  rw [endsAt_of_wordRun (hproper.wordRun word hword)] at hends
  rw [atBoundary_of_head] at hboundary
  · refine .inr ⟨⟨by simp [hne], fun _ => ⟨hboundary, ?_⟩, fun _ => hends⟩, fun htaken => ?_⟩
    · rw [headIsWord_append hne]
      exact hlibrary
    · refine hP.append (.of_last (by decide)) hmath ?_
      cases htarget : functions.target? word with
      | none => exact hP.of_infix ⟨Member.mathLibrary, [], by simp⟩ htaken
      | some target => exact hproper.target htarget
  · rw [List.append_assoc, headIsWord_append hne]
    exact hlibrary

theorem bright_keeps (hP : WordLocal P) (hfixed : ∀ s ∈ fixedTexts, P s) :
    Keeps P Enumeration.bright := by
  intro before hit rest h
  obtain ⟨hboundary, colour, hcolour, rest', hafter, -, rfl⟩ := exists_of_bright h
  rw [hafter, List.append_assoc, atBoundary_of_head (hcolour.headIsWord_append _)] at hboundary
  have hopen : P "BrickColor.new(\"Bright ".toList := hfixed _ (by simp [fixedTexts])
  have hclose : P "\")".toList := hfixed _ (by simp [fixedTexts])
  refine .inr ⟨⟨by simp, fun _ => ⟨hboundary, hcolour.headIsWord_append _⟩, ?_⟩, fun htaken => ?_⟩
  · exact fun hlast => absurd hlast (not_lastIsWord_append (by decide) (by decide) _)
  · have hpiece : P colour := hP.of_infix ⟨[], Enumeration.brightEnding, by simp⟩ htaken
    exact hP.append (.of_head (by decide)) (hP.append (.of_last (by decide)) hopen hpiece) hclose

theorem elseIf_keeps (hfixed : ∀ s ∈ fixedTexts, P s) : Keeps P Keyword.elseIf := by
  intro before hit rest h
  obtain ⟨hboundary, gap, -, -, rest', hafter, hends, rfl⟩ := exists_of_elseIf h
  obtain rfl := List.append_cancel_left hafter
  have hsino : WordRun "sino".toList := by decide
  have hsi : WordRun "si".toList := by decide
  rw [hafter, List.append_assoc, List.append_assoc,
    atBoundary_of_head (hsino.headIsWord_append _)] at hboundary
  refine .inr ⟨⟨by simp, fun _ => ⟨hboundary, ?_⟩, fun _ => ?_⟩, fun _ => ?_⟩
  · rw [List.append_assoc]
    exact hsino.headIsWord_append _
  · rw [endsAt, atBoundary, List.reverse_append, List.append_assoc,
      hsi.reverse.headIsWord_append] at hends
    simpa using hends
  · exact hfixed _ (by simp [fixedTexts])

theorem globalFunction_keeps (hP : WordLocal P) {functions : Vocabulary}
    (hproper : Proper P functions) : Keeps P (Keyword.globalFunction functions) := by
  intro before hit rest h
  obtain ⟨word, hword, gap, hgap, rest', hafter, hboundary, -, rfl⟩ := exists_of_globalFunction h
  have hrun := hproper.wordRun word hword
  rw [hafter, atBoundary_of_head (hrun.headIsWord_append _)] at hboundary
  dsimp only
  split
  · exact .inl rfl
  · cases htarget : functions.target? word with
    | none => exact .inl rfl
    | some target =>
        refine .inr ⟨⟨by simp, fun _ => ⟨hboundary, hrun.headIsWord_append _⟩, ?_⟩,
          fun htaken => ?_⟩
        · rw [Option.getD_some, ← List.append_assoc target gap]
          exact fun hlast => absurd hlast (not_lastIsWord_append (by decide) (by decide) _)
        · have hparen : P (gap ++ ['(']) := hP.of_infix ⟨word, [], by simp⟩ htaken
          exact hP.append (.of_head (headIsWord_of_gap hgap (by decide)))
            (hproper.target htarget) hparen

theorem item_keeps (hP : WordLocal P) (hfixed : ∀ s ∈ fixedTexts, P s)
    {families members : Vocabulary} (hfamilies : Proper P families)
    (hmembers : ∀ {token target : List Char}, members.target? token = some target →
      P target ∧ target ≠ [] ∧ ∀ c ∈ token, c.toNat < 128 ∨ c.toNat = 0x212A) :
    Keeps P (Enumeration.item families members) := by
  intro before hit rest h
  obtain ⟨family, hfamily, member, rest', hafter, hname, hboundary, htaken,
    hsame | ⟨familyTarget, memberTarget, hfamilyTarget, hmemberTarget, htext⟩⟩ := exists_of_item h
  · exact .inl hsame
  · obtain ⟨hmember, hmemberNe, hascii⟩ := hmembers hmemberTarget
    have hrest : rest' = rest := by
      have hsplit : hit.taken ++ rest = hit.taken ++ rest' := by simpa [htaken] using hafter
      exact (List.append_cancel_left hsplit).symm
    subst hrest
    have hrun := hfamilies.wordRun family hfamily
    rw [hafter, atBoundary_of_head (hrun.headIsWord_append _)] at hboundary
    obtain ⟨hne, hitem, rest'', hsplit, hends⟩ := exists_of_itemName? hname
    obtain rfl := List.append_cancel_left hsplit
    -- the name of an item may end in a character that is in no word, but then it has no rule
    have hmemberRun : WordRun member := by
      refine ⟨hne, fun c hc => isWord_of_isItemChar ?_ (hitem c hc)⟩
      exact hascii c (by simp [htaken, hc])
    rw [endsAt_of_wordRun hmemberRun] at hends
    refine .inr ⟨⟨by simp [htext], fun _ => ⟨hboundary, ?_⟩, fun _ => hends⟩, fun _ => ?_⟩
    · rw [htaken]
      exact hrun.headIsWord_append _
    · rw [htext]
      have hdot : P ['.'] := hfixed _ (by simp [fixedTexts])
      refine hP.append (.of_head (by rfl)) (hfamilies.target hfamilyTarget) ?_
      exact hP.append (s := ['.']) (.of_last (by decide)) hdot hmember

end Claims

end SpanishLua.Proofs.Seams
