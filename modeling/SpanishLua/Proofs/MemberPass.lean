import SpanishLua.Proofs.Puts
import SpanishLua.Proofs.Runs

namespace SpanishLua.Proofs.MemberPass

open SpanishLua.Code
open SpanishLua.Text
open SpanishLua.Proofs.Scanning
open SpanishLua.Proofs.Recognisers
open SpanishLua.Proofs.Tables
open SpanishLua.Proofs.Defaults
open SpanishLua.Proofs.Places
open SpanishLua.Proofs.Words
open SpanishLua.Proofs.Puts
open SpanishLua.Proofs.Severing
open SpanishLua.Proofs.Runs

/-- The place is right behind a dot that does not follow another one. -/
def AfterDot (before : List Char) : Prop :=
  before.head? = some '.' ∧ before.tail.head? ≠ some '.'

/-- The place is right behind a dot, and that is right behind the whole word `math`. -/
def InMath (before : List Char) : Prop :=
  before.head? = some '.' ∧ wordRun before.tail = "math".toList.reverse

instance : DecidablePred AfterDot := fun _ =>
  inferInstanceAs (Decidable (_ ∧ _))

instance : DecidablePred InMath := fun _ =>
  inferInstanceAs (Decidable (_ ∧ _))

/-- What the default rules of a category have for a run, if it stands at the right place. -/
def translationAt? (place : List Char → Prop) [DecidablePred place] (category : Category)
    (before run : List Char) : Option (List Char) :=
  if place before then translation? RuleTable.default category run else none

/-- What is put for a run by itself. -/
def memberText (before run : List Char) : List Char :=
  ((translationAt? AfterDot .propertyName before run).or
    (translationAt? InMath .mathFunction before run)).getD run

/-- What is put for a run if only properties are translated. -/
def propertyText (before run : List Char) : List Char :=
  (translationAt? AfterDot .propertyName before run).getD run

/-- What is put for a run if only functions of the library are translated. -/
def mathText (before run : List Char) : List Char :=
  (translationAt? InMath .mathFunction before run).getD run

/-- The text starts with a whole word of the vocabulary. -/
def StartsWith (v : Vocabulary) (s : List Char) : Prop :=
  ∃ word ∈ v.words, ∃ rest, headIsWord rest = false ∧ s = word ++ rest

section Texts

variable {place : List Char → Prop} [DecidablePred place] {category : Category}
  {before run rest : List Char}

theorem translationAt?_of_mem (hplace : place before) (hrun : run ∈ (vocabulary category).words) :
    translationAt? place category before run = (vocabulary category).target? run := by
  rw [translationAt?, if_pos hplace, translation?_of_mem default_wellFormed hrun]

theorem translationAt?_of_not (h : place before → run ∉ (vocabulary category).words) :
    translationAt? place category before run = none := by
  rw [translationAt?]
  split
  · rename_i hplace
    exact translation?_of_notMem (h hplace)
  · rfl

theorem notMem_of_not_startsWith {v : Vocabulary} (h : ¬ StartsWith v (run ++ rest))
    (hrest : headIsWord rest = false) : run ∉ v.words :=
  fun hrun => h ⟨run, hrun, rest, hrest, rfl⟩

theorem wordRun_reverse_append (hrun : WordRun run) (hbefore : headIsWord before = false) :
    wordRun (run.reverse ++ before) = run.reverse :=
  hrun.reverse.takeWhile_append hbefore

theorem head?_reverse_append (hrun : WordRun run) (before : List Char) :
    (run.reverse ++ before).head? ≠ some '.' := by
  intro hhead
  obtain ⟨tail, htail⟩ := List.head?_eq_some_iff.mp hhead
  have hword := hrun.reverse.headIsWord_append before
  rw [htail] at hword
  exact absurd (show isWord '.' = true from hword) (by decide)

end Texts

section Properties

variable {before word rest : List Char}

theorem property_inside (v : Vocabulary) (hword : ∀ c ∈ word, isWord c = true)
    (before rest : List Char) :
    replaceFrom (Member.property v) before (word ++ rest) =
      word ++ replaceFrom (Member.property v) (word.reverse ++ before) rest := by
  induction word generalizing before with
  | nil => rfl
  | cons c word ih =>
      obtain ⟨hc, hword⟩ := List.forall_mem_cons.mp hword
      have hnone : Member.property v before (c :: (word ++ rest)) = none := by
        cases hfind : Member.property v before (c :: (word ++ rest)) with
        | none => rfl
        | some hit =>
            obtain ⟨tail, htail⟩ := exists_of_property_head hfind
            rw [(List.cons.inj htail).1] at hc
            exact absurd hc (by decide)
      rw [List.cons_append, replaceFrom_kept hnone, ih hword]
      simp

theorem property_claimed {v : Vocabulary} (hv : ∀ w ∈ v.words, WordRun w) (hword : word ∈ v.words)
    (hrest : headIsWord rest = false) :
    replaceFrom (Member.property v) before ('.' :: (word ++ rest)) =
      '.' :: ((if before.head? = some '.' then word else (v.target? word).getD word) ++
        replaceFrom (Member.property v) (word.reverse ++ '.' :: before) rest) := by
  obtain ⟨hit, hhit⟩ : ∃ hit : Hit, hit = ⟨'.' :: word,
      '.' :: if before.head? = some '.' then word else (v.target? word).getD word⟩ := ⟨_, rfl⟩
  have htaken : hit.taken ++ rest = '.' :: (word ++ rest) := by rw [hhit, List.cons_append]
  have hclaim : Member.property v before (hit.taken ++ rest) = some hit :=
    (property_eq_some_iff hv).mpr ⟨word, hword, rest, htaken, hrest, hhit⟩
  rw [← htaken, replaceFrom_claimed (property_sound v) hclaim, hhit]
  simp

theorem propertyText_dot (hword : word ∈ (vocabulary .propertyName).words) :
    propertyText ('.' :: before) word = if before.head? = some '.' then word
      else ((vocabulary .propertyName).target? word).getD word := by
  rw [propertyText]
  split
  · rename_i hdots
    rw [translationAt?_of_not fun hdot => absurd hdots hdot.2, Option.getD_none]
  · rename_i hdot
    rw [translationAt?_of_mem ⟨rfl, hdot⟩ hword]

theorem property_eq_overRuns (before code : List Char)
    (hplace : headIsWord before = false ∨ headIsWord code = false)
    (hpassed : before.head? = some '.' → ¬ StartsWith (vocabulary .propertyName) code) :
    replaceFrom (Member.property (vocabulary .propertyName)) before code =
      overRuns (substitute propertyText) before code := by
  have hv : ∀ w ∈ (vocabulary .propertyName).words, WordRun w :=
    wordRun_of_mem_vocabulary (by decide)
  induction before, code using run_induction with
  | nil before => rw [replaceFrom_nil, overRuns_nil]
  | other before c rest hc ih =>
      cases hfind : Member.property (vocabulary .propertyName) before (c :: rest) with
      | none =>
          have hnext : (c :: before).head? = some '.' →
              ¬ StartsWith (vocabulary .propertyName) rest := by
            rintro hdot ⟨word, hword, tail, htail, rfl⟩
            obtain rfl : c = '.' := by simpa using hdot
            rw [(property_eq_some_iff hv).mpr ⟨word, hword, tail, rfl, htail, rfl⟩] at hfind
            exact absurd hfind (by simp)
          rw [replaceFrom_kept hfind, overRuns_other hc]
          exact congrArg (c :: ·) (ih [] rest rfl (.inl hc) hnext)
      | some hit =>
          obtain ⟨word, hword, tail, hsplit, htail, rfl⟩ := (property_eq_some_iff hv).mp hfind
          obtain ⟨rfl, rfl⟩ := List.cons.inj hsplit
          rw [property_claimed hv hword htail, overRuns_other hc,
            overRuns_step (hv word hword) htail rfl, propertyText_dot hword,
            ih word tail rfl (.inr htail)
              fun hdot => absurd hdot (head?_reverse_append (hv word hword) _)]
  | run before word rest hword hrest ih =>
      have hstays : propertyText before word = word := by
        rw [propertyText, translationAt?_of_not, Option.getD_none]
        exact fun hdot => notMem_of_not_startsWith (hpassed hdot.1) hrest
      rw [property_inside _ hword.2, overRuns_step hword hrest rfl, hstays]
      exact congrArg (word ++ ·) (ih [] rest rfl (.inr hrest)
        fun hdot => absurd hdot (head?_reverse_append hword before))

end Properties

section Functions

variable {v : Vocabulary} (hv : ∀ w ∈ v.words, WordRun w) {before word rest : List Char}

include hv

theorem mathFunction_wordWise : WordWise (Member.mathFunction v) where
  sound := mathFunction_sound v
  starts := by
    intro before after hit h
    obtain ⟨word, -, rest, rfl, hleft, -⟩ := (mathFunction_eq_some_iff hv).mp h
    exact ⟨hleft, rfl⟩
  behind := by
    intro before before' after halike
    ext hit
    simp only [mathFunction_eq_some_iff hv, halike.word]
  ahead := by
    intro before hit rest rest' hrest h
    obtain ⟨word, hword, tail, htail, hleft, hright, rfl⟩ := (mathFunction_eq_some_iff hv).mp h
    obtain rfl : rest = tail := by simpa using htail
    exact (mathFunction_eq_some_iff hv).mpr
      ⟨word, hword, rest', by simp, hleft, hrest ▸ hright, rfl⟩

theorem mathFunction_claimed (hword : word ∈ v.words) (hbefore : headIsWord before = false)
    (hrest : headIsWord rest = false) :
    replaceFrom (Member.mathFunction v) before ("math".toList ++ '.' :: (word ++ rest)) =
      "math".toList ++ '.' :: ((v.target? word).getD word ++ replaceFrom (Member.mathFunction v)
        (word.reverse ++ '.' :: ("math".toList.reverse ++ before)) rest) := by
  obtain ⟨hit, hhit⟩ : ∃ hit : Hit, hit = ⟨Member.mathLibrary ++ word,
      Member.mathLibrary ++ (v.target? word).getD word⟩ := ⟨_, rfl⟩
  have htaken : hit.taken ++ rest = Member.mathLibrary ++ (word ++ rest) := by
    rw [hhit, List.append_assoc]
  have hclaim : Member.mathFunction v before (hit.taken ++ rest) = some hit :=
    (mathFunction_eq_some_iff hv).mpr ⟨word, hword, rest, htaken, hbefore, hrest, hhit⟩
  have hstep := replaceFrom_claimed (mathFunction_sound v) hclaim
  rw [htaken, hhit, List.append_assoc, List.reverse_append, List.append_assoc] at hstep
  exact hstep

theorem mathFunction_kept (hword : WordRun word) (hrest : headIsWord rest = false)
    (h : word = "math".toList → ∀ tail, rest = '.' :: tail → ¬ StartsWith v tail) :
    replaceFrom (Member.mathFunction v) before (word ++ rest) =
      word ++ replaceFrom (Member.mathFunction v) (word.reverse ++ before) rest := by
  refine (mathFunction_wordWise hv).replaceFrom_word hword fun hit hfind => ?_
  obtain ⟨found, hfound, tail, hsplit, -, htail, -⟩ := (mathFunction_eq_some_iff hv).mp hfind
  have hlibrary : word ++ rest = "math".toList ++ '.' :: (found ++ tail) := hsplit
  obtain ⟨hmath, hdot⟩ := word_append_inj hword (by decide) hrest (by rfl) hlibrary
  exact absurd ⟨found, hfound, tail, htail, rfl⟩ (h hmath _ hdot)

end Functions

section Library

variable {before word : List Char}

theorem mathText_of_notMem (h : InMath before → word ∉ (vocabulary .mathFunction).words) :
    mathText before word = word := by
  rw [mathText, translationAt?_of_not h, Option.getD_none]

theorem inMath_dot (hbefore : headIsWord before = false) :
    InMath ('.' :: ("math".toList.reverse ++ before)) :=
  ⟨rfl, wordRun_reverse_append (by decide) hbefore⟩

theorem mathText_dot (hbefore : headIsWord before = false)
    (hword : word ∈ (vocabulary .mathFunction).words) :
    mathText ('.' :: ("math".toList.reverse ++ before)) word =
      ((vocabulary .mathFunction).target? word).getD word := by
  rw [mathText, translationAt?_of_mem (inMath_dot hbefore) hword]

theorem not_inMath_of_word (hword : WordRun word) : ¬ InMath (word.reverse ++ before) :=
  fun h => head?_reverse_append hword before h.1

theorem wordRun_ne_math {c : Char} (hc : isWord c = false) :
    wordRun (c :: before) ≠ "math".toList.reverse := by
  rw [wordRun, List.takeWhile_cons_of_neg (by simp [hc])]
  decide

/-- The scan for functions, from a place that no claim could have run over: not between the name of
the library and its dot, nor behind that dot before a function. -/
theorem mathFunction_eq_overRuns (before code : List Char)
    (hplace : headIsWord before = false ∨ headIsWord code = false)
    (hname : wordRun before = "math".toList.reverse → code.head? ≠ some '.')
    (hpassed : InMath before → ¬ StartsWith (vocabulary .mathFunction) code) :
    replaceFrom (Member.mathFunction (vocabulary .mathFunction)) before code =
      overRuns (substitute mathText) before code := by
  have hv : ∀ w ∈ (vocabulary .mathFunction).words, WordRun w :=
    wordRun_of_mem_vocabulary (by decide)
  have hwise := mathFunction_wordWise hv
  induction before, code using run_induction with
  | nil before => rw [replaceFrom_nil, overRuns_nil]
  | other before c rest hc ih =>
      rw [replaceFrom_kept (hwise.eq_none_of_head hc), overRuns_other hc]
      refine congrArg (c :: ·) (ih [] rest rfl (.inl hc) (absurd · (wordRun_ne_math hc)) ?_)
      rintro ⟨hdot, hrun⟩
      exact absurd hdot (hname hrun)
  | run before word rest hword hrest ih =>
      have hbefore := headIsWord_of_place hword hplace
      have hstays : mathText before word = word :=
        mathText_of_notMem fun hin => notMem_of_not_startsWith (hpassed hin) hrest
      by_cases hmath : word = "math".toList ∧ rest.head? = some '.'
      · obtain ⟨rfl, hdot⟩ := hmath
        obtain ⟨tail, rfl⟩ := List.head?_eq_some_iff.mp hdot
        by_cases hfunction : StartsWith (vocabulary .mathFunction) tail
        · -- the claim is on the name, the dot and the function, which are three steps of the pass
          obtain ⟨found, hfound, left, hleft, rfl⟩ := hfunction
          have hrun := hv found hfound
          have hnext := ih ('.' :: found) left rfl (.inr hleft)
          rw [List.reverse_cons, List.append_assoc, List.singleton_append] at hnext
          rw [mathFunction_claimed hv hfound hbefore hleft, overRuns_step hword hrest rfl, hstays,
            overRuns_other hrest, overRuns_step hrun hleft rfl, mathText_dot hbefore hfound, hnext]
          · intro hname
            rw [wordRun_reverse_append hrun (by rfl)] at hname
            exact absurd (List.reverse_injective hname ▸ hfound)
              (notMem_vocabulary (by simp) _)
          · exact fun hin => absurd hin (not_inMath_of_word hrun)
        · have hkept : "math".toList = "math".toList → ∀ tail', '.' :: tail = '.' :: tail' →
              ¬ StartsWith (vocabulary .mathFunction) tail' := by
            rintro - _ ⟨⟩
            exact hfunction
          rw [mathFunction_kept hv hword hrest hkept, overRuns_step hword hrest rfl, hstays,
            replaceFrom_kept (hwise.eq_none_of_head hrest), overRuns_other hrest]
          exact congrArg ("math".toList ++ '.' :: ·)
            (ih ['.'] tail rfl (.inl rfl) (absurd · (wordRun_ne_math hrest)) fun _ => hfunction)
      · have hkept : word = "math".toList → ∀ tail, rest = '.' :: tail →
            ¬ StartsWith (vocabulary .mathFunction) tail := by
          rintro hword tail rfl
          exact absurd ⟨hword, rfl⟩ hmath
        have hnext := ih [] rest rfl (.inr hrest)
        rw [List.reverse_nil, List.nil_append] at hnext
        rw [mathFunction_kept hv hword hrest hkept, overRuns_step hword hrest rfl, hstays, hnext]
        · intro hname hdot
          rw [wordRun_reverse_append hword hbefore] at hname
          exact hmath ⟨List.reverse_injective hname, hdot⟩
        · exact fun hin => absurd hin (not_inMath_of_word hword)

end Library

section Both

/-- Two texts before a place that the scan for functions cannot tell apart. -/
structure SameLibrary (before before' : List Char) : Prop where
  word : headIsWord before = headIsWord before'
  name : wordRun before = "math".toList.reverse ↔ wordRun before' = "math".toList.reverse
  inside : InMath before ↔ InMath before'

/-- The word starts with a capital. -/
def Capital (word : List Char) : Prop :=
  word.head?.any Char.isUpper = true

instance : DecidablePred Capital := fun _ =>
  inferInstanceAs (Decidable (_ = _))

theorem apart_of_property {r : Rule} (hr : r ∈ RuleTable.default.rules .propertyName) :
    WordRun r.target.toList ∧ r.source.toList ≠ "math".toList ∧ r.target.toList ≠ "math".toList ∧
      r.target.toList ∉ (vocabulary .mathFunction).words := by
  have hcapitals : ∀ x ∈ spellings.val,
      (x.category = .propertyName → x.source ≠ "math".toList ∧ Capital x.target) ∧
        (x.category = .mathFunction → ¬ Capital x.source) := by
    decide +kernel
  obtain ⟨hmem, hcategory⟩ := mem_rules_iff.mp hr
  obtain ⟨hsource, htarget⟩ := (forall_default hcapitals r hmem).1 hcategory
  refine ⟨(ends_of_target r hmem).2.2 hcategory, hsource, fun hmath => ?_, fun hword => ?_⟩
  · have hcapital : Capital "math".toList := hmath ▸ htarget
    exact absurd hcapital (by decide)
  · obtain ⟨f, hf, hfsource⟩ := mem_words_ofTable.mp hword
    obtain ⟨hfmem, hfcategory⟩ := mem_rules_iff.mp hf
    refine (forall_default hcapitals f hfmem).2 hfcategory ?_
    exact show Capital f.source.toList from hfsource ▸ htarget

theorem propertyText_cases (before run : List Char) :
    (∃ r ∈ RuleTable.default.rules .propertyName, r.source.toList = run ∧
      translationAt? AfterDot .propertyName before run = some r.target.toList) ∨
    translationAt? AfterDot .propertyName before run = none := by
  by_cases h : AfterDot before → run ∉ (vocabulary .propertyName).words
  · exact .inr (translationAt?_of_not h)
  · obtain ⟨hplace, hrun⟩ : AfterDot before ∧ run ∈ (vocabulary .propertyName).words := by
      simpa using h
    obtain ⟨r, hr, hsource, htarget⟩ := exists_rule_of_mem_words default_wellFormed hrun
    exact .inl ⟨r, hr, hsource, (translationAt?_of_mem hplace hrun).trans htarget⟩

theorem mathText_propertyText {before before' run : List Char}
    (hsame : SameLibrary before before') :
    mathText before' (propertyText before run) = memberText before run := by
  rcases propertyText_cases before run with ⟨r, hr, -, hsome⟩ | hnone
  · obtain ⟨-, -, -, hforeign⟩ := apart_of_property hr
    rw [propertyText, memberText, hsome, Option.some_or, Option.getD_some,
      mathText_of_notMem fun _ => hforeign]
  · rw [propertyText, memberText, hnone, Option.none_or, Option.getD_none, mathText]
    simp only [translationAt?, hsame.inside]

theorem SameLibrary.cons {before before' : List Char} (h : SameLibrary before before') {c : Char}
    (hc : isWord c = false) : SameLibrary (c :: before) (c :: before') := by
  refine ⟨rfl, ?_, and_congr_right fun _ => h.name⟩
  rw [wordRun, wordRun, List.takeWhile_cons_of_neg (by simp [hc]),
    List.takeWhile_cons_of_neg (by simp [hc])]

theorem SameLibrary.append {before before' run run' : List Char}
    (h : SameLibrary before before') (hbefore : headIsWord before = false) (hrun : WordRun run)
    (hrun' : WordRun run') (hname : run = "math".toList ↔ run' = "math".toList) :
    SameLibrary (run.reverse ++ before) (run'.reverse ++ before') := by
  have hbefore' := h.word ▸ hbefore
  refine ⟨?_, ?_, iff_of_false (not_inMath_of_word hrun) (not_inMath_of_word hrun')⟩
  · rw [hrun.reverse.headIsWord_append, hrun'.reverse.headIsWord_append]
  · rw [wordRun_reverse_append hrun hbefore, wordRun_reverse_append hrun' hbefore',
      List.reverse_inj, List.reverse_inj, hname]

theorem propertyText_same {before before' run : List Char} (h : SameLibrary before before')
    (hbefore : headIsWord before = false) (hrun : WordRun run) :
    WordRun (propertyText before run) ∧
      SameLibrary (run.reverse ++ before) ((propertyText before run).reverse ++ before') := by
  rcases propertyText_cases before run with ⟨r, hr, rfl, hsome⟩ | hnone
  · obtain ⟨htarget, hsource, hname, -⟩ := apart_of_property hr
    rw [propertyText, hsome, Option.getD_some]
    exact ⟨htarget, h.append hbefore hrun htarget (iff_of_false hsource hname)⟩
  · rw [propertyText, hnone, Option.getD_none]
    exact ⟨hrun, h.append hbefore hrun hrun Iff.rfl⟩

end Both

/-- Under the default rules the pass over members is a single pass over the runs of the code. -/
theorem properties_eq_overRuns (code : List Char) :
    Pass.apply (.ofTable RuleTable.default) code .properties =
      .ok (overRuns (substitute memberText) [] code) := by
  have hproperties : replaceAll (Member.property (vocabulary .propertyName)) code =
      overRuns (substitute propertyText) [] code :=
    property_eq_overRuns [] code (.inl rfl) (by simp)
  have hfunctions : ∀ s, replaceAll (Member.mathFunction (vocabulary .mathFunction)) s =
      overRuns (substitute mathText) [] s :=
    fun s => mathFunction_eq_overRuns [] s (.inl rfl) (fun h => absurd h (by decide))
      fun h => absurd h.1 (by simp)
  have hboth : overRuns (substitute mathText) [] (overRuns (substitute propertyText) [] code) =
      overRuns (substitute memberText) [] code :=
    overRuns_overRuns (R := SameLibrary) (fun _ _ _ hc h => h.cons hc)
      (fun _ _ _ hrun hbefore h => propertyText_same h hbefore hrun)
      (fun _ _ _ _ h => mathText_propertyText h) ⟨rfl, Iff.rfl, Iff.rfl⟩ (.inl rfl)
  rw [← hboth, ← hproperties, ← hfunctions]
  rfl

end SpanishLua.Proofs.MemberPass
