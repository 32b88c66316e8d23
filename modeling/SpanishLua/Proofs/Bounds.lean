import SpanishLua.Proofs.Defaults
import SpanishLua.Proofs.Recognisers

namespace SpanishLua.Proofs.Bounds

open SpanishLua.Code
open SpanishLua.Text
open SpanishLua.Proofs.Characters
open SpanishLua.Proofs.Scanning
open SpanishLua.Proofs.Recognisers
open SpanishLua.Proofs.Tables
open SpanishLua.Proofs.Defaults

/-- The pass puts the target of `r` for a call of `name`, which stands after `before` and whose
arguments start `rest`. -/
def Rewrites (rules : RuleTable) (r : Rule) (code before name rest : List Char) : Prop :=
  ∃ gap, (∀ c ∈ gap, isBlank c = true) ∧
    code = before ++ (name ++ constructorEnding ++ (gap ++ '(' :: rest)) ∧
    (⟨name ++ constructorEnding ++ (gap ++ ['(']), r.target.toList ++ ".new(".toList⟩, rest) ∈
      claims (Call.constructor (.ofTable rules .constructorName)) code

/-- The call after `before` is itself a piece of `target`, which the code spells out and calls
there. -/
def InsideTarget (source target code before : List Char) : Prop :=
  ∃ left inner gap rest, inner ≠ [] ∧ before = left ++ inner ∧
    inner ++ (source ++ constructorEnding) <+: target ∧ (∀ c ∈ gap, isBlank c = true) ∧
    code = left ++ (target ++ ".new".toList ++ (gap ++ '(' :: rest))

/-- In code that the pass accepts, calls of `name` through `r` have at most `m` arguments, those
inside the target of `r` apart. -/
def Checked (rules : RuleTable) (r : Rule) (m : Nat) (name : List Char) : Prop :=
  ∀ code lua, Pass.apply (.ofTable rules) code .constructors = .ok lua →
    ∀ before rest, Rewrites rules r code before name rest →
      (countArguments rest).1 ≤ m ∨ InsideTarget r.source.toList r.target.toList code before

section Check

variable {b : Bound} {before after code : List Char} {hit : Hit}

theorem exists_of_boundCall (h : Bound.call b before after = some hit) :
    atBoundary before after = true ∧
      ∃ word ∈ [b.source ++ constructorEnding, b.target ++ ".new".toList],
        ∃ gap, (∀ c ∈ gap, isBlank c = true) ∧ ∃ rest, after = word ++ (gap ++ '(' :: rest) ∧
          hit.taken = word ++ (gap ++ ['(']) := by
  rw [Bound.call] at h
  split at h
  · rename_i hboundary
    obtain ⟨word, hword, tail, hafter, haccept⟩ := exists_of_firstWord? h
    obtain ⟨⟨paren, rest⟩, hopening, rfl⟩ := Option.map_eq_some_iff.mp haccept
    obtain ⟨gap, hgap, rfl, rfl⟩ := opening?_eq_some_iff.mp hopening
    exact ⟨hboundary, word, hword, gap, hgap, rest, hafter, rfl⟩
  · simp at h

theorem boundCall_sound (b : Bound) : Sound (Bound.call b) := by
  intro before after hit h
  obtain ⟨-, word, -, gap, -, rest, rfl, htaken⟩ := exists_of_boundCall h
  exact ⟨by simp [htaken], rest, by simp [htaken]⟩

theorem exists_boundCall (hsource : WordRun b.source) (hbefore : headIsWord before = false)
    {gap : List Char} (hgap : ∀ c ∈ gap, isBlank c = true) (rest : List Char) :
    ∃ hit : Hit, hit.taken = b.source ++ constructorEnding ++ (gap ++ ['(']) ∧
      Bound.call b before (hit.taken ++ rest) = some hit := by
  refine ⟨⟨_, b.source ++ constructorEnding ++ (gap ++ ['('])⟩, rfl, ?_⟩
  have hrun := hsource.append wordRun_constructorEnding
  have hregroup : b.source ++ constructorEnding ++ (gap ++ ['(']) ++ rest =
      b.source ++ constructorEnding ++ (gap ++ '(' :: rest) := by simp
  have hboundary := (atBoundary_of_head (hrun.headIsWord_append (gap ++ '(' :: rest))).mpr hbefore
  have hprefix : (b.source ++ constructorEnding).isPrefixOf?
      (b.source ++ constructorEnding ++ (gap ++ '(' :: rest)) = some (gap ++ '(' :: rest) :=
    isPrefixOf?_eq_some_iff.mpr rfl
  have hopening : opening? (gap ++ '(' :: rest) = some (gap ++ ['('], rest) :=
    opening?_eq_some_iff.mpr ⟨gap, hgap, rfl, rfl⟩
  -- the spelling of the dialect is tried before that of Lua
  simp only [Bound.call, hregroup, hboundary, ↓reduceIte, firstWord?, List.findSome?_cons, hprefix,
    Option.bind_some, hopening, Option.map_some]

theorem broken?_eq_none_iff :
    Bound.broken? b code = none ↔
      ∀ hit rest, (hit, rest) ∈ claims (Bound.call b) code → (countArguments rest).1 ≤ b.max := by
  simp only [Bound.broken?, List.findSome?_eq_none_iff, Prod.forall]
  refine forall₂_congr fun hit rest => forall_congr' fun _ => ?_
  simp

theorem broken?_of_notMem (h : '(' ∉ code) : Bound.broken? b code = none := by
  rw [broken?_eq_none_iff]
  intro hit rest hmem
  obtain ⟨before, rfl, hfind⟩ := exists_of_mem_claimsFrom (boundCall_sound _) hmem
  obtain ⟨-, word, -, gap, -, rest', hafter, -⟩ := exists_of_boundCall hfind
  exact absurd (by simp [hafter]) h

end Check

theorem applyConstructors_eq_ok_iff {types : Vocabulary} {bounds : List Bound}
    {code : List Char} :
    (∃ lua, Call.applyConstructors types bounds code = .ok lua) ↔
      ∀ b ∈ bounds, Bound.broken? b code = none := by
  rw [← List.findSome?_eq_none_iff, Call.applyConstructors]
  cases bounds.findSome? (Bound.broken? · code) <;> simp

theorem mem_boundsOf_iff {rules : RuleTable} {b : Bound} :
    b ∈ Lexicon.boundsOf rules ↔ ∃ r ∈ rules.rules .constructorName, ∃ m, r.maxArity = some m ∧
      b = ⟨r.source.toList, r.target.toList, m⟩ := by
  simp only [Lexicon.boundsOf, List.mem_filterMap, Option.map_eq_some_iff]
  refine exists_congr fun r => and_congr_right fun _ => exists_congr fun m => ?_
  rw [eq_comm (a := b)]

section Overlap

variable {run gap rest inner call tail target : List Char}

theorem eq_nil_of_word_inside (hrun : WordRun run) (hgap : ∀ c ∈ gap, isBlank c = true)
    (hsplit : run ++ (gap ++ '(' :: rest) = inner ++ tail) (htail : headIsWord tail = true)
    (hinner : headIsWord inner.reverse = false)
    (hlength : inner.length < run.length + (gap.length + 1)) : inner = [] := by
  rcases List.append_eq_append_iff.mp hsplit with ⟨piece, rfl, hpiece⟩ | ⟨piece, rfl, -⟩
  · have hpiece' : piece <+: gap ++ '(' :: rest := by
      rw [hpiece]
      exact List.prefix_append _ _
    rw [List.length_append] at hlength
    obtain ⟨blanks, rfl⟩ :=
      List.prefix_of_prefix_length_le hpiece' (List.prefix_append _ _) (by omega)
    obtain rfl : tail = blanks ++ '(' :: rest := by simpa using hpiece.symm
    have hblanks : ∀ c ∈ blanks, isBlank c = true := fun c hc => hgap c (by simp [hc])
    rw [headIsWord_of_gap hblanks (by decide)] at htail
    exact absurd htail (by decide)
  · by_contra hne
    have hword : WordRun inner := ⟨hne, fun c hc => hrun.2 c (by simp [hc])⟩
    have hlast := hword.reverse.headIsWord_append []
    rw [List.append_nil, hinner] at hlast
    exact absurd hlast (by decide)

theorem eq_run_of_word_inside (hrun : WordRun run) (hgap : ∀ c ∈ gap, isBlank c = true)
    (hcall : WordRun call) (htail : headIsWord tail = false)
    (hsplit : run ++ (gap ++ '(' :: rest) = inner ++ (call ++ tail))
    (hinner : headIsWord inner.reverse = false)
    (hlength : inner.length < run.length + (gap.length + 1)) : call = run := by
  have hhead := hcall.headIsWord_append tail
  obtain rfl := eq_nil_of_word_inside hrun hgap hsplit hhead hinner hlength
  have hwords := congrArg (List.takeWhile isWord) hsplit
  rw [hrun.takeWhile_append (headIsWord_of_gap hgap (by decide)), List.nil_append,
    hcall.takeWhile_append htail] at hwords
  exact hwords.symm

theorem prefix_target_of_inside (hgap : ∀ c ∈ gap, isBlank c = true) (hcall : WordRun call)
    (htail : headIsWord tail = false) (hnew : call ≠ "new".toList)
    (hinner : headIsWord inner.reverse = false)
    (hsplit : target ++ ".new".toList ++ (gap ++ '(' :: rest) = inner ++ (call ++ tail))
    (hlength : inner.length < (target ++ ".new".toList ++ (gap ++ ['('])).length) :
    inner ++ call <+: target := by
  have hdot : ∀ l : List Char, call ≠ '.' :: l := by
    rintro l rfl
    exact absurd (hcall.2 '.' (by simp)) (by decide)
  have hregroup : inner ++ call ++ tail =
      target ++ '.' :: ("new".toList ++ (gap ++ '(' :: rest)) := by
    simpa using hsplit.symm
  rcases List.append_eq_append_iff.mp hregroup with ⟨more, rfl, -⟩ | ⟨more, hmore, hrest⟩
  · exact List.prefix_append _ _
  · rcases more with _ | ⟨c, more⟩
    · exact ⟨[], by simpa using hmore⟩
    · simp only [List.cons_append, List.cons.injEq] at hrest
      obtain ⟨rfl, hrest⟩ := hrest
      -- the word reaches beyond the target, so it starts behind the dot
      rcases List.append_eq_append_iff.mp hmore with ⟨piece, -, hpiece⟩ | ⟨piece, rfl, hpiece⟩
      · exact absurd (hcall.2 '.' (by simp [hpiece])) (by decide)
      · rcases piece with _ | ⟨c, piece⟩
        · exact absurd hpiece.symm (hdot more)
        · simp only [List.cons_append, List.cons.injEq] at hpiece
          obtain ⟨rfl, rfl⟩ := hpiece
          have hnewRun : WordRun "new".toList := by decide
          have hlast : headIsWord piece.reverse = false := by
            rcases piece.eq_nil_or_concat with rfl | ⟨piece, c, rfl⟩
            · rfl
            · simpa [headIsWord] using hinner
          rw [List.append_assoc] at hrest
          have hshort : piece.length < "new".toList.length + (gap.length + 1) := by
            simp only [List.length_append, List.length_cons, List.length_nil] at hlength
            have hnewLength : ".new".toList.length = "new".toList.length + 1 := by decide
            omega
          exact absurd (eq_run_of_word_inside hnewRun hgap hcall htail hrest hlast hshort) hnew

end Overlap

/-- Under the spelling of the dialect a call is checked, except inside the target itself. -/
theorem le_or_insideTarget {b : Bound} {before gap rest : List Char} (hsource : WordRun b.source)
    (hbefore : headIsWord before.reverse = false) (hgap : ∀ c ∈ gap, isBlank c = true)
    {code : List Char}
    (hcode : code = before ++ (b.source ++ constructorEnding ++ (gap ++ '(' :: rest)))
    (h : Bound.broken? b code = none) :
    (countArguments rest).1 ≤ b.max ∨ InsideTarget b.source b.target code before := by
  have hrun := hsource.append wordRun_constructorEnding
  have hlong : b.source ++ constructorEnding ≠ "new".toList := by
    intro heq
    have hlast := congrArg List.getLast? heq
    rw [List.getLast?_append_of_ne_nil _ wordRun_constructorEnding.1] at hlast
    exact absurd hlast (by decide +kernel)
  obtain ⟨call, hcall, hfind⟩ := exists_boundCall hsource hbefore hgap rest
  have hregroup : call.taken ++ rest = b.source ++ constructorEnding ++ (gap ++ '(' :: rest) := by
    simp [hcall]
  rw [← List.append_nil before.reverse] at hfind
  rcases mem_claimsFrom_or_exists (boundCall_sound b) hfind with
    hmem | ⟨left, inner, hit, rfl, hne, hclaim, hlength⟩
  · rw [hregroup, ← hcode] at hmem
    exact .inl (broken?_eq_none_iff.mp h _ _ hmem)
  · have hinner : headIsWord inner.reverse = false := by
      rwa [List.reverse_append, headIsWord_append (by simpa using hne)] at hbefore
    obtain ⟨-, word, hword, gap', hgap', rest', hafter, htaken⟩ := exists_of_boundCall hclaim
    rw [hregroup] at hafter
    rw [htaken] at hlength
    rcases List.mem_pair.mp hword with rfl | rfl
    · have hshort : inner.length < (b.source ++ constructorEnding).length + (gap'.length + 1) := by
        simpa [Nat.add_assoc] using hlength
      exact absurd (eq_nil_of_word_inside hrun hgap' hafter.symm (hrun.headIsWord_append _) hinner
        hshort) hne
    · refine .inr ⟨left, inner, gap', rest', hne, rfl, ?_, hgap', ?_⟩
      · exact prefix_target_of_inside hgap' hrun (headIsWord_of_gap hgap (by decide)) hlong hinner
          hafter.symm hlength
      · rw [hcode, ← hafter, List.append_assoc]

-- what is counted here stands inside the target
example :
    let b : Bound := ⟨"A".toList, "f(A_nuevo(1".toList, 1⟩
    Bound.broken? b "f(A_nuevo(1.new(), 2)".toList = none ∧
      (countArguments "1.new(), 2)".toList).1 = 2 := by
  decide +kernel

theorem broken?_eq_none_of_ne {b : Bound} {name : List Char} (hname : WordRun name)
    (hne : b.source ≠ name) (n : Nat) :
    Bound.broken? b (name ++ constructorEnding ++ '(' :: List.replicate n ',') = none := by
  rw [broken?_eq_none_iff]
  intro hit rest hmem
  exfalso
  have hrun := hname.append wordRun_constructorEnding
  obtain ⟨pre, hcode, hfind⟩ := exists_of_mem_claimsFrom (boundCall_sound b) hmem
  obtain ⟨hboundary, word, hword, gap, hgap, rest', hafter, -⟩ := exists_of_boundCall hfind
  rw [hafter] at hcode hboundary
  -- the only parenthesis ends the only word, and the text has no dot
  rcases List.mem_pair.mp hword with rfl | rfl
  · have hparen : '(' ∉ name ++ constructorEnding := fun h => absurd (hrun.2 _ h) (by decide)
    have hsplit : name ++ constructorEnding ++ '(' :: List.replicate n ',' =
        pre ++ (b.source ++ constructorEnding ++ gap) ++ '(' :: rest' := by
      simpa using hcode
    obtain ⟨hcall, -, -⟩ := (List.append_cons_inj_of_notMem hparen (by simp)).mp hsplit
    obtain rfl : gap = [] := by
      rw [List.eq_nil_iff_forall_not_mem]
      intro c hc
      have hword : isWord c = true := hrun.2 c (by simp [hcall, hc])
      rw [isWord_of_isBlank (hgap c hc)] at hword
      exact absurd hword (by decide)
    have hsource : WordRun (b.source ++ constructorEnding) :=
      ⟨by simp [wordRun_constructorEnding.1], fun c hc => hrun.2 c (by simp [hcall, hc])⟩
    have hbefore := (atBoundary_of_head (hsource.headIsWord_append _)).mp hboundary
    rcases pre.eq_nil_or_concat with rfl | ⟨pre, c, rfl⟩
    · exact hne (by simpa using hcall.symm)
    · have hword : isWord c = true := hrun.2 c (by simp [hcall])
      simp [headIsWord, hword] at hbefore
  · have hdot : '.' ∈ name ++ constructorEnding ++ '(' :: List.replicate n ',' := by
      rw [hcode]
      simp
    rw [List.mem_append] at hdot
    rcases hdot with hdot | hdot
    · exact absurd (hrun.2 _ hdot) (by decide)
    · simp at hdot

theorem scanArguments_commas (n : Nat) :
    scanArguments 0 (List.replicate n ',') = (List.replicate n ',', n) := by
  induction n with
  | zero => rfl
  | succ n ih =>
      have hopener : isOpener ',' = false := by decide
      have hcloser : isCloser ',' = false := by decide
      rw [List.replicate_succ, scanArguments]
      simp [hopener, hcloser, ih]

theorem countArguments_commas (n : Nat) :
    (countArguments (List.replicate (n + 1) ',')).1 = n + 2 := by
  rw [countArguments, scanArguments_commas]
  simp

section Rules

variable {rules : RuleTable} {r : Rule} {m : Nat}

theorem Rewrites.headIsWord {code before name rest : List Char}
    (h : Rewrites rules r code before name rest) : headIsWord before.reverse = false := by
  obtain ⟨gap, hgap, hcode, hclaim⟩ := h
  obtain ⟨pre, hsplit, hfind⟩ := exists_of_mem_claimsFrom (constructor_sound _) hclaim
  obtain rfl : before = pre := by simpa using hcode.symm.trans hsplit
  simpa using (constructor_eq_some_iff.mp hfind).1

theorem rewrites_of_key (hrules : WellFormed rules) (hr : r ∈ rules.rules .constructorName)
    {name : List Char} (hname : WordRun name) (hkey : wordKey name = r.key) (rest : List Char) :
    Rewrites rules r (name ++ constructorEnding ++ '(' :: rest) [] name rest := by
  refine ⟨[], by simp, by simp, ?_⟩
  let types : Vocabulary := .ofTable rules .constructorName
  have htarget : types.target? name = some r.target.toList := by
    rw [target?_ofTable hrules, (find?_eq_some_iff hrules).mpr ⟨hr, hkey.symm⟩, Option.map_some]
  let hit : Hit := ⟨name ++ constructorEnding ++ ['('], r.target.toList ++ ".new(".toList⟩
  have hfind : Call.constructor types [] (hit.taken ++ rest) = some hit :=
    constructor_eq_some_iff.mpr
      ⟨rfl, name, hname, [], by simp, rest, by simp [hit], by simp [hit, htarget]⟩
  have hcode : name ++ constructorEnding ++ '(' :: rest = hit.taken ++ rest := by simp [hit]
  rw [claims, hcode, claimsFrom_claimed (constructor_sound _) hfind]
  exact List.mem_cons_self

theorem ne_source_of_mem_boundsOf (hrules : WellFormed rules)
    (hr : r ∈ rules.rules .constructorName) {name : List Char} (hkey : wordKey name = r.key)
    (hne : name ≠ r.source.toList) {b : Bound} (hb : b ∈ Lexicon.boundsOf rules) :
    b.source ≠ name := by
  rintro rfl
  obtain ⟨r', hr', m, -, rfl⟩ := mem_boundsOf_iff.mp hb
  rw [List.inj_on_of_nodup_map (hrules.distinct .constructorName) hr' hr hkey] at hne
  exact hne rfl

theorem not_checked_of_ne (hrules : WellFormed rules) (hr : r ∈ rules.rules .constructorName)
    {name : List Char} (hname : WordRun name) (hkey : wordKey name = r.key)
    (hne : name ≠ r.source.toList) (m : Nat) : ¬ Checked rules r m name := by
  intro h
  -- more arguments than the bound, in code where no spelling is checked
  let code := name ++ constructorEnding ++ '(' :: List.replicate (m + 1) ','
  obtain ⟨lua, hlua⟩ : ∃ lua, Pass.apply (.ofTable rules) code .constructors = .ok lua := by
    apply applyConstructors_eq_ok_iff.mpr
    intro b hb
    exact broken?_eq_none_of_ne hname (ne_source_of_mem_boundsOf hrules hr hkey hne hb) _
  rcases h code lua hlua [] _ (rewrites_of_key hrules hr hname hkey _) with hle | hinside
  · rw [countArguments_commas] at hle
    omega
  · obtain ⟨left, inner, gap, rest, hinner, hnil, -⟩ := hinside
    exact hinner (List.append_eq_nil_iff.mp hnil.symm).2

/-- Of all the spellings under which a bounded constructor is rewritten, its bound is checked under
that of its rule and under no other. -/
theorem bound_checked_iff (hrules : rules.validate = .ok ())
    (hr : r ∈ rules.rules .constructorName) (hmax : r.maxArity = some m) {name : List Char}
    (hname : WordRun name) (hkey : wordKey name = r.key) :
    Checked rules r m name ↔ name = r.source.toList := by
  constructor
  · intro h
    by_contra hne
    exact not_checked_of_ne (validate_eq_ok_iff.mp hrules) hr hname hkey hne m h
  · rintro rfl code lua hlua before rest h
    have hbefore := h.headIsWord
    obtain ⟨gap, hgap, hcode, -⟩ := h
    have hb := mem_boundsOf_iff.mpr ⟨r, hr, m, hmax, rfl⟩
    have hbroken := applyConstructors_eq_ok_iff.mp ⟨lua, hlua⟩ _ hb
    exact le_or_insideTarget hname hbefore hgap hcode hbroken

end Rules

theorem color3_mem_default :
    ⟨.constructorName, "Color3", "Color3", some 3⟩ ∈ RuleTable.default.rules .constructorName := by
  decide +kernel

theorem color3_bound_checked :
    let r : Rule := ⟨.constructorName, "Color3", "Color3", some 3⟩
    wordKey "color3".toList = r.key ∧ Checked RuleTable.default r 3 "Color3".toList ∧
      ¬ Checked RuleTable.default r 3 "color3".toList := by
  intro r
  have hrules := validate_eq_ok_iff.mpr default_wellFormed
  have hkey : wordKey "color3".toList = r.key := by decide +kernel
  refine ⟨hkey, (bound_checked_iff hrules color3_mem_default rfl (by decide) rfl).mpr rfl, ?_⟩
  rw [bound_checked_iff hrules color3_mem_default rfl (by decide) hkey]
  decide

/-- A bounded constructor with too many arguments goes through in another case than its rule's. -/
theorem color3_other_case :
    let r : Rule := ⟨.constructorName, "Color3", "Color3", some 3⟩
    let code := "color3_nuevo(1, 2, 3, 4)".toList
    Pass.apply (.ofTable RuleTable.default) code .constructors =
        .ok "Color3.new(1, 2, 3, 4)".toList ∧
      Rewrites RuleTable.default r code [] "color3".toList "1, 2, 3, 4)".toList ∧
      (countArguments "1, 2, 3, 4)".toList).1 = 4 := by
  intro r code
  refine ⟨by decide +kernel, ?_, by decide +kernel⟩
  have hkey : wordKey "color3".toList = r.key := by decide +kernel
  have hcode : code = "color3".toList ++ constructorEnding ++ '(' :: "1, 2, 3, 4)".toList := by
    decide +kernel
  rw [hcode]
  exact rewrites_of_key default_wellFormed color3_mem_default (by decide) hkey _

end SpanishLua.Proofs.Bounds
