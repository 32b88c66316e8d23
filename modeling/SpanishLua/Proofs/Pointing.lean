import SpanishLua.Proofs.Correspondence
import SpanishLua.Proofs.Evaluation
import SpanishLua.Proofs.Settling
import SpanishLua.Proofs.Spotting

namespace SpanishLua.Proofs.Pointing

open SpanishLua.Code
open SpanishLua.Text
open SpanishLua.Command
open SpanishLua.Proofs.Scanning
open SpanishLua.Proofs.Recognisers
open SpanishLua.Proofs.Partition
open SpanishLua.Proofs.Sweep
open SpanishLua.Proofs.Lines
open SpanishLua.Proofs.Bounds
open SpanishLua.Proofs.Correspondence
open SpanishLua.Proofs.Places
open SpanishLua.Proofs.Stages
open SpanishLua.Proofs.Words
open SpanishLua.Proofs.Untouched
open SpanishLua.Proofs.Edits
open SpanishLua.Proofs.Puts
open SpanishLua.Proofs.Reflections
open SpanishLua.Proofs.Settling
open SpanishLua.Proofs.Evaluation
open SpanishLua.Proofs.Spotting

/-- After `before` the code has the name, then blanks, a parenthesis and more than `n` arguments. -/
def Overcalls (name : List Char) (n : Nat) (code before : List Char) : Prop :=
  ∃ gap rest, Blank gap ∧ code = before ++ (name ++ (gap ++ '(' :: rest)) ∧
    n < (countArguments rest).1

/-- At the column, counted from zero, a code segment of the line has the name that the error gives,
then blanks, a parenthesis and more arguments than the error allows. -/
def Offends (line : List Char) (e : ArityError) (column : Nat) : Prop :=
  ∃ left code right before, partition line = left ++ .code code :: right ∧
    Overcalls e.call.toList e.max code before ∧ column = (Segment.join left).length + before.length

/-- The word occurs in the text first after `n` characters. -/
def OccursFirst (word s : List Char) (n : Nat) : Prop :=
  word <+: s.drop n ∧ ∀ k < n, ¬ word <+: s.drop k

/-- The names under which the bounded constructor is called. -/
def boundedNames : List (List Char) :=
  [color3Bound.source ++ constructorEnding, color3Bound.target ++ ".new".toList]

section Search

variable {word s : List Char}

theorem exists_find? {k : Nat} (h : word <+: s.drop k) :
    ∃ n ≤ k, find? word s = some n ∧ OccursFirst word s n := by
  induction s generalizing k with
  | nil =>
      rw [List.drop_nil] at h
      obtain rfl := List.prefix_nil.mp h
      exact ⟨0, Nat.zero_le k, rfl, List.nil_prefix, by simp⟩
  | cons c s ih =>
      by_cases hhead : word <+: c :: s
      · refine ⟨0, Nat.zero_le k, ?_, hhead, by simp⟩
        rw [find?, if_pos (List.isPrefixOf_iff_prefix.mpr hhead)]
      · rcases k with _ | k
        · exact absurd h hhead
        · obtain ⟨n, hn, hfind, hhere, hfirst⟩ := ih h
          refine ⟨n + 1, Nat.succ_le_succ hn, ?_, hhere, ?_⟩
          · rw [find?, if_neg (mt List.isPrefixOf_iff_prefix.mp hhead), hfind, Option.map_some]
          · intro j hj
            rcases j with _ | j
            · exact hhead
            · exact hfirst j (Nat.lt_of_succ_lt_succ hj)

theorem prefix_drop_withoutReturn (hword : '\r' ∉ word) (k : Nat) :
    word <+: (withoutReturn s).drop k ↔ word <+: s.drop k := by
  rw [withoutReturn]
  split
  · rename_i hlast
    obtain ⟨s, rfl⟩ := List.getLast?_eq_some_iff.mp (eq_of_beq hlast)
    rw [List.dropLast_concat, List.drop_append]
    constructor
    · intro h
      exact h.trans (List.prefix_append _ _)
    · rintro ⟨tail, htail⟩
      rcases List.append_eq_append_iff.mp htail with ⟨more, hdrop, -⟩ | ⟨more, rfl, hreturn⟩
      · exact ⟨more, hdrop.symm⟩
      · -- the word would go on into the carriage return
        rcases more with _ | ⟨c, more⟩
        · simp
        · have hmem : c ∈ ['\r'].drop (k - s.length) := by simp [hreturn]
          rw [List.mem_singleton.mp (List.mem_of_mem_drop hmem)] at hword
          exact absurd (by simp) hword
  · exact Iff.rfl

end Search

section Calls

variable {es : List Edit} {name : List Char} {n : Nat} {p : List Char}

/-- A call of the bounded constructor with too many arguments in the new text was one in the old
text, if the edits put in nothing for the member that names the same type. -/
theorem exists_overcalls_source (h : Fits es)
    (hcolour : ∀ hit, .put hit ∈ es → hit.taken ≠ ".color".toList) (hname : name ∈ boundedNames)
    (hleft : headIsWord p.reverse = false) (hcall : Overcalls name color3Bound.max (result es) p) :
    ∃ p', headIsWord p'.reverse = false ∧ Overcalls name color3Bound.max (source es) p' := by
  obtain ⟨gap, rest, hgap, hresult, hcount⟩ := hcall
  rcases List.mem_pair.mp hname with rfl | rfl
  · -- in the dialect the constructor is one word
    have hrun : WordRun (color3Bound.source ++ constructorEnding) := by decide
    have hdialect : Dialect (color3Bound.source ++ constructorEnding) :=
      .constructor (List.suffix_append _ _)
    obtain ⟨left, right, rfl, -, hright, hstands⟩ :=
      h.run_kept hresult ⟨hrun, hleft, headIsWord_gap hgap rest⟩ hdialect
    have hbehind : Fits ((left ++ kept (color3Bound.source ++ constructorEnding)) ++ right) := by
      simpa using h
    obtain ⟨rest, rfl, hsource⟩ := arguments_kept hbehind hgap hright (by decide) hcount
    exact ⟨source left, hstands.left, gap, source rest, hgap, by simp, hsource⟩
  · rcases Excess.of_result_or_color h ⟨⟨hleft, gap, hgap, hresult⟩, hcount⟩ with
      ⟨p', rest, ⟨hleft, gap, hgap, hsource⟩, hcount⟩ | ⟨left, hit, right, rfl, htaken, -⟩
    · exact ⟨p', hleft, gap, rest, hgap, hsource, hcount⟩
    · exact absurd htaken (hcolour hit (by simp))

theorem exists_overcalls_of_find {find : Recogniser} (hsound : Sound find) (hfitting : Fitting find)
    (hcolour : ∀ before after hit, find before after = some hit → hit.taken ≠ ".color".toList)
    {code : List Char} (hname : name ∈ boundedNames) (hleft : headIsWord p.reverse = false)
    (hcall : Overcalls name color3Bound.max (replaceAll find code) p) :
    ∃ p', headIsWord p'.reverse = false ∧ Overcalls name color3Bound.max code p' := by
  obtain ⟨es, rfl, hresult, hscript⟩ := exists_script hsound [] code
  rw [replaceAll, ← hresult] at hcall
  apply exists_overcalls_source (fits_of_script hfitting hscript) _ hname hleft hcall
  intro hit hhit
  obtain ⟨left, right, hes⟩ := List.append_of_mem hhit
  exact hcolour _ _ hit (hscript.put left hit right hes).1

theorem exists_overcalls_of_early {code : List Char} (hname : name ∈ boundedNames)
    (hleft : headIsWord p.reverse = false)
    (hcall : Overcalls name color3Bound.max
      (replaceEach (early (.ofTable RuleTable.default)) code) p) :
    ∃ p', Overcalls name color3Bound.max code p' := by
  have hmethods : ∀ before after hit,
      Call.method (vocabulary .methodName) before after = some hit →
        hit.taken ≠ ".color".toList := by
    intro before after hit h
    obtain ⟨blanks, -, word, -, gap, -, rest, htaken, -⟩ := exists_of_method h
    rw [htaken]
    exact fun heq => absurd (congrArg List.head? heq) (by simp)
  have hlookups : ∀ before after hit, Service.lookup before after = some hit →
      hit.taken ≠ ".color".toList := by
    intro before after hit h
    obtain ⟨rest, -, -, rfl⟩ := lookup_eq_some_iff.mp h
    exact (by decide : Service.accessor ≠ ".color".toList)
  obtain ⟨p', hleft', hcall'⟩ := exists_overcalls_of_find (method_sound _) method_fitting hmethods
    hname hleft hcall
  obtain ⟨p'', -, hcall''⟩ := exists_overcalls_of_find lookup_sound lookup_fitting hlookups hname
    hleft' hcall'
  exact ⟨p'', hcall''⟩

theorem exists_of_broken? {b : Bound} {code : List Char} {e : ArityError}
    (h : Bound.broken? b code = some e) :
    ∃ hit rest, (hit, rest) ∈ claims (Bound.call b) code ∧ b.max < (countArguments rest).1 ∧
      e.call.toList = calleeOf hit.taken ∧ e.max = b.max := by
  obtain ⟨⟨hit, rest⟩, hmem, haccept⟩ := List.exists_of_findSome?_eq_some h
  dsimp only at haccept
  split at haccept
  · rename_i hcount
    obtain rfl := Option.some.inj haccept
    exact ⟨hit, rest, hmem, hcount, by simp, rfl⟩
  · simp at haccept

theorem exists_overcalls_of_broken? {code : List Char} {e : ArityError}
    (h : Bound.broken? color3Bound code = some e) :
    e.call.toList ∈ boundedNames ∧ e.max = color3Bound.max ∧
      ∃ p, headIsWord p.reverse = false ∧ Overcalls e.call.toList color3Bound.max code p := by
  obtain ⟨hit, rest, hmem, hcount, hcall, hmax⟩ := exists_of_broken? h
  obtain ⟨p, rfl, hfind⟩ := exists_of_mem_claimsFrom (boundCall_sound _) hmem
  obtain ⟨hboundary, word, hword, gap, hgap, rest', hafter, htaken⟩ := exists_of_boundCall hfind
  obtain rfl : rest = rest' := by
    rw [htaken] at hafter
    simpa using hafter
  have hnames : ∀ name ∈ boundedNames, headIsWord name = true ∧ name ≠ [] ∧
      (name.getLast? = some 'o' ∨ name.getLast? = some 'w') := by
    decide
  obtain ⟨hhead, hne, hlast⟩ := hnames word hword
  have hcallee : e.call.toList = word := by
    rw [hcall, htaken]
    rcases hlast with hlast | hlast <;> exact calleeOf_append hlast (by decide) (by decide) hgap
  rw [hafter, List.append_nil, atBoundary_of_head (by rwa [headIsWord_append hne])] at hboundary
  rw [hcallee]
  exact ⟨hword, hmax, p, hboundary, gap, rest, hgap, by rw [hafter], hcount⟩

theorem exists_overcalls_of_rewriteCode {code : List Char} {e : ArityError}
    (h : rewriteCode (.ofTable RuleTable.default) code = .error e) :
    e.call.toList ∈ boundedNames ∧ ∃ p, Overcalls e.call.toList e.max code p := by
  have hbounds : (Lexicon.ofTable RuleTable.default).bounds = [color3Bound] := boundsOf_default
  rw [rewriteCode] at h
  split at h
  · simp at h
  · rw [applyAll_eq, hbounds, List.findSome?_singleton] at h
    split at h
    · rename_i hbroken
      obtain rfl := Except.error.inj h
      obtain ⟨hname, hmax, p, hleft, hcall⟩ := exists_overcalls_of_broken? hbroken
      rw [hmax]
      exact ⟨hname, exists_overcalls_of_early hname hleft hcall⟩
    · simp at h

end Calls

section Lines

variable {line : List Char} {e : ArityError}

theorem exists_code_of_failure {lexicon : Lexicon} {segments : List Segment}
    (h : firstFailure? lexicon (segments.map codeText?) = some e) :
    ∃ left code right, segments = left ++ .code code :: right ∧
      rewriteCode lexicon code = .error e := by
  induction segments with
  | nil => simp [firstFailure?] at h
  | cons s rest ih =>
      cases s with
      | literal text =>
          obtain ⟨left, code, right, rfl, hcode⟩ := ih h
          exact ⟨.literal text :: left, code, right, rfl, hcode⟩
      | code code =>
          rw [List.map_cons, codeText?, firstFailure?] at h
          cases hcode : rewriteCode lexicon code with
          | error e' =>
              rw [hcode] at h
              obtain rfl := Option.some.inj h
              exact ⟨[], code, rest, rfl, hcode⟩
          | ok lua =>
              rw [hcode] at h
              obtain ⟨left, code', right, rfl, hcode'⟩ := ih h
              exact ⟨.code code :: left, code', right, rfl, hcode'⟩

/-- A line that fails has a call that breaks the bound, under the name that the error gives. -/
theorem exists_offends {extra : List String} {t : Translator}
    (ht : Translator.ofTable RuleTable.default extra = .ok t)
    (h : t.translateLine line = .error e) :
    e.call.toList ∈ boundedNames ∧ ∃ k, Offends line e k := by
  rw [translateLine_eq_error_iff, (ofTable_eq_ok ht).2.2] at h
  obtain ⟨left, code, right, hpartition, hcode⟩ := exists_code_of_failure h
  obtain ⟨hname, p, hcall⟩ := exists_overcalls_of_rewriteCode hcode
  exact ⟨hname, _, left, code, right, p, hpartition, hcall, rfl⟩

theorem Offends.occurs {k : Nat} (h : Offends line e k) : e.call.toList <+: line.drop k := by
  obtain ⟨left, code, right, p, hpartition, ⟨gap, rest, -, rfl, -⟩, rfl⟩ := h
  have hline := join_partition line
  rw [hpartition] at hline
  refine ⟨gap ++ '(' :: rest ++ Segment.join right, ?_⟩
  rw [← hline]
  simp [Segment.text]

theorem OccursFirst.eq {word s : List Char} {m n : Nat} (hm : OccursFirst word s m)
    (hn : OccursFirst word s n) : m = n := by
  rcases Nat.lt_trichotomy m n with hlt | heq | hlt
  · exact absurd hm.1 (hn.2 m hlt)
  · exact heq
  · exact absurd hn.1 (hm.2 n hlt)

theorem placeOf_line {document : List Char} {earlier later : List (List Char)} {k : Nat}
    (hlines : lines document = earlier ++ line :: later) (hreturn : '\r' ∉ e.call.toList)
    (hname : e.call.toList <+: line.drop k) :
    ∃ column, OccursFirst e.call.toList line column ∧
      placeOf document (.line (earlier.length + 1) e) =
        some ⟨earlier.length + 1, column + 1, withoutReturn line⟩ := by
  obtain ⟨column, -, hfind, hhere, hfirst⟩ :=
    exists_find? ((prefix_drop_withoutReturn hreturn k).mpr hname)
  refine ⟨column, ⟨(prefix_drop_withoutReturn hreturn column).mp hhere, ?_⟩, ?_⟩
  · intro j hj
    rw [← prefix_drop_withoutReturn hreturn]
    exact hfirst j hj
  · have hcolumn : columnOf (withoutReturn line) (.line (earlier.length + 1) e) = column + 1 := by
      rw [columnOf, hfind, Option.getD_some]
    rw [placeOf_eq hlines rfl, hcolumn]
    rfl

end Lines

theorem translate_spelled (rules : RuleTable) (denyList : DenyList) (document : List Char)
    (label : String) :
    (Translator.mk rules denyList spelledLexicon).translate document label =
      (Translator.mk rules denyList (.ofTable RuleTable.default)).translate document label := by
  have hlines : ∀ ls n, (Translator.mk rules denyList spelledLexicon).translateFrom n ls =
      (Translator.mk rules denyList (.ofTable RuleTable.default)).translateFrom n ls := by
    intro ls
    induction ls with
    | nil => exact fun n => rfl
    | cons line ls ih =>
        intro n
        rw [Translator.translateFrom, Translator.translateFrom, translateLine_spelled, ih]
  rw [Translator.translate, Translator.translate, hlines]

/-- Under the default rules a failure for a line points into that line, at the first occurrence of
the name that the error gives. Some code of the line has that name before too many arguments; the
failure points at such a call exactly if one is the first occurrence of the name. -/
theorem failure_points_at_first_name {extra : List String} {t : Translator}
    (ht : Translator.ofTable RuleTable.default extra = .ok t) {document : List Char}
    {label : String} {number : Nat} {e : ArityError}
    (h : t.translate document label = .error (.line number e)) (path : String) :
    ∃ earlier line later column,
      lines document = earlier ++ line :: later ∧ number = earlier.length + 1 ∧
      (Failure.ofDocument path document (.line number e)).place =
        some ⟨number, column + 1, withoutReturn line⟩ ∧
      OccursFirst e.call.toList line column ∧ (∃ k, Offends line e k) ∧
      (Offends line e column ↔ ∃ k, Offends line e k ∧ OccursFirst e.call.toList line k) := by
  obtain ⟨-, earlier, line, later, hlines, rfl, hline, -⟩ := translate_eq_line_iff.mp h
  obtain ⟨hname, k, hoffends⟩ := exists_offends ht hline
  -- the name is looked for in the line as it is shown, without a carriage return at its end
  have hreturn : '\r' ∉ e.call.toList := by
    have hnames : ∀ name ∈ boundedNames, name.all (· != '\r') = true := by decide +kernel
    intro hmem
    exact absurd (List.all_eq_true.mp (hnames _ hname) _ hmem) (by decide)
  obtain ⟨column, hfirst, hplace⟩ := placeOf_line hlines hreturn hoffends.occurs
  refine ⟨earlier, line, later, column, hlines, rfl, hplace, hfirst, ⟨k, hoffends⟩, ?_, ?_⟩
  · intro hcolumn
    exact ⟨column, hcolumn, hfirst⟩
  · rintro ⟨k, hk, hkfirst⟩
    rw [hfirst.eq hkfirst]
    exact hk

theorem failure_points_at_first_name_color3 :
    let document := "x = 1\nlocal c = Color3_nuevo(1, 2, 3, f(4, 5)) -- Color3_nuevo\r\n".toList
    let e : ArityError := ⟨"Color3_nuevo", "1, 2, 3, f(4, 5)", 3, 4⟩
    ∃ t, Translator.ofTable RuleTable.default [] = .ok t ∧
      t.translate document "guion" = .error (.line 2 e) ∧
      ∃ line column,
        (Failure.ofDocument "guion" document (.line 2 e)).place =
          some ⟨2, column + 1, withoutReturn line⟩ ∧
        OccursFirst e.call.toList line column ∧ ∃ k, Offends line e k := by
  intro document e
  have htranslate :
      Translator.translate ⟨RuleTable.default, .ofExtra [], .ofTable RuleTable.default⟩
        document "guion" = .error (.line 2 e) := by
    rw [← translate_spelled]
    decide +kernel
  refine ⟨_, ofTable_default [], htranslate, ?_⟩
  obtain ⟨-, line, -, column, -, -, hplace, hfirst, hoffends, -⟩ :=
    failure_points_at_first_name (ofTable_default []) htranslate "guion"
  exact ⟨line, column, hplace, hfirst, hoffends⟩

/-- A call within the bound that comes first is pointed at in place of the one that breaks it. -/
theorem failure_points_at_other_call :
    let line := "local a, b = Color3.new(1, 2, 3), Color3.new(1, 2, 3, 4)"
    let document := (line ++ "\n").toList
    let e : ArityError := ⟨"Color3.new", "1, 2, 3, 4", 3, 4⟩
    ∃ t, Translator.ofTable RuleTable.default [] = .ok t ∧
      t.translate document "guion" = .error (.line 1 e) ∧
      (Failure.ofDocument "guion" document (.line 1 e)).place = some ⟨1, 14, line.toList⟩ ∧
      ¬ Offends line.toList e 13 := by
  intro line document e
  refine ⟨_, ofTable_default [], ?_, by decide +kernel, ?_⟩
  · rw [← translate_spelled]
    decide +kernel
  · rintro ⟨left, code, right, before, hpartition, ⟨gap, rest, hgap, hcode, hcount⟩, hcolumn⟩
    have hwhole : partition line.toList = [.code line.toList] ∧
        opening? (line.toList.drop 23) = some (['('], line.toList.drop 24) ∧
        (countArguments (line.toList.drop 24)).1 = 3 ∧ e.call.toList.length = 10 := by
      decide +kernel
    obtain ⟨hwhole, hopening, hthree, hten⟩ := hwhole
    rw [hwhole, List.singleton_eq_append_iff] at hpartition
    obtain ⟨rfl, hsegment⟩ | ⟨-, hnil⟩ := hpartition
    · obtain ⟨hsame, -⟩ := List.cons.inj hsegment
      obtain rfl := Segment.code.inj hsame
      have hbefore : before.length = 13 := by simpa using hcolumn.symm
      have hlength : (before ++ e.call.toList).length = 23 := by
        rw [List.length_append, hbefore, hten]
      have htail : line.toList.drop 23 = gap ++ '(' :: rest := by
        rw [hcode, ← List.append_assoc, List.drop_left' hlength]
      rw [htail, opening?_gap hgap] at hopening
      rw [← (Prod.mk.inj (Option.some.inj hopening)).2] at hthree
      exact absurd hcount (by rw [hthree]; decide)
    · exact absurd hnil (by simp)

end SpanishLua.Proofs.Pointing
