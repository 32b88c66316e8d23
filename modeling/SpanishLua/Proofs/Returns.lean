import SpanishLua.Proofs.Denial
import SpanishLua.Proofs.Documents
import SpanishLua.Proofs.Grammar
import SpanishLua.Proofs.Trailing

namespace SpanishLua.Proofs.Returns

open SpanishLua.Code
open SpanishLua.Text
open SpanishLua.Proofs.Characters
open SpanishLua.Proofs.Scanning
open SpanishLua.Proofs.Partition
open SpanishLua.Proofs.Sweep
open SpanishLua.Proofs.Tables
open SpanishLua.Proofs.Lines
open SpanishLua.Proofs.Grammar
open SpanishLua.Proofs.Documents
open SpanishLua.Proofs.Occurrences
open SpanishLua.Proofs.Denial
open SpanishLua.Proofs.Trailing

/-- Segments with `c` behind them, in the code they end in or in code of its own. -/
def lengthen (c : Char) : List Segment → List Segment
  | [] => [.code [c]]
  | [.code code] => [.code (code ++ [c])]
  | s :: rest => s :: lengthen c rest

theorem join_lengthen (c : Char) (segments : List Segment) :
    Segment.join (lengthen c segments) = Segment.join segments ++ [c] := by
  fun_induction lengthen c segments with
  | case1 => rfl
  | case2 code => simp [Segment.text]
  | case3 s rest hrest ih => rw [join_cons, join_cons, ih, List.append_assoc]

section Lengthen

variable {c : Char} (hc : isBlank c = true)
include hc

theorem lastCode_append {code : List Char} (h : LastCode code) : LastCode (code ++ [c]) := by
  have hquote := isQuote_of_isBlank hc
  rcases h with hfree | ⟨start, quote, tail, rfl, hstart, hopen, hescaped⟩
  · refine .inl fun d hd => ?_
    rcases List.mem_append.mp hd with hd | hd
    · exact hfree d hd
    · rw [List.mem_singleton.mp hd]
      exact hquote
  · refine .inr ⟨start, quote, tail ++ [c], by simp, hstart, hopen, ?_⟩
    intro before after hsplit
    rcases List.eq_nil_or_concat' after with rfl | ⟨after, d, rfl⟩
    · obtain ⟨-, rfl⟩ := List.append_singleton_inj.mp hsplit
      simp [hquote] at hopen
    · rw [← List.cons_append, ← List.append_assoc] at hsplit
      exact hescaped before after (List.append_singleton_inj.mp hsplit).1

theorem grammatical_lengthen {segments : List Segment} (h : Grammatical segments) :
    Grammatical (lengthen c segments) := by
  match segments with
  | [] =>
      have hnil : LastCode [] := .inl (by simp [QuoteFree])
      exact grammatical_codeOf (lastCode_append hc hnil)
  | [.code code] =>
      have hcode := grammatical_codeOf (lastCode_append hc (h.last [] code rfl))
      rwa [codeOf, if_neg (by simp)] at hcode
  | .literal text :: rest =>
      obtain ⟨quote, body, rfl, hbody⟩ := h.literal text (by simp)
      exact (grammatical_lengthen h.of_cons).literal_cons hbody
  | .code code :: .code code' :: rest => exact absurd rfl (h.apart [] code code' rest)
  | .code code :: .literal text :: rest =>
      have hne : code ≠ [] := h.ne_nil (.code code) (by simp)
      exact (grammatical_lengthen h.of_cons).code_cons hne (h.inner [] code _ rest rfl)
        (by simp [lengthen, Segment.isCode])

theorem partition_append (line : List Char) :
    partition (line ++ [c]) = lengthen c (partition line) := by
  refine ((grammatical_lengthen hc (grammatical_partition line)).eq_partition ?_).symm
  rw [join_lengthen, join_partition]

theorem closesLookup_append (code : List Char) :
    Service.closesLookup (code ++ [c]) = Service.closesLookup code := by
  unfold Service.closesLookup
  rcases blanks_append hc code with ⟨hdrop, hdrop'⟩ | ⟨-, hdrop⟩
  · rw [hdrop, hdrop']
  · rw [hdrop]
    cases code.dropWhile isBlank with
    | nil => simp [ne_of_isBlank hc (d := ')') (by decide)]
    | cons d rest =>
        by_cases hd : d = ')'
        · subst hd
          rfl
        · simp [hd]

theorem isLookupArgument_append (previous : Segment) (code : List Char) :
    Service.isLookupArgument previous (.code (code ++ [c])) =
      Service.isLookupArgument previous (.code code) := by
  cases previous with
  | code before => simp only [Service.isLookupArgument, closesLookup_append hc]
  | literal text => rfl

theorem renamed_lengthen (services : Vocabulary) (previous : Option Segment) (s : Segment)
    (rest : List Segment) :
    renamed services previous s (lengthen c rest).head? =
      renamed services previous s rest.head? := by
  cases previous with
  | none => rfl
  | some previous =>
      fun_cases lengthen c rest with
      | case1 =>
          have hopen : Service.isLookupArgument previous (.code [c]) = false := by
            rw [← List.nil_append [c], isLookupArgument_append hc]
            cases previous <;> simp [Service.isLookupArgument, Service.closesLookup]
          simp [renamed, hopen]
      | case2 code => simp only [renamed, List.head?_cons, isLookupArgument_append hc]
      | case3 => rfl

theorem nameEach_lengthen (services : Vocabulary) (previous : Option Segment)
    (segments : List Segment) :
    nameEach services previous (lengthen c segments) =
      lengthen c (nameEach services previous segments) := by
  fun_induction lengthen c segments generalizing previous with
  | case1 => simp [nameEach, renamed_code, lengthen]
  | case2 code => simp [nameEach, renamed_code, lengthen]
  | case3 s rest hrest ih =>
      rw [nameEach, nameEach, renamed_lengthen hc, ih, lengthen]
      -- Code that stands last would take the blank itself, and so would what becomes of it.
      intro code hcode hnil
      cases s with
      | literal text =>
          obtain ⟨text', htext⟩ := exists_renamed_literal services previous text rest.head?
          simp [htext] at hcode
      | code code' =>
          cases rest with
          | nil => exact hrest code' rfl rfl
          | cons next rest => simp [nameEach] at hnil

variable {rules : RuleTable} (hrules : WellFormed rules)
include hrules

theorem translateCode_lengthen (segments : List Segment) :
    Segment.join (translateCode (.ofTable rules) (lengthen c segments)).1 =
        Segment.join (translateCode (.ofTable rules) segments).1 ++ [c] ∧
      (translateCode (.ofTable rules) (lengthen c segments)).2 =
        (translateCode (.ofTable rules) segments).2 := by
  fun_induction lengthen c segments with
  | case1 =>
      have hblank : trim [c] = [] := trim_append_blank hc []
      simp [translateCode, hblank, Segment.text]
  | case2 code =>
      rw [translateCode_code, translateCode_code, rewriteCode_append hc hrules]
      cases rewriteCode (.ofTable rules) code with
      | error e => simp [Except.map, Segment.text]
      | ok lua => simp [Except.map, Segment.text, translateCode]
  | case3 s rest hrest ih =>
      obtain ⟨hjoin, hfailure⟩ := ih
      cases s with
      | literal text => simp [translateCode_literal, hjoin, hfailure]
      | code code =>
          rw [translateCode_code, translateCode_code]
          cases rewriteCode (.ofTable rules) code with
          | error e => simp [join_lengthen]
          | ok lua => simp [hjoin, hfailure]

/-- A blank at the end of a line is copied to its Lua text. -/
theorem translateLine_append {t : Translator} (ht : t.lexicon = .ofTable rules)
    (line : List Char) :
    t.translateLine (line ++ [c]) = (t.translateLine line).map (· ++ [c]) := by
  obtain ⟨hjoin, hfailure⟩ := translateCode_lengthen hc hrules
    (nameEach (Lexicon.ofTable rules).services none (partition line))
  rw [translateLine_eq, translateLine_eq, translateSegments, translateSegments, ht,
    nameAll_eq_nameEach, nameAll_eq_nameEach, partition_append hc, nameEach_lengthen hc, hfailure,
    hjoin]
  split <;> rfl

end Lengthen

section DenyList

theorem eq_return_of_fold {c : Char} (h : fold c = '\r') : c = '\r' := by
  have hcode : (fold c).toNat = 13 := by rw [h]; rfl
  have hmap : mapCase foldRuns c.toNat = 13 :=
    (toNat_ofNat_of_ne_zero (by rw [fold] at hcode; omega)).symm.trans hcode
  rcases mapCase_cases foldRuns c.toNat with hsame | ⟨r, hr, hfirst, -, hmoved⟩
  · rw [hmap] at hsame
    rw [← Char.ofNat_toNat c, ← hsame]
  · have hruns : ∀ r ∈ foldRuns, 13 < r.first + r.shift := by decide +kernel
    have habove := hruns r hr
    omega

theorem startsFolded_append {word : List Char} {c : Char}
    (h : ∀ d ∈ word.getLast?, fold d ≠ fold c) (s : List Char) :
    startsFolded word (s ++ [c]) = startsFolded word s := by
  induction word generalizing s with
  | nil => simp [startsFolded]
  | cons a word ih =>
      cases s with
      | nil =>
          cases word with
          | nil => simpa [startsFolded] using h a rfl
          | cons b word => simp [startsFolded]
      | cons b s =>
          rw [List.cons_append, startsFolded, startsFolded]
          cases word with
          | nil => simp [startsFolded]
          | cons d word => rw [ih (by simpa using h)]

theorem findFolded?_append {word : List Char} {c : Char}
    (h : ∀ d ∈ word.getLast?, fold d ≠ fold c) (s : List Char) :
    findFolded? word (s ++ [c]) = findFolded? word s := by
  induction s with
  | nil =>
      have hend := startsFolded_append h []
      cases word with
      | nil => rfl
      | cons a word => simp_all [findFolded?, startsFolded]
  | cons b s ih =>
      rw [List.cons_append, findFolded?, findFolded?, ih, ← List.cons_append, startsFolded_append h]

theorem getLast?_trim (s : List Char) : (trim s).getLast?.any isBlank = false := by
  rw [trim, trimEnd, dropTrailing, List.getLast?_reverse]
  have hstop := List.head?_dropWhile_not isBlank (trimStart s).reverse
  cases hhead : ((trimStart s).reverse.dropWhile isBlank).head? with
  | none => rfl
  | some c => simpa [hhead] using hstop

theorem getLast?_of_mem_add {words : List String} {entry : String}
    (h : ∀ w ∈ words, w.toList.getLast?.any isBlank = false) :
    ∀ w ∈ DenyList.add words entry, w.toList.getLast?.any isBlank = false := by
  rw [DenyList.add]
  split
  · exact h
  · intro w hw
    rcases List.mem_append.mp hw with hw | hw
    · exact h w hw
    · rw [List.mem_singleton.mp hw, String.toList_ofList]
      exact getLast?_trim _

theorem getLast?_of_mem_ofExtra (extra : List String) :
    ∀ w ∈ (DenyList.ofExtra extra).words, w.toList.getLast?.any isBlank = false := by
  have hextra : ∀ words : List String, (∀ w ∈ words, w.toList.getLast?.any isBlank = false) →
      ∀ w ∈ extra.foldl DenyList.add words, w.toList.getLast?.any isBlank = false := by
    induction extra with
    | nil => exact fun words h => h
    | cons entry extra ih => exact fun words h => ih _ (getLast?_of_mem_add h)
  exact hextra _ (by decide +kernel)

/-- No denied word reaches into a carriage return at the end of a line. -/
theorem findFolded?_append_return {extra : List String} {w : String}
    (hw : w ∈ (DenyList.ofExtra extra).words) (line : List Char) :
    findFolded? w.toList (line ++ ['\r']) = findFolded? w.toList line := by
  apply findFolded?_append
  intro d hd hfold
  obtain rfl : d = '\r' := eq_return_of_fold hfold
  have hlast := getLast?_of_mem_ofExtra extra w hw
  rw [Option.mem_def.mp hd] at hlast
  exact absurd hlast (by decide)

theorem findInLine?_append (extra : List String) (line : List Char) :
    findInLine? (DenyList.ofExtra extra) (line ++ ['\r']) =
      findInLine? (DenyList.ofExtra extra) line := by
  refine findSome?_congr fun w hw => ?_
  rw [findFolded?_append_return hw]

theorem offset_le_length {d : DenyList} {line : List Char} {token : String} {offset : Nat}
    (h : findInLine? d line = some (token, offset)) : offset ≤ line.length := by
  obtain ⟨-, hfind⟩ := findInLine?_eq_some_iff.mp h
  obtain ⟨pre, rfl, ⟨piece, rest, rfl, -⟩, -⟩ := findFolded?_eq_some_iff.mp hfind
  simp

end DenyList

/-- The document with a carriage return before each line feed. -/
def crlf (document : List Char) : List Char :=
  document.flatMap fun c => if c = '\n' then ['\r', '\n'] else [c]

/-- The lines with a carriage return behind each but the last. -/
def returnEach : List (List Char) → List (List Char)
  | [] => []
  | [line] => [line]
  | line :: rest => (line ++ ['\r']) :: returnEach rest

theorem lines_crlf (document : List Char) :
    lines (crlf document) = returnEach (lines document) := by
  induction document with
  | nil => rfl
  | cons c document ih =>
      have hcons : crlf (c :: document) =
          (if c = '\n' then ['\r', '\n'] else [c]) ++ crlf document := List.flatMap_cons
      obtain ⟨first, rest, hlines⟩ := List.exists_cons_of_ne_nil (splitOn_ne_nil '\n' document)
      rw [lines, lines, hlines] at ih
      rw [hcons, lines, lines]
      split
      · rename_i hc
        rw [hc, List.cons_append, List.cons_append, List.nil_append, splitOn_cons, splitOn_cons,
          splitOn_cons, ih, hlines]
        rfl
      · rename_i hc
        rw [List.singleton_append, splitOn_cons, splitOn_cons, if_neg hc, if_neg hc, ih, hlines]
        cases rest <;> rfl

theorem check_crlf (extra : List String) (document : List Char) (label : String) :
    (DenyList.ofExtra extra).check (crlf document) label =
      (DenyList.ofExtra extra).check document label := by
  have hfrom : ∀ ls number, (DenyList.ofExtra extra).findFrom? label number (returnEach ls) =
      (DenyList.ofExtra extra).findFrom? label number ls := by
    intro ls
    fun_induction returnEach ls with
    | case1 => exact fun _ => rfl
    | case2 line => exact fun _ => rfl
    | case3 line rest hrest ih =>
        intro number
        rw [findFrom?_cons, findFrom?_cons, findInLine?_append, ih]
        split
        · rfl
        · rename_i token offset hfind
          rw [List.take_append_of_le_length (offset_le_length hfind)]
  rw [DenyList.check, DenyList.check, lines_crlf, hfrom]

theorem translateFrom_returnEach {t : Translator}
    (hline : ∀ line, t.translateLine (line ++ ['\r']) = (t.translateLine line).map (· ++ ['\r']))
    (number : Nat) (ls : List (List Char)) :
    t.translateFrom number (returnEach ls) = (t.translateFrom number ls).map returnEach := by
  fun_induction returnEach ls generalizing number with
  | case1 => rfl
  | case2 line =>
      simp only [Translator.translateFrom]
      cases t.translateLine line <;> rfl
  | case3 line rest hrest ih =>
      rw [Translator.translateFrom, Translator.translateFrom, hline, ih]
      cases t.translateLine line with
      | error e => rfl
      | ok lua =>
          cases hluas : t.translateFrom (number + 1) rest with
          | error e => rfl
          | ok luas =>
              have hlength := (translateFrom_eq_ok_iff.mp hluas).length_eq
              cases luas with
              | nil => exact (hrest (List.length_eq_zero_iff.mp hlength)).elim
              | cons next luas => rfl

/-- A carriage return at the end of a line is copied to its Lua text. A document with a carriage
return before each line feed fails as the document without them does, or has the same Lua text but
for a carriage return at the end of what each line but the last becomes. -/
theorem translate_crlf {rules : RuleTable} {extra : List String} {t : Translator}
    (ht : Translator.ofTable rules extra = .ok t) :
    (∀ line, t.translateLine (line ++ ['\r']) = (t.translateLine line).map (· ++ ['\r'])) ∧
      ∀ document label,
        (∀ e, t.translate (crlf document) label = .error e ↔
          t.translate document label = .error e) ∧
        ∀ out, t.translate document label = .ok out →
          ∃ luas, List.Forall₂ (fun line lua => t.translateLine line = .ok lua)
              (lines document) luas ∧
            out = unlines luas ∧
            t.translate (crlf document) label = .ok (unlines (returnEach luas)) := by
  obtain ⟨hrules, hdenyList, hlexicon⟩ := ofTable_eq_ok ht
  have hline : ∀ line,
      t.translateLine (line ++ ['\r']) = (t.translateLine line).map (· ++ ['\r']) :=
    translateLine_append (by decide) hrules hlexicon
  refine ⟨hline, fun document label => ?_⟩
  rw [Translator.translate, Translator.translate, hdenyList, check_crlf, lines_crlf,
    translateFrom_returnEach hline]
  cases (DenyList.ofExtra extra).check document label with
  | error word => simp
  | ok _ =>
      cases hluas : t.translateFrom 1 (lines document) with
      | error e => simp [Except.map]
      | ok luas =>
          refine ⟨by simp [Except.map], fun out hout => ?_⟩
          exact ⟨luas, translateFrom_eq_ok_iff.mp hluas, (Except.ok.inj hout).symm, rfl⟩

theorem translate_crlf_open :
    let rules : RuleTable :=
      ⟨[⟨.constructorName, "Color3", "Color3", some 3⟩, ⟨.serviceName, "luz", "Lighting", none⟩]⟩
    let document := "obtener_servicio('luz'\n)".toList
    let failing := "\nColor3_nuevo(1, 2, 3, 4 \n".toList
    ∃ t luas, Translator.ofTable rules [] = .ok t ∧
      "game:GetService('luz'\n)".toList = unlines luas ∧
      t.translate (crlf document) "guion" = .ok (unlines (returnEach luas)) ∧
      t.translate (crlf failing) "guion" =
        .error (.line 2 ⟨"Color3_nuevo", "1, 2, 3, 4", 3, 4⟩) := by
  intro rules document failing
  let t : Translator := ⟨rules, .ofExtra [], .ofTable rules⟩
  have ht : Translator.ofTable rules [] = .ok t := by
    have hfault : rules.fault? = none := by decide +kernel
    rw [Translator.ofTable, hfault]
  have hout : t.translate document "guion" = .ok "game:GetService('luz'\n)".toList := by
    decide +kernel
  obtain ⟨luas, -, hluas, hcrlf⟩ := ((translate_crlf ht).2 document "guion").2 _ hout
  refine ⟨t, luas, ht, hluas, hcrlf, (((translate_crlf ht).2 failing "guion").1 _).mpr ?_⟩
  decide +kernel

end SpanishLua.Proofs.Returns
