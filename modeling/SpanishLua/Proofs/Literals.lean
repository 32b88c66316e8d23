import SpanishLua.Proofs.Lines

namespace SpanishLua.Proofs.Literals

open SpanishLua.Code
open SpanishLua.Proofs.Partition
open SpanishLua.Proofs.Sweep
open SpanishLua.Proofs.Lines
open SpanishLua.Proofs.Tables

/-- The same kinds of segments in the same order, with the same code. -/
def SameCode (segments segments' : List Segment) : Prop :=
  segments.map codeText? = segments'.map codeText?

/-- A literal stands alone between the parentheses of a lookup, and its body is, case apart, the
source of the service rule `r`. -/
def NamesService (rules : RuleTable) (previous next : Option Segment) (text : List Char)
    (quote : Char) (r : Rule) : Prop :=
  (∃ before after, previous = some (.code before) ∧ next = some (.code after) ∧
      EndsInLookup before ∧ StartsClosing after) ∧
    ∃ body, text = quote :: body ++ [quote] ∧ r ∈ rules.rules .serviceName ∧
      wordKey body = wordKey r.source.toList

/-- A literal becomes another one: a service's name gives way to its target between the same
quotes, any other literal stays as it is. -/
def LiteralBecomes (rules : RuleTable) (previous next : Option Segment)
    (text text' : List Char) : Prop :=
  (∃ quote r, NamesService rules previous next text quote r ∧
      text' = quote :: r.target.toList ++ [quote]) ∨
    (¬ ∃ quote r, NamesService rules previous next text quote r) ∧ text' = text

/-- Segment by segment, code goes through the passes and literals change by their neighbours. -/
inductive Becomes (rules : RuleTable) : Option Segment → List Segment → List Segment → Prop
  | nil {previous : Option Segment} : Becomes rules previous [] []
  | code {previous : Option Segment} {code lua : List Char} {rest out : List Segment} :
      rewriteCode (.ofTable rules) code = .ok lua →
      Becomes rules (some (.code code)) rest out →
      Becomes rules previous (.code code :: rest) (.code lua :: out)
  | literal {previous : Option Segment} {text text' : List Char} {rest out : List Segment} :
      LiteralBecomes rules previous rest.head? text text' →
      Becomes rules (some (.literal text)) rest out →
      Becomes rules previous (.literal text :: rest) (.literal text' :: out)

theorem isLookupArgument_iff {previous next : Segment} :
    Service.isLookupArgument previous next = true ↔
      ∃ before after, previous = .code before ∧ next = .code after ∧
        EndsInLookup before ∧ StartsClosing after := by
  cases previous <;> cases next <;>
    simp [Service.isLookupArgument, opensLookup_iff, closesLookup_iff]

theorem quoted_inj {quote quote' : Char} {body body' : List Char}
    (h : quote :: body ++ [quote] = quote' :: body' ++ [quote']) :
    quote = quote' ∧ body = body' := by
  simp only [List.cons_append, List.cons.injEq] at h
  exact ⟨h.1, (List.append_inj' h.2 rfl).1⟩

theorem literalBecomes_renamed {rules : RuleTable} (hrules : WellFormed rules)
    (previous next : Option Segment) {text : List Char} (hquoted : Quoted text) :
    ∃ text', renamed (.ofTable rules .serviceName) previous (.literal text) next =
        .literal text' ∧ LiteralBecomes rules previous next text text' := by
  obtain ⟨quote, body, -, rfl⟩ := hquoted
  by_cases hargument : ∃ before after, previous = some (.code before) ∧ next = some (.code after) ∧
      EndsInLookup before ∧ StartsClosing after
  · have hnamed : renamed (.ofTable rules .serviceName) previous
        (.literal (quote :: body ++ [quote])) next =
          Service.named (.ofTable rules .serviceName) (.literal (quote :: body ++ [quote])) := by
      obtain ⟨before, after, rfl, rfl, hlookup⟩ := hargument
      exact if_pos (isLookupArgument_iff.mpr ⟨before, after, rfl, rfl, hlookup⟩)
    rw [hnamed, Service.named, body?_quoted]
    dsimp only
    rw [target?_ofTable hrules]
    cases hfind : rules.find? .serviceName (wordKey body) with
    | none =>
        refine ⟨_, rfl, .inr ⟨?_, rfl⟩⟩
        rintro ⟨quote', r, -, body', hbody, hr, hkey⟩
        obtain ⟨-, rfl⟩ := quoted_inj hbody
        rw [(find?_eq_some_iff hrules).mpr ⟨hr, hkey.symm⟩] at hfind
        simp at hfind
    | some r =>
        obtain ⟨hr, hkey⟩ := (find?_eq_some_iff hrules).mp hfind
        exact ⟨_, rfl, .inl ⟨quote, r, ⟨hargument, body, rfl, hr, hkey.symm⟩, rfl⟩⟩
  · refine ⟨_, ?_, .inr ⟨fun ⟨_, _, h, _⟩ => hargument h, rfl⟩⟩
    unfold renamed
    split
    · rename_i previous next
      rw [if_neg]
      intro hlookup
      obtain ⟨before, after, rfl, rfl, h⟩ := isLookupArgument_iff.mp hlookup
      exact hargument ⟨before, after, rfl, rfl, h⟩
    · rfl

theorem becomes_of_rewritten {rules : RuleTable} (hrules : WellFormed rules)
    {previous : Option Segment} {segments out : List Segment} (hdelimited : Delimited segments)
    (h : List.Forall₂ (Rewritten (.ofTable rules))
      (nameEach (.ofTable rules .serviceName) previous segments) out) :
    Becomes rules previous segments out := by
  induction segments generalizing previous out with
  | nil =>
      obtain rfl := List.forall₂_nil_left_iff.mp h
      exact .nil
  | cons s rest ih =>
      rw [nameEach] at h
      cases h with
      | @cons _ s' _ out hs hrest =>
          cases s with
          | code code =>
              rw [renamed_code] at hs
              cases s' with
              | code lua => exact .code hs (ih hdelimited.2 hrest)
              | literal text => exact hs.elim
          | literal text =>
              obtain ⟨text', hrenamed, hbecomes⟩ :=
                literalBecomes_renamed hrules previous rest.head? hdelimited.1
              rw [hrenamed] at hs
              cases s' with
              | code lua => exact hs.elim
              | literal text'' =>
                  obtain rfl : text'' = text' := hs
                  exact .literal hbecomes (ih hdelimited.2 hrest)

theorem map_codeText?_of_becomes {rules : RuleTable} {previous : Option Segment}
    {segments out : List Segment} (h : Becomes rules previous segments out) :
    out.map codeText? = (segments.map codeText?).map fun code? =>
      code?.bind fun code => (rewriteCode (.ofTable rules) code).toOption := by
  induction h with
  | nil => rfl
  | code hcode hrest ih => simp [codeText?, hcode, Except.toOption, ih]
  | literal hliteral hrest ih => simp [codeText?, ih]

theorem SameCode.of_becomes {rules : RuleTable} {segments segments' out out' : List Segment}
    (hsame : SameCode segments segments') (h : Becomes rules none segments out)
    (h' : Becomes rules none segments' out') : SameCode out out' := by
  rw [SameCode, map_codeText?_of_becomes h, map_codeText?_of_becomes h', hsame]

theorem becomes_of_translateSegments {rules : RuleTable} (hrules : WellFormed rules)
    {line : List Char} {segments : List Segment}
    (h : translateSegments (.ofTable rules) (partition line) = (segments, none)) :
    Becomes rules none (partition line) segments := by
  rw [translateSegments, nameAll_eq_nameEach] at h
  have hrewritten := translateCode_rewritten (congrArg Prod.snd h)
  rw [h] at hrewritten
  exact becomes_of_rewritten hrules (delimited_partition line) hrewritten

theorem becomes_of_translateLine {rules : RuleTable} {extra : List String} {t : Translator}
    (ht : Translator.ofTable rules extra = .ok t) {line lua : List Char}
    (h : t.translateLine line = .ok lua) :
    ∃ out, lua = Segment.join out ∧ Becomes rules none (partition line) out := by
  obtain ⟨hrules, -, hlexicon⟩ := ofTable_eq_ok ht
  obtain ⟨out, hout, rfl⟩ := rewritten_of_translateLine h
  rw [hlexicon] at hout
  exact ⟨out, rfl, becomes_of_rewritten hrules (delimited_partition line) hout⟩

/-- Two lines that differ in their literals only fail alike; or both succeed, with the same code,
and each with its own literals, of which only names of services have changed. -/
theorem translateLine_literals {rules : RuleTable} {extra : List String} {t : Translator}
    (ht : Translator.ofTable rules extra = .ok t) {line line' : List Char}
    (hsame : SameCode (partition line) (partition line')) :
    (∃ e, t.translateLine line = .error e ∧ t.translateLine line' = .error e) ∨
      ∃ out out', t.translateLine line = .ok (Segment.join out) ∧
        t.translateLine line' = .ok (Segment.join out') ∧ SameCode out out' ∧
        Becomes rules none (partition line) out ∧ Becomes rules none (partition line') out' := by
  cases hline : t.translateLine line with
  | error e =>
      have hfailure := translateLine_eq_error_iff.mp hline
      rw [hsame] at hfailure
      exact .inl ⟨e, rfl, translateLine_eq_error_iff.mpr hfailure⟩
  | ok lua =>
      cases hline' : t.translateLine line' with
      | error e =>
          have hfailure := translateLine_eq_error_iff.mp hline'
          rw [← hsame] at hfailure
          rw [translateLine_eq_error_iff.mpr hfailure] at hline
          simp at hline
      | ok lua' =>
          obtain ⟨out, rfl, hout⟩ := becomes_of_translateLine ht hline
          obtain ⟨out', rfl, hout'⟩ := becomes_of_translateLine ht hline'
          exact .inr ⟨out, out', rfl, rfl, hsame.of_becomes hout hout', hout, hout'⟩

theorem translateLine_literals_service :
    let rules : RuleTable := ⟨[⟨.serviceName, "luz", "Lighting", none⟩]⟩
    let line := "x = obtener_servicio( \"LUZ\" ) .. 'luz'".toList
    let line' := "x = obtener_servicio( 'fin' ) .. \"\"".toList
    ∃ t, Translator.ofTable rules [] = .ok t ∧ SameCode (partition line) (partition line') ∧
      ((∃ e, t.translateLine line = .error e ∧ t.translateLine line' = .error e) ∨
        ∃ out out', t.translateLine line = .ok (Segment.join out) ∧
          t.translateLine line' = .ok (Segment.join out') ∧ SameCode out out' ∧
          Becomes rules none (partition line) out ∧ Becomes rules none (partition line') out') := by
  intro rules line line'
  have hfault : rules.fault? = none := by decide +kernel
  have ht : Translator.ofTable rules [] = .ok ⟨rules, .ofExtra [], .ofTable rules⟩ := by
    rw [Translator.ofTable, hfault]
  have hsame : (partition line).map codeText? = (partition line').map codeText? := by
    decide +kernel
  exact ⟨_, ht, hsame, translateLine_literals ht hsame⟩

end SpanishLua.Proofs.Literals
