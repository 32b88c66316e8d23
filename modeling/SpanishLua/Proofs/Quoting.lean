import SpanishLua.Proofs.Alphabet
import SpanishLua.Proofs.Defaults
import SpanishLua.Proofs.Edits
import SpanishLua.Proofs.Grammar

/-!
Rewritings that have nothing to do with quotes. Where code keeps its quotes and the backslashes
before them, the segments that come out of a line are the segments of what comes out.
-/

namespace SpanishLua.Proofs.Quoting

open SpanishLua.Code
open SpanishLua.Text
open SpanishLua.Proofs.Recognisers
open SpanishLua.Proofs.Tables
open SpanishLua.Proofs.Defaults
open SpanishLua.Proofs.Lines
open SpanishLua.Proofs.Literals
open SpanishLua.Proofs.Grammar
open SpanishLua.Proofs.Alphabet
open SpanishLua.Proofs.Edits

/-- A character that neither delimits literals nor escapes what does. -/
def IsPlain (c : Char) : Prop :=
  isQuote c = false ∧ c ≠ '\\'

instance (c : Char) : Decidable (IsPlain c) :=
  inferInstanceAs (Decidable (isQuote c = false ∧ c ≠ '\\'))

/-- What a claim takes and what is put for it are plain texts. -/
structure PlainHit (hit : Hit) : Prop where
  taken_ne_nil : hit.taken ≠ []
  text_ne_nil : hit.text ≠ []
  taken : Within IsPlain hit.taken
  text : Within IsPlain hit.text

/-- All that the edits put in are plain texts for plain texts. -/
def Plain (es : List Edit) : Prop :=
  ∀ hit, .put hit ∈ es → PlainHit hit

/-- The quotes of code stay, and so does a literal that nothing closes. -/
structure KeepsQuotes (code lua : List Char) : Prop where
  ne_nil : code ≠ [] → lua ≠ []
  quotes : lua.filter isQuote = code.filter isQuote
  last : LastCode code → LastCode lua

theorem quoteFree_iff {s : List Char} : QuoteFree s ↔ s.filter isQuote = [] := by
  simp [QuoteFree, List.filter_eq_nil_iff]

theorem filter_isQuote_of_plain {s : List Char} (h : Within IsPlain s) : s.filter isQuote = [] :=
  quoteFree_iff.mp fun c hc => (h c hc).1

theorem isPlain_of {f : Char → Bool} (hf : f '"' = false ∧ f '\'' = false ∧ f '\\' = false)
    {c : Char} (h : f c = true) : IsPlain c := by
  obtain ⟨hdouble, hsingle, hbackslash⟩ := hf
  constructor
  · by_contra hquote
    simp only [isQuote, Bool.not_eq_false, Bool.or_eq_true, beq_iff_eq] at hquote
    rcases hquote with rfl | rfl
    · simp [hdouble] at h
    · simp [hsingle] at h
  · rintro rfl
    simp [hbackslash] at h

theorem plain_of_wordRun {s : List Char} (h : WordRun s) : Within IsPlain s :=
  fun c hc => isPlain_of (by decide) (h.2 c hc)

theorem plain_of_blank {s : List Char} (h : ∀ c ∈ s, isBlank c = true) : Within IsPlain s :=
  fun c hc => isPlain_of (by decide) (h c hc)

theorem plain_default : ∀ r ∈ RuleTable.default.entries, Within IsPlain r.target.toList := by
  have hplain : ∀ x ∈ spellings.val, Within IsPlain x.target := by decide +kernel
  exact forall_default hplain

section Rewriting

variable {code lua final : List Char}

theorem KeepsQuotes.refl (code : List Char) : KeepsQuotes code code :=
  ⟨id, rfl, id⟩

theorem KeepsQuotes.trans (h : KeepsQuotes code lua) (h' : KeepsQuotes lua final) :
    KeepsQuotes code final :=
  ⟨fun hne => h'.ne_nil (h.ne_nil hne), h'.quotes.trans h.quotes,
    fun hlast => h'.last (h.last hlast)⟩

theorem KeepsQuotes.quoteFree (h : KeepsQuotes code lua) (hcode : QuoteFree code) :
    QuoteFree lua := by
  rw [quoteFree_iff, h.quotes]
  exact quoteFree_iff.mp hcode

end Rewriting

section Edits

variable {es : List Edit}

/-- A character that is in nothing taken, or in nothing put in, has stayed. -/
theorem exists_keep {f : Edit → List Char} (hf : ∀ c, f (.keep c) = [c]) {c : Char}
    (hc : ∀ hit, .put hit ∈ es → c ∉ f (.put hit)) {p q : List Char}
    (h : es.flatMap f = p ++ c :: q) :
    ∃ left right, es = left ++ .keep c :: right ∧ left.flatMap f = p ∧ right.flatMap f = q := by
  induction es generalizing p with
  | nil => simp at h
  | cons e es ih =>
      have hrest : ∀ hit, .put hit ∈ es → c ∉ f (.put hit) :=
        fun hit hhit => hc hit (List.mem_cons_of_mem e hhit)
      rw [List.flatMap_cons] at h
      rcases List.append_eq_append_iff.mp h with ⟨p, rfl, hp⟩ | ⟨b, hb, hq⟩
      · obtain ⟨left, right, rfl, rfl, rfl⟩ := ih hrest hp
        exact ⟨e :: left, right, rfl, by simp, rfl⟩
      · rcases b with _ | ⟨d, b⟩
        · obtain ⟨left, right, rfl, hleft, rfl⟩ := ih hrest (p := []) hq.symm
          exact ⟨e :: left, right, rfl, by simp [hleft, hb], rfl⟩
        · obtain ⟨rfl, rfl⟩ := List.cons.inj hq
          cases e with
          | put hit => exact absurd (by simp [hb]) (hc hit (by simp))
          | keep d =>
              rw [hf] at hb
              obtain ⟨rfl, hone⟩ : p = [] ∧ c :: b = [d] := by
                rcases List.singleton_eq_append_iff.mp hb with h | h
                · exact h
                · simp at h
              obtain ⟨rfl, rfl⟩ := List.cons.inj hone
              exact ⟨[], es, rfl, rfl, by simp⟩

theorem Plain.of_subset {es' : List Edit} (h : Plain es) (hsubset : es' ⊆ es) : Plain es' :=
  fun hit hhit => h hit (hsubset hhit)

theorem Plain.filter_isQuote (h : Plain es) :
    (result es).filter isQuote = (source es).filter isQuote := by
  induction es with
  | nil => rfl
  | cons e es ih =>
      have hrest := ih (h.of_subset (List.subset_cons_self e es))
      cases e with
      | keep c => rw [result_keep, source_keep, List.filter_cons, List.filter_cons, hrest]
      | put hit =>
          have hhit := h hit List.mem_cons_self
          rw [result_put, source_put, List.filter_append, List.filter_append,
            filter_isQuote_of_plain hhit.text, filter_isQuote_of_plain hhit.taken, hrest]

theorem Plain.keep_last {p : List Char} (h : Plain es) (hsource : source es = p ++ ['\\']) :
    ∃ init, es = init ++ [.keep '\\'] := by
  obtain ⟨left, right, rfl, -, hright⟩ := exists_keep (f := Edit.taken) (fun _ => rfl)
    (fun hit hhit hmem => ((h hit hhit).taken _ hmem).2 rfl) hsource
  rcases right with _ | ⟨e, right⟩
  · exact ⟨left, rfl⟩
  · have htaken : e.taken = [] := (List.append_eq_nil_iff.mp hright).1
    cases e with
    | keep c => exact absurd htaken (by simp [Edit.taken])
    | put hit => exact absurd htaken (h hit (by simp)).taken_ne_nil

theorem Plain.escaped (h : Plain es) {quote : Char} (hquote : isQuote quote = true)
    (hsource : Escaped quote (source es)) : Escaped quote (result es) := by
  intro before after hsplit
  have hput : ∀ hit, .put hit ∈ es → quote ∉ hit.text := by
    intro hit hhit hmem
    rw [((h hit hhit).text quote hmem).1] at hquote
    exact absurd hquote (by decide)
  obtain ⟨left, right, rfl, rfl, -⟩ := exists_keep (f := Edit.text) (fun _ => rfl) hput hsplit
  obtain ⟨p, hp⟩ := List.getLast?_eq_some_iff.mp (hsource (source left) (source right) (by simp))
  obtain ⟨init, rfl⟩ := (h.of_subset (List.subset_append_left _ _)).keep_last hp
  simp [Edit.text]

theorem Plain.lastCode (h : Plain es) (hsource : LastCode (source es)) : LastCode (result es) := by
  rcases hsource with hfree | ⟨start, quote, tail, hsplit, hstart, hquote, htail⟩
  · rw [quoteFree_iff, ← h.filter_isQuote, ← quoteFree_iff] at hfree
    exact .inl hfree
  · have htaken : ∀ hit, .put hit ∈ es → quote ∉ hit.taken := by
      intro hit hhit hmem
      rw [((h hit hhit).taken quote hmem).1] at hquote
      exact absurd hquote (by decide)
    obtain ⟨left, right, rfl, rfl, rfl⟩ :=
      exists_keep (f := Edit.taken) (fun _ => rfl) htaken hsplit
    refine .inr ⟨result left, quote, result right, by simp, ?_, hquote, ?_⟩
    · have hleft : Plain left := h.of_subset (List.subset_append_left _ _)
      rw [quoteFree_iff, hleft.filter_isQuote]
      exact quoteFree_iff.mp hstart
    · refine (h.of_subset fun e he => ?_).escaped hquote htail
      simp [he]

theorem Plain.result_ne_nil (h : Plain es) (hsource : source es ≠ []) : result es ≠ [] := by
  rcases es with _ | ⟨e, es⟩
  · exact absurd rfl hsource
  · cases e with
    | keep c => simp
    | put hit => simp [(h hit List.mem_cons_self).text_ne_nil]

theorem Plain.keepsQuotes (h : Plain es) : KeepsQuotes (source es) (result es) :=
  ⟨h.result_ne_nil, h.filter_isQuote, h.lastCode⟩

end Edits

section Segments

variable {rules : RuleTable} {previous : Option Segment} {segments out : List Segment}

theorem map_isCode_of_becomes (h : Becomes rules previous segments out) :
    out.map Segment.isCode = segments.map Segment.isCode := by
  induction h with
  | nil => rfl
  | code _ _ ih => simp [ih, Segment.isCode]
  | literal _ _ ih => simp [ih, Segment.isCode]

theorem body_of_literalBecomes {next : Option Segment} {quote : Char} {body text' : List Char}
    (htargets : ∀ r ∈ rules.entries, Within IsPlain r.target.toList) (hbody : Body quote body)
    (h : LiteralBecomes rules previous next (quote :: body ++ [quote]) text') :
    ∃ body', text' = quote :: body' ++ [quote] ∧ Body quote body' := by
  rcases h with ⟨quote', r, ⟨-, body', hsame, hr, -⟩, rfl⟩ | ⟨-, rfl⟩
  · obtain ⟨rfl, rfl⟩ := quoted_inj hsame
    have hplain := htargets r (mem_rules_iff.mp hr).1
    refine ⟨r.target.toList, rfl, hbody.isQuote, fun hlast => ?_, fun before after hsplit => ?_⟩
    · exact (hplain _ (List.mem_of_getLast? hlast)).2 rfl
    · have hquote := (hplain quote (by simp [hsplit])).1
      rw [hbody.isQuote] at hquote
      exact absurd hquote (by decide)
  · exact ⟨body, rfl, hbody⟩

theorem grammatical_of_keepsQuotes (h : Becomes rules previous segments out)
    (htargets : ∀ r ∈ rules.entries, Within IsPlain r.target.toList)
    (hkeeps : ∀ code lua, .code code ∈ segments → rewriteCode (.ofTable rules) code = .ok lua →
      KeepsQuotes code lua) (hsegments : Grammatical segments) : Grammatical out := by
  induction h with
  | nil => exact hsegments
  | @code previous code lua rest out hcode hrest ih =>
      have hout := ih (fun code' lua' hmem => hkeeps code' lua' (List.mem_cons_of_mem _ hmem))
        hsegments.of_cons
      have hfirst : KeepsQuotes code lua := hkeeps code lua List.mem_cons_self hcode
      have hne : lua ≠ [] := hfirst.ne_nil (hsegments.ne_nil (.code code) List.mem_cons_self)
      rcases rest with _ | ⟨s, rest⟩
      · cases hrest
        have hsingle := grammatical_codeOf (hfirst.last (hsegments.last [] code rfl))
        rwa [codeOf, if_neg (by simpa using hne)] at hsingle
      · have hfree := hfirst.quoteFree (hsegments.inner [] code s rest rfl)
        refine hout.code_cons hne hfree fun s' hs' => ?_
        have hkinds := congrArg List.head? (map_isCode_of_becomes hrest)
        rw [List.head?_map, Option.mem_def.mp hs'] at hkinds
        cases s with
        | literal text => exact Option.some.inj hkinds
        | code code' => exact absurd rfl (hsegments.apart [] code code' rest)
  | literal hliteral hrest ih =>
      have hout := ih (fun code' lua' hmem => hkeeps code' lua' (List.mem_cons_of_mem _ hmem))
        hsegments.of_cons
      obtain ⟨quote, body, rfl, hbody⟩ := hsegments.literal _ List.mem_cons_self
      obtain ⟨body', rfl, hbody'⟩ := body_of_literalBecomes htargets hbody hliteral
      exact hout.literal_cons hbody'

end Segments

end SpanishLua.Proofs.Quoting
