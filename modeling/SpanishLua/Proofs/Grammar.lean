import SpanishLua.Proofs.Partition
import SpanishLua.Proofs.Sweep

namespace SpanishLua.Proofs.Grammar

open SpanishLua.Proofs.Partition
open SpanishLua.Proofs.Sweep

/-- No quote of either kind stands in the text. -/
def QuoteFree (text : List Char) : Prop :=
  ∀ c ∈ text, isQuote c = false

/-- Every `quote` in the text has a backslash right before it, within the text. -/
def Escaped (quote : Char) (text : List Char) : Prop :=
  ∀ before after, text = before ++ quote :: after → before.getLast? = some '\\'

/-- What may stand between two quotes of one kind as the body of a literal. -/
structure Body (quote : Char) (body : List Char) : Prop where
  isQuote : isQuote quote = true
  last : body.getLast? ≠ some '\\'
  escaped : Escaped quote body

/-- Code at the end of a line: a quote in it opens a literal that nothing closes. -/
def LastCode (code : List Char) : Prop :=
  QuoteFree code ∨
    ∃ start quote tail, code = start ++ quote :: tail ∧ QuoteFree start ∧ isQuote quote = true ∧
      Escaped quote tail

/-- The segments are those of a line. -/
structure Grammatical (segments : List Segment) : Prop where
  ne_nil : ∀ s ∈ segments, s.text ≠ []
  apart : ∀ left code code' right, segments ≠ left ++ .code code :: .code code' :: right
  literal : ∀ text, .literal text ∈ segments →
    ∃ quote body, text = quote :: body ++ [quote] ∧ Body quote body
  inner : ∀ left code s right, segments = left ++ .code code :: s :: right → QuoteFree code
  last : ∀ left code, segments = left ++ [.code code] → LastCode code

theorem ne_backslash_of_isQuote {quote : Char} (h : isQuote quote = true) : quote ≠ '\\' := by
  rintro rfl
  exact absurd h (by decide)

theorem escaped_cons_iff {quote previous c : Char} {s : List Char} :
    (∀ left right, c :: s = left ++ quote :: right → left.getLast?.getD previous = '\\') ↔
      (c = quote → previous = '\\') ∧
        ∀ left right, s = left ++ quote :: right → left.getLast?.getD c = '\\' := by
  constructor
  · intro h
    refine ⟨?_, fun left right hs => ?_⟩
    · rintro rfl
      exact h [] s rfl
    · simpa [List.getLast?_cons] using h (c :: left) right (by rw [hs]; rfl)
  · rintro ⟨hfirst, hrest⟩ left right hsplit
    rcases left with _ | ⟨d, left⟩
    · obtain ⟨rfl, -⟩ := List.cons.inj hsplit
      exact hfirst rfl
    · obtain ⟨rfl, hs⟩ := List.cons.inj hsplit
      simpa [List.getLast?_cons] using hrest left right hs

/-- The first quote that is not escaped closes a literal. The character before the text counts as
the one before its first character. -/
theorem closing?_eq_some_iff {quote previous : Char} {s body after : List Char} :
    closing? quote previous s = some (body, after) ↔
      s = body ++ quote :: after ∧ body.getLast?.getD previous ≠ '\\' ∧
        ∀ left right, body = left ++ quote :: right → left.getLast?.getD previous = '\\' := by
  induction s generalizing previous body after with
  | nil => simp [closing?]
  | cons c s ih =>
      rw [closing?]
      split
      · rename_i hclose
        obtain ⟨rfl, hprevious⟩ := hclose
        constructor
        · intro h
          simp only [Option.some.injEq, Prod.mk.injEq] at h
          obtain ⟨rfl, rfl⟩ := h
          exact ⟨rfl, hprevious, by simp⟩
        · rintro ⟨hsplit, -, hescaped⟩
          rcases body with _ | ⟨d, body⟩
          · simp only [List.nil_append, List.cons.injEq, true_and] at hsplit
            rw [hsplit]
          · obtain ⟨rfl, -⟩ := List.cons.inj hsplit
            exact absurd (hescaped [] body rfl) hprevious
      · rename_i hclose
        have hfirst : c = quote → previous = '\\' := fun hc =>
          not_not.mp fun hprevious => hclose ⟨hc, hprevious⟩
        simp only [Option.map_eq_some_iff, Prod.mk.injEq, Prod.exists, ih]
        constructor
        · rintro ⟨body, _, ⟨rfl, hlast, hescaped⟩, rfl, rfl⟩
          exact ⟨rfl, by simpa [List.getLast?_cons] using hlast,
            escaped_cons_iff.mpr ⟨hfirst, hescaped⟩⟩
        · rintro ⟨hsplit, hlast, hescaped⟩
          rcases body with _ | ⟨d, body⟩
          · obtain ⟨rfl, -⟩ := List.cons.inj hsplit
            exact absurd (hfirst rfl) hlast
          · obtain ⟨rfl, rfl⟩ := List.cons.inj hsplit
            exact ⟨body, after, ⟨rfl, by simpa [List.getLast?_cons] using hlast,
              (escaped_cons_iff.mp hescaped).2⟩, rfl, rfl⟩

theorem closing?_eq_none_iff {quote previous : Char} {s : List Char} :
    closing? quote previous s = none ↔
      ∀ left right, s = left ++ quote :: right → left.getLast?.getD previous = '\\' := by
  induction s generalizing previous with
  | nil => simp [closing?]
  | cons c s ih =>
      rw [closing?, escaped_cons_iff]
      split
      · rename_i hclose
        obtain ⟨rfl, hprevious⟩ := hclose
        exact iff_of_false (by simp) fun h => hprevious (h.1 rfl)
      · rename_i hclose
        have hfirst : c = quote → previous = '\\' := fun hc =>
          not_not.mp fun hprevious => hclose ⟨hc, hprevious⟩
        rw [Option.map_eq_none_iff, ih, and_iff_right hfirst]

theorem getD_eq_backslash_iff {quote : Char} (hquote : isQuote quote = true) (s : List Char) :
    s.getLast?.getD quote = '\\' ↔ s.getLast? = some '\\' := by
  cases s.getLast? with
  | none => simpa using ne_backslash_of_isQuote hquote
  | some c => simp

theorem closing?_eq_some_iff_body {quote : Char} (hquote : isQuote quote = true)
    {s body after : List Char} :
    closing? quote quote s = some (body, after) ↔
      s = body ++ quote :: after ∧ Body quote body := by
  simp only [closing?_eq_some_iff, ne_eq, getD_eq_backslash_iff hquote]
  constructor
  · rintro ⟨hsplit, hlast, hescaped⟩
    exact ⟨hsplit, hquote, hlast, hescaped⟩
  · rintro ⟨hsplit, -, hlast, hescaped⟩
    exact ⟨hsplit, hlast, hescaped⟩

theorem closing?_eq_none_iff_escaped {quote : Char} (hquote : isQuote quote = true)
    {s : List Char} : closing? quote quote s = none ↔ Escaped quote s := by
  simp only [closing?_eq_none_iff, getD_eq_backslash_iff hquote, Escaped]

section Scan

variable {start tail : List Char} {quote : Char}

theorem dropWhile_of_quoteFree (h : QuoteFree start) (hquote : isQuote quote = true) :
    (start ++ quote :: tail).dropWhile (!isQuote ·) = quote :: tail := by
  rw [List.dropWhile_append_of_pos fun c hc => by simp [h c hc]]
  simp [hquote]

theorem takeWhile_of_quoteFree (h : QuoteFree start) (hquote : isQuote quote = true) :
    (start ++ quote :: tail).takeWhile (!isQuote ·) = start := by
  rw [List.takeWhile_append_of_pos fun c hc => by simp [h c hc]]
  simp [hquote]

theorem dropWhile_eq_nil_iff_quoteFree :
    start.dropWhile (!isQuote ·) = [] ↔ QuoteFree start := by
  simp [List.dropWhile_eq_nil_iff, QuoteFree]

theorem partition_of_lastCode (h : LastCode start) : partition start = codeOf start := by
  rcases h with hfree | ⟨start, quote, tail, rfl, hfree, hquote, hescaped⟩
  · rw [partition]
    split
    · rfl
    · rename_i hdrop
      rw [dropWhile_eq_nil_iff_quoteFree.mpr hfree] at hdrop
      simp at hdrop
  · have hclosing := (closing?_eq_none_iff_escaped hquote).mpr hescaped
    rw [partition]
    split
    · rfl
    · rename_i quote' rest hdrop
      rw [dropWhile_of_quoteFree hfree hquote] at hdrop
      obtain ⟨rfl, rfl⟩ := List.cons.inj hdrop
      split
      · rfl
      · rename_i hsome
        rw [hclosing] at hsome
        simp at hsome

theorem partition_of_body (hfree : QuoteFree start) {body : List Char} (hbody : Body quote body) :
    partition (start ++ (quote :: body ++ [quote] ++ tail)) =
      codeOf start ++ .literal (quote :: body ++ [quote]) :: partition tail := by
  have hregroup : start ++ (quote :: body ++ [quote] ++ tail) =
      start ++ quote :: (body ++ quote :: tail) := by simp
  have hclosing := (closing?_eq_some_iff_body hbody.isQuote).mpr
    ⟨(rfl : body ++ quote :: tail = body ++ quote :: tail), hbody⟩
  rw [hregroup, partition]
  split
  · rename_i hdrop
    rw [dropWhile_of_quoteFree hfree hbody.isQuote] at hdrop
    simp at hdrop
  · rename_i quote' rest hdrop
    rw [dropWhile_of_quoteFree hfree hbody.isQuote] at hdrop
    obtain ⟨rfl, rfl⟩ := List.cons.inj hdrop
    split
    · rename_i hnone
      rw [hclosing] at hnone
      simp at hnone
    · rename_i hsome
      rw [hclosing] at hsome
      simp only [Option.some.injEq, Prod.mk.injEq] at hsome
      obtain ⟨rfl, rfl⟩ := hsome
      rw [takeWhile_of_quoteFree hfree hbody.isQuote]

end Scan

theorem Grammatical.of_cons {s : Segment} {rest : List Segment} (h : Grammatical (s :: rest)) :
    Grammatical rest where
  ne_nil := fun s' hs' => h.ne_nil s' (by simp [hs'])
  apart := fun left code code' right hsplit =>
    h.apart (s :: left) code code' right (by rw [hsplit]; rfl)
  literal := fun text htext => h.literal text (by simp [htext])
  inner := fun left code s' right hsplit =>
    h.inner (s :: left) code s' right (by rw [hsplit]; rfl)
  last := fun left code hsplit => h.last (s :: left) code (by rw [hsplit]; rfl)

theorem grammatical_nil : Grammatical [] where
  ne_nil := by simp
  apart := by simp
  literal := by simp
  inner := by simp
  last := by simp

theorem Grammatical.literal_cons {quote : Char} {body : List Char} (hbody : Body quote body)
    {rest : List Segment} (h : Grammatical rest) :
    Grammatical (.literal (quote :: body ++ [quote]) :: rest) where
  ne_nil := by
    intro s hs
    rcases List.mem_cons.mp hs with rfl | hs
    · simp [Segment.text]
    · exact h.ne_nil s hs
  apart := by
    intro left code code' right hsplit
    rcases left with _ | ⟨s, left⟩
    · simp at hsplit
    · exact h.apart left code code' right (List.cons.inj hsplit).2
  literal := by
    intro text htext
    rcases List.mem_cons.mp htext with heq | htext
    · exact ⟨quote, body, Segment.literal.inj heq, hbody⟩
    · exact h.literal text htext
  inner := by
    intro left code s right hsplit
    rcases left with _ | ⟨s', left⟩
    · simp at hsplit
    · exact h.inner left code s right (List.cons.inj hsplit).2
  last := by
    intro left code hsplit
    rcases left with _ | ⟨s, left⟩
    · simp at hsplit
    · exact h.last left code (List.cons.inj hsplit).2

theorem Grammatical.code_cons {code : List Char} (hne : code ≠ []) (hfree : QuoteFree code)
    {rest : List Segment} (hhead : ∀ s ∈ rest.head?, s.isCode = false) (h : Grammatical rest) :
    Grammatical (.code code :: rest) where
  ne_nil := by
    intro s hs
    rcases List.mem_cons.mp hs with rfl | hs
    · exact hne
    · exact h.ne_nil s hs
  apart := by
    intro left code' code'' right hsplit
    rcases left with _ | ⟨s, left⟩
    · obtain ⟨-, rfl⟩ := List.cons.inj hsplit
      exact absurd (hhead _ rfl) (by simp [Segment.isCode])
    · exact h.apart left code' code'' right (List.cons.inj hsplit).2
  literal := by
    intro text htext
    exact h.literal text (by simpa using htext)
  inner := by
    intro left code' s right hsplit
    rcases left with _ | ⟨s', left⟩
    · obtain ⟨heq, -⟩ := List.cons.inj hsplit
      exact Segment.code.inj heq ▸ hfree
    · exact h.inner left code' s right (List.cons.inj hsplit).2
  last := by
    intro left code' hsplit
    rcases left with _ | ⟨s, left⟩
    · obtain ⟨heq, -⟩ := List.cons.inj hsplit
      exact Segment.code.inj heq ▸ .inl hfree
    · exact h.last left code' (List.cons.inj hsplit).2

theorem grammatical_codeOf {code : List Char} (h : LastCode code) : Grammatical (codeOf code) := by
  rcases code with _ | ⟨c, code⟩
  · exact grammatical_nil
  · constructor
    · simp [codeOf, Segment.text]
    · simp [codeOf, List.singleton_eq_append_iff]
    · simp [codeOf]
    · simp [codeOf, List.singleton_eq_append_iff]
    · intro left code' hsplit
      have hlast := congrArg List.getLast? hsplit
      simp only [codeOf, List.isEmpty_cons, Bool.false_eq_true, ↓reduceIte,
        List.getLast?_singleton, List.getLast?_append, Option.some_or, Option.some.injEq,
        Segment.code.injEq] at hlast
      exact hlast ▸ h

theorem grammatical_partition (line : List Char) : Grammatical (partition line) := by
  fun_induction partition line with
  | case1 line hdrop => exact grammatical_codeOf (.inl (dropWhile_eq_nil_iff_quoteFree.mp hdrop))
  | case2 line quote rest hdrop hclosing =>
      obtain ⟨hquote, hline⟩ := dropWhile_eq_cons hdrop
      refine grammatical_codeOf (.inr ⟨_, quote, rest, hline, ?_, hquote, ?_⟩)
      · exact fun c hc => by simpa using List.mem_takeWhile_imp hc
      · exact (closing?_eq_none_iff_escaped hquote).mp hclosing
  | case3 line quote rest hdrop body after hclosing ih =>
      obtain ⟨hquote, -⟩ := dropWhile_eq_cons hdrop
      obtain ⟨-, hbody⟩ := (closing?_eq_some_iff_body hquote).mp hclosing
      have hrest := ih.literal_cons hbody
      have hfree : QuoteFree (line.takeWhile (!isQuote ·)) :=
        fun c hc => by simpa using List.mem_takeWhile_imp hc
      rw [codeOf]
      split
      · exact hrest
      · rename_i hne
        exact hrest.code_cons (by simpa using hne) hfree (by simp [Segment.isCode])

/-- The partition of a grammatical sequence of segments is that sequence. -/
theorem Grammatical.partition_join {segments : List Segment} (h : Grammatical segments) :
    partition (Segment.join segments) = segments := by
  match segments with
  | [] =>
      rw [join_nil, partition_of_lastCode (.inl (by simp [QuoteFree]))]
      rfl
  | .literal text :: rest =>
      obtain ⟨quote, body, rfl, hbody⟩ := h.literal text (by simp)
      have hrest := h.of_cons.partition_join
      rw [join_cons, Segment.text]
      have hpartition : partition ([] ++ (quote :: body ++ [quote] ++ Segment.join rest)) = _ :=
        partition_of_body (by simp [QuoteFree]) hbody
      rw [List.nil_append] at hpartition
      rw [hpartition, hrest]
      rfl
  | [.code code] =>
      have hne : code ≠ [] := h.ne_nil (.code code) (by simp)
      rw [join_cons, join_nil, List.append_nil, Segment.text,
        partition_of_lastCode (h.last [] code rfl), codeOf, if_neg (by simpa using hne)]
  | .code code :: .code code' :: rest => exact absurd rfl (h.apart [] code code' rest)
  | .code code :: .literal text :: rest =>
      have hne : code ≠ [] := h.ne_nil (.code code) (by simp)
      obtain ⟨quote, body, rfl, hbody⟩ := h.literal text (by simp)
      have hrest := h.of_cons.of_cons.partition_join
      have hfree := h.inner [] code _ rest rfl
      rw [join_cons, join_cons, Segment.text, Segment.text, partition_of_body hfree hbody, hrest,
        codeOf, if_neg (by simpa using hne)]
      rfl

theorem Grammatical.eq_partition {segments : List Segment} {line : List Char}
    (h : Grammatical segments) (hjoin : Segment.join segments = line) :
    segments = partition line := by
  rw [← hjoin, h.partition_join]

/-- A line has exactly one sequence of segments that makes it up and is grammatical, its partition;
and the body of each literal in it is what stands between the quotes. -/
theorem partition_iff_grammatical (line : List Char) :
    (∀ segments, Segment.join segments = line ∧ Grammatical segments ↔
        segments = partition line) ∧
      ∀ text, .literal text ∈ partition line → ∃ quote body, text = quote :: body ++ [quote] ∧
        Body quote body ∧ (Segment.literal text).body? = some (quote, body) := by
  constructor
  · intro segments
    constructor
    · rintro ⟨hjoin, h⟩
      exact h.eq_partition hjoin
    · rintro rfl
      exact ⟨join_partition line, grammatical_partition line⟩
  · intro text htext
    obtain ⟨quote, body, rfl, hbody⟩ := (grammatical_partition line).literal text htext
    exact ⟨quote, body, rfl, hbody, body?_quoted quote body⟩

-- the other quote, escaped quotes, an empty literal and an open one
example :
    partition "a\\'b\"' .. \"\\\"\" '' \"é".toList =
      [.code "a\\".toList, .literal "'b\"'".toList, .code " .. ".toList,
       .literal "\"\\\"\"".toList, .code " ".toList, .literal "''".toList,
       .code " \"é".toList] := by
  decide +kernel

end SpanishLua.Proofs.Grammar
