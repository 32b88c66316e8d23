import Mathlib.Data.List.Induction
import SpanishLua.Proofs.Places

/-!
A rewriting as a list of edits. It lines up a text with what becomes of it, so that a place of the
one can be found again in the other.
-/

namespace SpanishLua.Proofs.Edits

open SpanishLua.Code
open SpanishLua.Text
open SpanishLua.Proofs.Characters
open SpanishLua.Proofs.Scanning
open SpanishLua.Proofs.Recognisers
open SpanishLua.Proofs.Places

/-- A character that stays, or a claim with what is put for it. -/
inductive Edit where
  | keep (c : Char)
  | put (hit : Hit)

namespace Edit

/-- The characters of an edit before it is made. -/
def taken : Edit → List Char
  | keep c => [c]
  | put hit => hit.taken

/-- The characters of an edit after it is made. -/
def text : Edit → List Char
  | keep c => [c]
  | put hit => hit.text

end Edit

/-- The text before the edits. -/
def source (es : List Edit) : List Char :=
  es.flatMap Edit.taken

/-- The text after the edits. -/
def result (es : List Edit) : List Char :=
  es.flatMap Edit.text

/-- All characters of a text stay. -/
def kept (s : List Char) : List Edit :=
  s.map .keep

section Texts

variable (c : Char) (hit : Hit) (s t : List Char) (es es' : List Edit)

@[simp]
theorem source_nil : source [] = [] :=
  rfl

@[simp]
theorem result_nil : result [] = [] :=
  rfl

@[simp]
theorem source_keep : source (.keep c :: es) = c :: source es :=
  rfl

@[simp]
theorem result_keep : result (.keep c :: es) = c :: result es :=
  rfl

@[simp]
theorem source_put : source (.put hit :: es) = hit.taken ++ source es :=
  rfl

@[simp]
theorem result_put : result (.put hit :: es) = hit.text ++ result es :=
  rfl

@[simp]
theorem source_append : source (es ++ es') = source es ++ source es' :=
  List.flatMap_append

@[simp]
theorem result_append : result (es ++ es') = result es ++ result es' :=
  List.flatMap_append

@[simp]
theorem kept_nil : kept [] = [] :=
  rfl

@[simp]
theorem kept_cons : kept (c :: s) = .keep c :: kept s :=
  rfl

@[simp]
theorem kept_append : kept (s ++ t) = kept s ++ kept t :=
  List.map_append

@[simp]
theorem source_kept : source (kept s) = s := by
  induction s with
  | nil => rfl
  | cons c s ih => rw [kept_cons, source_keep, ih]

@[simp]
theorem result_kept : result (kept s) = s := by
  induction s with
  | nil => rfl
  | cons c s ih => rw [kept_cons, result_keep, ih]

end Texts

/-- A place after `pre`, which itself follows `before`, lies inside an earlier claim of `find`. -/
def Hidden (find : Recogniser) (before pre after : List Char) : Prop :=
  ∃ left inner hit, pre = left ++ inner ∧ inner ≠ [] ∧
    find (left.reverse ++ before) (inner ++ after) = some hit ∧ inner.length < hit.taken.length

/-- The edits are those that `find` makes behind `before`: every `put` is a claim that changes
something, and where such a claim could be made and is not, an earlier one is in its way. -/
structure Script (find : Recogniser) (before : List Char) (es : List Edit) : Prop where
  put : ∀ left hit right, es = left ++ .put hit :: right →
    find ((source left).reverse ++ before) (hit.taken ++ source right) = some hit ∧
      hit.text ≠ hit.taken
  keep : ∀ left c right hit, es = left ++ .keep c :: right →
    find ((source left).reverse ++ before) (c :: source right) = some hit →
      hit.text ≠ hit.taken → Hidden find before (source left) (c :: source right)

section Scripts

variable {find : Recogniser} {before pre after : List Char} {es : List Edit}

theorem Hidden.append_left (more : List Char)
    (h : Hidden find (more.reverse ++ before) pre after) :
    Hidden find before (more ++ pre) after := by
  obtain ⟨left, inner, hit, rfl, hne, hfind, hlength⟩ := h
  exact ⟨more ++ left, inner, hit, by simp, hne, by simpa using hfind, hlength⟩

theorem Script.nil : Script find before [] :=
  ⟨fun _ _ _ h => absurd h (by simp), fun _ _ _ _ h => absurd h (by simp)⟩

theorem Script.cons_keep {c : Char} (hfind : find before (c :: source es) = none)
    (h : Script find (c :: before) es) : Script find before (.keep c :: es) := by
  constructor
  · intro left hit right hes
    rcases List.cons_eq_append_iff.mp hes with ⟨rfl, hhead⟩ | ⟨left, rfl, rfl⟩
    · simp at hhead
    · simpa using h.put left hit right rfl
  · intro left d right hit hes hclaim hchanged
    rcases List.cons_eq_append_iff.mp hes with ⟨rfl, hhead⟩ | ⟨left, rfl, rfl⟩
    · simp only [List.cons.injEq, Edit.keep.injEq] at hhead
      obtain ⟨rfl, rfl⟩ := hhead
      rw [source_nil, List.reverse_nil, List.nil_append, hfind] at hclaim
      simp at hclaim
    · exact .append_left [c] (h.keep left d right hit rfl (by simpa using hclaim) hchanged)

theorem Script.cons_put {hit : Hit} (hfind : find before (hit.taken ++ source es) = some hit)
    (hchanged : hit.text ≠ hit.taken) (h : Script find (hit.taken.reverse ++ before) es) :
    Script find before (.put hit :: es) := by
  constructor
  · intro left hit' right hes
    rcases List.cons_eq_append_iff.mp hes with ⟨rfl, hhead⟩ | ⟨left, rfl, rfl⟩
    · simp only [List.cons.injEq, Edit.put.injEq] at hhead
      obtain ⟨rfl, rfl⟩ := hhead
      exact ⟨hfind, hchanged⟩
    · simpa using h.put left hit' right rfl
  · intro left c right hit' hes hclaim hchanged'
    rcases List.cons_eq_append_iff.mp hes with ⟨rfl, hhead⟩ | ⟨left, rfl, rfl⟩
    · simp at hhead
    · exact .append_left hit.taken (h.keep left c right hit' rfl (by simpa using hclaim) hchanged')

theorem Script.kept_append {hit : Hit} (hfind : find before (hit.taken ++ source es) = some hit)
    (hsame : hit.text = hit.taken) (h : Script find (hit.taken.reverse ++ before) es) :
    Script find before (kept hit.taken ++ es) := by
  -- an edit of the whole list is one of the characters claimed or an edit behind them
  have hsplit : ∀ left e right, kept hit.taken ++ es = left ++ e :: right →
      (∃ u c v, hit.taken = u ++ c :: v ∧ left = kept u ∧ e = .keep c ∧ right = kept v ++ es) ∨
        ∃ left', left = kept hit.taken ++ left' ∧ es = left' ++ e :: right := by
    intro left e right hes
    rcases List.append_eq_append_iff.mp hes with ⟨more, rfl, hmore⟩ | ⟨more, hmore, hright⟩
    · exact .inr ⟨more, rfl, hmore⟩
    · obtain ⟨u, v, hhit, rfl, rfl⟩ := List.map_eq_append_iff.mp hmore
      rcases v with _ | ⟨c, v⟩
      · exact .inr ⟨[], by simp [hhit, kept], hright.symm⟩
      · obtain ⟨rfl, rfl⟩ := List.cons.inj hright
        exact .inl ⟨u, c, v, hhit, rfl, rfl, rfl⟩
  constructor
  · intro left hit' right hes
    rcases hsplit left _ right hes with ⟨u, c, v, -, -, hput, -⟩ | ⟨left, rfl, hrest⟩
    · exact absurd hput (by simp)
    · simpa using h.put left hit' right hrest
  · intro left c right hit' hes hclaim hchanged
    rcases hsplit left _ right hes with ⟨u, d, v, hhit, rfl, hkeep, rfl⟩ | ⟨left, rfl, hrest⟩
    · obtain rfl := Edit.keep.inj hkeep
      have hregroup : hit.taken ++ source es = u ++ c :: (v ++ source es) := by simp [hhit]
      simp only [source_append, source_kept] at hclaim ⊢
      by_cases hu : u = []
      · subst hu
        rw [hregroup] at hfind
        obtain rfl := Option.some.inj (hfind.symm.trans hclaim)
        exact absurd hsame hchanged
      · exact ⟨[], u, hit, rfl, hu, by rw [← hregroup]; exact hfind, by simp [hhit]⟩
    · rw [source_append, source_kept] at hclaim ⊢
      exact .append_left hit.taken (h.keep left c right hit' hrest (by simpa using hclaim) hchanged)

/-- Every rewriting is made up of edits. -/
theorem exists_script (hsound : Sound find) (before after : List Char) :
    ∃ es, source es = after ∧ result es = replaceFrom find before after ∧
      Script find before es := by
  induction before, after using scan_induction hsound with
  | nil before => exact ⟨[], rfl, by rw [replaceFrom_nil, result_nil], .nil⟩
  | kept before c rest hfind ih =>
      obtain ⟨es, rfl, hresult, hscript⟩ := ih
      exact ⟨.keep c :: es, rfl, by rw [replaceFrom_kept hfind, result_keep, hresult],
        hscript.cons_keep hfind⟩
  | claimed before hit rest hfind ih =>
      obtain ⟨es, rfl, hresult, hscript⟩ := ih
      by_cases hsame : hit.text = hit.taken
      · refine ⟨kept hit.taken ++ es, by simp, ?_, hscript.kept_append hfind hsame⟩
        rw [replaceFrom_claimed hsound hfind, hsame, result_append, result_kept, hresult]
      · refine ⟨.put hit :: es, rfl, ?_, hscript.cons_put hfind hsame⟩
        rw [replaceFrom_claimed hsound hfind, result_put, hresult]

end Scripts

/-- How what is put for a claim starts, beside how the claim starts: in a word that starts there, a
colon or a dot. Only one text does not start in a word where its claim does. -/
inductive Opens (before : List Char) (hit : Hit) : Prop
  | word (hleft : headIsWord before = false) (htaken : headIsWord hit.taken = true)
      (htext : headIsWord hit.text = true ∨ hit.text.head? = some '#')
  | colon (a b : List Char) (htaken : hit.taken = ':' :: a) (htext : hit.text = ':' :: b)
  | dot (a b : List Char) (ha : WordRun a) (hb : WordRun b) (htaken : hit.taken = '.' :: a)
      (htext : hit.text = '.' :: b)

/-- How what is put for a claim ends, beside how the claim ends: in a word that ends there, or in an
opening parenthesis. -/
inductive Closes (hit : Hit) (rest : List Char) : Prop
  | word (htaken : headIsWord hit.taken.reverse = true) (htext : headIsWord hit.text.reverse = true)
      (hright : headIsWord rest = false)
  | paren (a b : List Char) (htaken : hit.taken = a ++ ['(']) (htext : hit.text = b ++ ['('])

/-- No word of the text runs on into what is put in, and the other way round. -/
def Aligned (es : List Edit) : Prop :=
  ∀ left hit right, es = left ++ .put hit :: right →
    Opens (source left).reverse hit ∧ Closes hit (source right)

theorem Opens.text_ne_nil {before : List Char} {hit : Hit} (h : Opens before hit) :
    hit.text ≠ [] := by
  rintro hnil
  cases h with
  | word _ _ htext => simp [hnil, headIsWord] at htext
  | colon a b _ htext => simp [hnil] at htext
  | dot a b _ _ _ htext => simp [hnil] at htext

theorem Opens.taken_ne_nil {before : List Char} {hit : Hit} (h : Opens before hit) :
    hit.taken ≠ [] := by
  rintro hnil
  cases h with
  | word _ htaken _ => simp [hnil, headIsWord] at htaken
  | colon a b htaken _ => simp [hnil] at htaken
  | dot a b _ _ htaken _ => simp [hnil] at htaken

section Alignment

variable {es es' : List Edit} (h : Aligned (es ++ es'))

include h

theorem Aligned.last {hit : Hit} {init : List Edit} (hes : es = init ++ [.put hit]) :
    Opens (source init).reverse hit ∧ Closes hit (source es') :=
  h init hit es' (by simp [hes])

theorem Aligned.head {hit : Hit} {rest : List Edit} (hes : es' = .put hit :: rest) :
    Opens (source es).reverse hit ∧ Closes hit (source rest) :=
  h es hit rest (by rw [hes])

theorem Aligned.headIsWord_reverse :
    headIsWord (result es).reverse = headIsWord (source es).reverse := by
  rcases es.eq_nil_or_concat' with rfl | ⟨init, e, rfl⟩
  · rfl
  · cases e with
    | keep c => simp [headIsWord]
    | put hit =>
        obtain ⟨hopens, hcloses⟩ := h.last rfl
        have htext : hit.text.reverse ≠ [] := by simpa using hopens.text_ne_nil
        have htaken : hit.taken.reverse ≠ [] := by simpa using hopens.taken_ne_nil
        rw [result_append, source_append, result_put, source_put, result_nil, source_nil,
          List.append_nil, List.append_nil, List.reverse_append, List.reverse_append,
          headIsWord_append htext, headIsWord_append htaken]
        cases hcloses with
        | word htaken htext _ => rw [htaken, htext]
        | paren a b htaken htext => simp [htaken, htext, headIsWord]

theorem Aligned.last_cases :
    es = [] ∨ (∃ init c, es = init ++ [.keep c]) ∨
      (∃ c s, (result es).reverse = c :: s ∧ c ≠ '.' ∧ c ≠ ':') ∧
        ∃ c s, (source es).reverse = c :: s ∧ c ≠ '.' ∧ c ≠ ':' := by
  have hword : ∀ {s t : List Char}, headIsWord s = true →
      ∃ c u, s ++ t = c :: u ∧ c ≠ '.' ∧ c ≠ ':' := by
    intro s t hs
    rcases s with _ | ⟨c, s⟩
    · simp [headIsWord] at hs
    · refine ⟨c, s ++ t, rfl, ?_, ?_⟩
      · rintro rfl
        exact absurd (show isWord '.' = true from hs) (by decide)
      · rintro rfl
        exact absurd (show isWord ':' = true from hs) (by decide)
  rcases es.eq_nil_or_concat' with rfl | ⟨init, e, rfl⟩
  · exact .inl rfl
  · cases e with
    | keep c => exact .inr (.inl ⟨init, c, rfl⟩)
    | put hit =>
        refine .inr (.inr ?_)
        simp only [result_append, source_append, result_put, source_put, result_nil, source_nil,
          List.append_nil, List.reverse_append]
        cases (h.last rfl).2 with
        | word htaken htext _ => exact ⟨hword htext, hword htaken⟩
        | paren a b htaken htext =>
            rw [htaken, htext, List.reverse_concat, List.reverse_concat]
            exact ⟨⟨'(', _, rfl, by decide, by decide⟩, '(', _, rfl, by decide, by decide⟩

theorem Aligned.head?_eq_dot_iff :
    (result es).reverse.head? = some '.' ↔ (source es).reverse.head? = some '.' := by
  rcases h.last_cases with rfl | ⟨init, c, rfl⟩ | ⟨⟨c, s, hs, hc, -⟩, d, t, ht, hd, -⟩
  · rfl
  · simp
  · simp [hs, ht, hc, hd]

theorem Aligned.inMemberPosition_eq :
    inMemberPosition (result es).reverse = inMemberPosition (source es).reverse := by
  rw [Bool.eq_iff_iff]
  rcases h.last_cases with rfl | ⟨init, c, rfl⟩ | ⟨⟨c, s, hs, hc⟩, d, t, ht, hd⟩
  · rfl
  · have halign : Aligned (init ++ .keep c :: es') := by simpa using h
    simp only [result_append, source_append, result_keep, source_keep, result_nil, source_nil,
      List.reverse_concat, inMemberPosition_cons, halign.head?_eq_dot_iff, ne_eq]
  · simp [hs, ht, inMemberPosition_cons, hc, hd]

theorem Aligned.keep_last {p : List Char} {c : Char} (hresult : result es = p ++ [c])
    (hc : isWord c = false) (hparen : c ≠ '(') :
    ∃ init, es = init ++ [.keep c] ∧ result init = p := by
  rcases es.eq_nil_or_concat' with rfl | ⟨init, e, rfl⟩
  · simp at hresult
  · cases e with
    | keep d =>
        obtain ⟨hinit, rfl⟩ : result init = p ∧ d = c := by simpa using hresult
        exact ⟨init, rfl, hinit⟩
    | put hit =>
        exfalso
        have hlast := congrArg List.getLast? hresult
        rw [result_append, result_put, result_nil, List.append_nil,
          List.getLast?_append_of_ne_nil _ (h.last rfl).1.text_ne_nil,
          List.getLast?_concat] at hlast
        obtain ⟨t, htext⟩ := List.getLast?_eq_some_iff.mp hlast
        cases (h.last rfl).2 with
        | word _ hword _ => simp [htext, headIsWord, hc] at hword
        | paren a b _ hb =>
            rw [htext] at hb
            exact hparen (List.singleton_inj.mp (List.append_inj' hb rfl).2)

theorem Aligned.keep_head {c : Char} {r : List Char} (hresult : result es' = c :: r)
    (hc : isWord c = false) (hfirst : c ∉ ['#', ':', '.']) :
    ∃ rest, es' = .keep c :: rest ∧ result rest = r := by
  rcases es' with _ | ⟨e, rest⟩
  · simp at hresult
  · cases e with
    | keep d =>
        obtain ⟨rfl, hrest⟩ := List.cons.inj hresult
        exact ⟨rest, rfl, hrest⟩
    | put hit =>
        exfalso
        obtain ⟨d, t, htext⟩ := List.exists_cons_of_ne_nil (h.head rfl).1.text_ne_nil
        obtain rfl : d = c := by
          rw [result_put, htext] at hresult
          exact (List.cons.inj hresult).1
        cases (h.head rfl).1 with
        | word _ _ hstart =>
            rcases hstart with hword | hhash
            · simp [htext, headIsWord, hc] at hword
            · simp [htext] at hhash
              simp [hhash] at hfirst
        | colon a b _ hb =>
            rw [htext] at hb
            simp [(List.cons.inj hb).1] at hfirst
        | dot a b _ _ _ hb =>
            rw [htext] at hb
            simp [(List.cons.inj hb).1] at hfirst

theorem Aligned.headIsWord_source (hword : headIsWord (result es') = true) :
    headIsWord (source es') = true := by
  rcases es' with _ | ⟨e, rest⟩
  · simp [headIsWord] at hword
  · cases e with
    | keep c => exact hword
    | put hit =>
        have hopens := (h.head rfl).1
        rw [source_put, headIsWord_append hopens.taken_ne_nil]
        rw [result_put, headIsWord_append hopens.text_ne_nil] at hword
        cases hopens with
        | word _ htaken _ => exact htaken
        | colon a b _ htext =>
            rw [htext] at hword
            exact absurd (show isWord ':' = true from hword) (by decide)
        | dot a b _ _ _ htext =>
            rw [htext] at hword
            exact absurd (show isWord '.' = true from hword) (by decide)

theorem Aligned.headIsWord_source_of_word (hleft : headIsWord (source es).reverse = true)
    (hright : headIsWord (result es') = false) : headIsWord (source es') = false := by
  rcases es' with _ | ⟨e, rest⟩
  · rfl
  · cases e with
    | keep c => exact hright
    | put hit =>
        have hopens := (h.head rfl).1
        rw [source_put, headIsWord_append hopens.taken_ne_nil]
        cases hopens with
        | word hbefore _ _ =>
            rw [hleft] at hbefore
            exact absurd hbefore (by decide)
        | colon a b htaken _ =>
            rw [htaken]
            rfl
        | dot a b _ _ htaken _ =>
            rw [htaken]
            rfl

omit h in
theorem Aligned.word_text {hit : Hit} {rest : List Edit} {a b w r : List Char}
    (h : Aligned (es ++ .put hit :: rest)) (htext : hit.text = a ++ b) (hb : b ≠ [])
    (hw : WordRun w) (hresult : b ++ result rest = w ++ r) : w <+: b := by
  rcases List.append_eq_append_iff.mp hresult with ⟨more, hmore, hrest⟩ | ⟨more, hmore, -⟩
  · rcases more with _ | ⟨d, more⟩
    · exact ⟨[], by simpa using hmore⟩
    · -- otherwise the word would run on behind it
      exfalso
      have hwords : ∀ x ∈ b ++ d :: more, isWord x = true := hmore ▸ hw.2
      have halign : Aligned ((es ++ [.put hit]) ++ rest) := by simpa using h
      have hword : headIsWord (source rest) = true :=
        halign.headIsWord_source (by rw [hrest]; exact hwords d (by simp))
      cases (h.head rfl).2 with
      | word _ _ hright =>
          rw [hword] at hright
          exact absurd hright (by decide)
      | paren a' b' _ hparen =>
          rw [htext] at hparen
          have hlast := congrArg List.getLast? hparen
          rw [List.getLast?_append_of_ne_nil _ hb, List.getLast?_concat] at hlast
          have hmem := List.mem_of_getLast? hlast
          exact absurd (hwords '(' (by simp [hmem])) (by decide)
  · exact ⟨more, hmore.symm⟩

theorem Aligned.word_head {w r : List Char} (hw : WordRun w) (hresult : result es' = w ++ r) :
    (∃ rest, es' = kept w ++ rest ∧ result rest = r) ∨
      ∃ hit rest, es' = .put hit :: rest ∧ w <+: hit.text := by
  induction w generalizing es es' with
  | nil => exact absurd rfl hw.1
  | cons c w ih =>
      have hc : isWord c = true := hw.2 c (by simp)
      rcases es' with _ | ⟨e, rest⟩
      · simp at hresult
      · cases e with
        | keep d =>
            obtain ⟨rfl, hrest⟩ := List.cons.inj hresult
            by_cases hnil : w = []
            · subst hnil
              exact .inl ⟨rest, rfl, hrest⟩
            · have hw' : WordRun w := ⟨hnil, fun d hd => hw.2 d (by simp [hd])⟩
              have halign : Aligned ((es ++ [.keep d]) ++ rest) := by simpa using h
              rcases ih halign hw' hrest with ⟨tail, rfl, htail⟩ | ⟨hit, rest, rfl, t, htext⟩
              · exact .inl ⟨tail, rfl, htail⟩
              · -- nothing is put in behind a letter that starts with another one
                exfalso
                have hhead := hw'.headIsWord_append t
                rw [htext] at hhead
                cases (halign.head rfl).1 with
                | word hleft _ _ => simp [headIsWord, hc] at hleft
                | colon a b _ hb =>
                    rw [hb] at hhead
                    exact absurd (show isWord ':' = true from hhead) (by decide)
                | dot a b _ _ _ hb =>
                    rw [hb] at hhead
                    exact absurd (show isWord '.' = true from hhead) (by decide)
        | put hit =>
            exact .inr ⟨hit, rest, rfl, h.word_text (List.nil_append _).symm
              (h.head rfl).1.text_ne_nil hw hresult⟩

theorem Aligned.keep_blanks_last {p blanks : List Char} (hblanks : Blank blanks)
    (hresult : result es = p ++ blanks) : ∃ init, es = init ++ kept blanks ∧ result init = p := by
  induction blanks using List.reverseRecOn generalizing es es' with
  | nil => exact ⟨es, by simp, by simpa using hresult⟩
  | append_singleton blanks c ih =>
      have hc : isBlank c = true := hblanks c (by simp)
      have hparen : c ≠ '(' := by
        rintro rfl
        exact absurd hc (by decide)
      rw [← List.append_assoc] at hresult
      obtain ⟨init, rfl, hinit⟩ := h.keep_last hresult (isWord_of_isBlank hc) hparen
      have halign : Aligned (init ++ .keep c :: es') := by simpa using h
      obtain ⟨start, rfl, hstart⟩ := ih halign (fun d hd => hblanks d (by simp [hd])) hinit
      exact ⟨start, by simp, hstart⟩

theorem Aligned.keep_heads {s r : List Char}
    (hs : ∀ c ∈ s, isWord c = false ∧ c ∉ ['#', ':', '.']) (hresult : result es' = s ++ r) :
    ∃ rest, es' = kept s ++ rest ∧ result rest = r := by
  induction s generalizing es es' with
  | nil => exact ⟨es', rfl, hresult⟩
  | cons c s ih =>
      obtain ⟨hc, hfirst⟩ := hs c (by simp)
      obtain ⟨rest, rfl, hrest⟩ := h.keep_head hresult hc hfirst
      have halign : Aligned ((es ++ [.keep c]) ++ rest) := by simpa using h
      obtain ⟨tail, rfl, htail⟩ := ih halign (fun d hd => hs d (by simp [hd])) hrest
      exact ⟨tail, rfl, htail⟩

theorem Aligned.keep_blanks_head {gap r : List Char} (hgap : Blank gap)
    (hresult : result es' = gap ++ r) : ∃ rest, es' = kept gap ++ rest ∧ result rest = r := by
  refine h.keep_heads (fun c hc => ?_) hresult
  have hblank := hgap c hc
  refine ⟨isWord_of_isBlank hblank, ?_⟩
  simp only [List.mem_cons, List.not_mem_nil, or_false]
  rintro (rfl | rfl | rfl) <;> exact absurd hblank (by decide)

theorem Aligned.keep_opening {gap r : List Char} (hgap : Blank gap)
    (hresult : result es' = gap ++ '(' :: r) :
    ∃ rest, es' = kept gap ++ .keep '(' :: rest ∧ result rest = r := by
  obtain ⟨rest, rfl, hrest⟩ := h.keep_blanks_head hgap hresult
  have halign : Aligned ((es ++ kept gap) ++ rest) := by simpa using h
  obtain ⟨tail, rfl, htail⟩ := halign.keep_head hrest (by decide) (by decide)
  exact ⟨tail, rfl, htail⟩

end Alignment

theorem exists_split {es : List Edit} {p q : List Char} (h : result es = p ++ q) :
    (∃ left right, es = left ++ right ∧ result left = p ∧ result right = q) ∨
      ∃ left hit right a b, es = left ++ .put hit :: right ∧ hit.text = a ++ b ∧ b ≠ [] ∧
        p = result left ++ a ∧ q = b ++ result right := by
  induction es generalizing p with
  | nil =>
      obtain ⟨rfl, rfl⟩ := List.append_eq_nil_iff.mp h.symm
      exact .inl ⟨[], [], rfl, rfl, rfl⟩
  | cons e es ih =>
      have hsplit : e.text ++ result es = p ++ q := h
      rcases List.append_eq_append_iff.mp hsplit with ⟨p, rfl, hrest⟩ | ⟨b, htext, rfl⟩
      · rcases ih hrest with
          ⟨left, right, rfl, rfl, rfl⟩ | ⟨left, hit, right, a, b, rfl, htext, hb, rfl, rfl⟩
        · exact .inl ⟨e :: left, right, rfl, rfl, rfl⟩
        · refine .inr ⟨e :: left, hit, right, a, b, rfl, htext, hb, ?_, rfl⟩
          rw [← List.append_assoc]
          rfl
      · cases e with
        | put hit =>
            by_cases hb : b = []
            · exact .inl ⟨[.put hit], es, rfl, by simpa [hb, Edit.text] using htext, by simp [hb]⟩
            · exact .inr ⟨[], hit, es, p, b, rfl, htext, hb, rfl, rfl⟩
        | keep c =>
            rcases p with _ | ⟨d, p⟩
            · exact .inl ⟨[], .keep c :: es, rfl, rfl, hsplit⟩
            · obtain ⟨rfl, hnil⟩ := List.cons.inj htext
              obtain ⟨rfl, rfl⟩ := List.append_eq_nil_iff.mp hnil.symm
              exact .inl ⟨[.keep c], es, rfl, rfl, rfl⟩

theorem Aligned.of_append {es es' : List Edit} (h : Aligned (es ++ es')) : Aligned es := by
  intro left hit right hes
  obtain ⟨hopens, hcloses⟩ := h left hit (right ++ es') (by simp [hes])
  refine ⟨hopens, ?_⟩
  cases hcloses with
  | word htaken htext hright =>
      rw [source_append] at hright
      exact .word htaken htext (headIsWord_of_append hright)
  | paren a b htaken htext => exact .paren a b htaken htext

theorem Aligned.eq_nil {es es' : List Edit} (h : Aligned (es ++ es')) (hresult : result es' = []) :
    es' = [] := by
  rcases es' with _ | ⟨e, es'⟩
  · rfl
  · cases e with
    | keep c => simp at hresult
    | put hit =>
        have htext : hit.text = [] := (List.append_eq_nil_iff.mp hresult).1
        exact absurd htext (h.head rfl).1.text_ne_nil

/-- A word of the new text has kept its letters and was a word before, or it is a word of something
put in. -/
theorem Aligned.run_cases {es : List Edit} (h : Aligned es) {p w r : List Char}
    (hresult : result es = p ++ (w ++ r)) (hstands : Stands p.reverse w r) :
    (∃ left right, es = left ++ (kept w ++ right) ∧ result left = p ∧ result right = r ∧
        Stands (source left).reverse w (source right)) ∨
      ∃ left hit right a b, es = left ++ .put hit :: right ∧ hit.text = a ++ (w ++ b) ∧
        Stands a.reverse w b ∧ p = result left ++ a ∧ r = b ++ result right := by
  have hw := hstands.wordRun
  rcases exists_split hresult with
    ⟨left, right, rfl, rfl, hright⟩ | ⟨left, hit, right, a, b, rfl, htext, hb, rfl, hrest⟩
  · rcases h.word_head hw hright with ⟨rest, rfl, hrest⟩ | ⟨hit, rest, rfl, b, htext⟩
    · refine .inl ⟨left, rest, rfl, rfl, hrest, hw, ?_, ?_⟩
      · rw [← h.headIsWord_reverse]
        exact hstands.left
      · have halign : Aligned ((left ++ kept w) ++ rest) := by simpa using h
        refine halign.headIsWord_source_of_word ?_ (by rw [hrest]; exact hstands.right)
        rw [source_append, source_kept, List.reverse_append]
        exact hw.reverse.headIsWord_append _
    · have hsplit : r = b ++ result rest := by
        rw [result_put, ← htext, List.append_assoc] at hright
        exact (List.append_cancel_left hright).symm
      refine .inr ⟨left, hit, rest, [], b, rfl, htext.symm, ⟨hw, rfl, ?_⟩, by simp, hsplit⟩
      exact headIsWord_of_append (hsplit ▸ hstands.right)
  · have ha : headIsWord a.reverse = false := by
      have hleft := hstands.left
      rw [List.reverse_append] at hleft
      exact headIsWord_of_append hleft
    obtain ⟨b, rfl⟩ := h.word_text htext hb hw hrest.symm
    have hsplit : r = b ++ result right := by
      rw [List.append_assoc] at hrest
      exact List.append_cancel_left hrest
    exact .inr ⟨left, hit, right, a, b, rfl, htext,
      ⟨hw, ha, headIsWord_of_append (hsplit ▸ hstands.right)⟩, rfl, hsplit⟩

end SpanishLua.Proofs.Edits
