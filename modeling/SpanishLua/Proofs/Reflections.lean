import SpanishLua.Proofs.Bounds
import SpanishLua.Proofs.Puts

/-!
Where a recogniser could change something in a text after edits that fit, it could have done so
before them. So what one recogniser has nothing to change in, another does not give it anew.
-/

namespace SpanishLua.Proofs.Reflections

open SpanishLua.Code
open SpanishLua.Text
open SpanishLua.Proofs.Characters
open SpanishLua.Proofs.Scanning
open SpanishLua.Proofs.Recognisers
open SpanishLua.Proofs.Tables
open SpanishLua.Proofs.Defaults
open SpanishLua.Proofs.Bounds
open SpanishLua.Proofs.Places
open SpanishLua.Proofs.Words
open SpanishLua.Proofs.Edits
open SpanishLua.Proofs.Puts

/-- Whatever the edits put in fits. -/
def Fits (es : List Edit) : Prop :=
  ∀ left hit right, es = left ++ .put hit :: right →
    Fit (source left).reverse hit (source right)

/-- A claim of `find` on the new text that changes something stands in characters that stayed, and
could have been made there before. -/
def Reflects (find : Recogniser) (es : List Edit) : Prop :=
  ∀ p q hit, result es = p ++ q → find p.reverse q = some hit → hit.text ≠ hit.taken →
    ∃ left s right hit', s ≠ [] ∧ es = left ++ (kept s ++ right) ∧
      find (source left).reverse (s ++ source right) = some hit' ∧ hit'.text ≠ hit'.taken

theorem fits_of_script {find : Recogniser} (hfitting : Fitting find) {es : List Edit}
    (hscript : Script find [] es) : Fits es := by
  intro left hit right hes
  obtain ⟨hclaim, hchanged⟩ := hscript.put left hit right hes
  rw [List.append_nil] at hclaim
  exact hfitting _ _ _ hclaim hchanged

theorem Fits.aligned {es : List Edit} (h : Fits es) : Aligned es :=
  fun left hit right hes => ⟨(h left hit right hes).opens, (h left hit right hes).closes⟩

theorem Fits.run_kept {es : List Edit} (h : Fits es) {p w r : List Char}
    (hresult : result es = p ++ (w ++ r)) (hstands : Stands p.reverse w r) (hw : Dialect w) :
    ∃ left right, es = left ++ (kept w ++ right) ∧ result left = p ∧ result right = r ∧
      Stands (source left).reverse w (source right) := by
  rcases h.aligned.run_cases hresult hstands with
    hkept | ⟨left, hit, right, a, b, hes, htext, hinside, -⟩
  · exact hkept
  · exact absurd hw ((h left hit right hes).foreign w ⟨a, b, htext, hinside⟩)

theorem Fits.hasRun_source {es : List Edit} (h : Fits es) {w : List Char} (hw : Dialect w)
    (hrun : HasRun (result es) w) : HasRun (source es) w := by
  obtain ⟨p, r, hresult, hstands⟩ := hrun
  obtain ⟨left, right, rfl, -, -, hsource⟩ := h.run_kept hresult hstands hw
  exact ⟨source left, source right, by simp, hsource⟩

section Recognisers

variable {es : List Edit} (h : Fits es)

include h

theorem lookup_reflects : Reflects Service.lookup es := by
  intro p q hit hresult hclaim hchanged
  obtain ⟨r, rfl, hstands, -⟩ := lookup_eq_some_iff.mp hclaim
  obtain ⟨left, right, rfl, -, -, hsource⟩ := h.run_kept hresult hstands (.accessor rfl)
  refine ⟨left, _, right, _, hsource.wordRun.1, rfl,
    lookup_eq_some_iff.mpr ⟨source right, rfl, hsource, rfl⟩, ?_⟩
  dsimp only
  split <;> decide

theorem method_reflects : Reflects (Call.method (vocabulary .methodName)) es := by
  intro p q hit hresult hclaim hchanged
  have hruns := wordRun_of_mem_vocabulary (by decide : Category.methodName ≠ .enumMember)
  obtain ⟨blanks, hblanks, word, hword, gap, hgap, r, rfl, htaken, htext⟩ :=
    (method_eq_some_iff hruns).mp hclaim
  have hregroup : result es = ((p ++ [':']) ++ blanks) ++ (word ++ (gap ++ '(' :: r)) := by
    simp [hresult]
  have hleft : headIsWord (((p ++ [':']) ++ blanks).reverse) = false := by
    rw [List.reverse_append, List.reverse_concat]
    exact headIsWord_of_gap (fun c hc => hblanks c (List.mem_reverse.mp hc)) (by decide)
  obtain ⟨left, right, rfl, hinit, hright, -⟩ :=
    h.run_kept hregroup ⟨hruns word hword, hleft, headIsWord_gap hgap r⟩ (dialect_of_method hword)
  have hbehind : Aligned ((left ++ kept word) ++ right) := by simpa using h.aligned
  obtain ⟨rest, rfl, -⟩ := hbehind.keep_opening hgap hright
  obtain ⟨init, rfl, hcolon⟩ := h.aligned.keep_blanks_last hblanks hinit
  have hbefore :
      Aligned (init ++ (kept blanks ++ (kept word ++ (kept gap ++ .keep '(' :: rest)))) := by
    simpa using h.aligned
  obtain ⟨start, rfl, -⟩ := hbefore.keep_last hcolon (by decide) (by decide)
  refine ⟨start, ':' :: (blanks ++ (word ++ (gap ++ ['(']))), rest, hit, by simp, by simp, ?_,
    hchanged⟩
  exact (method_eq_some_iff hruns).mpr
    ⟨blanks, hblanks, word, hword, gap, hgap, source rest, by simp, htaken, htext⟩

theorem instanceFactory_reflects : Reflects Call.instanceFactory es := by
  intro p q hit hresult hclaim hchanged
  obtain ⟨gap, hgap, r, rfl, hleft, rfl⟩ := instanceFactory_eq_some_iff.mp hclaim
  obtain ⟨left, right, rfl, -, hright, hsource⟩ := h.run_kept hresult
    ⟨wordRun_instanceFactory, hleft, headIsWord_gap hgap r⟩ (.factory rfl)
  have hbehind : Aligned ((left ++ kept "instancia_nueva".toList) ++ right) := by
    simpa using h.aligned
  obtain ⟨rest, rfl, -⟩ := hbehind.keep_opening hgap hright
  refine ⟨left, "instancia_nueva".toList ++ (gap ++ ['(']), rest, _, by simp, by simp, ?_, hchanged⟩
  exact instanceFactory_eq_some_iff.mpr ⟨gap, hgap, source rest, by simp, hsource.left, rfl⟩

theorem property_reflects : Reflects (Member.property (vocabulary .propertyName)) es := by
  intro p q hit hresult hclaim hchanged
  have hruns := wordRun_of_mem_vocabulary (by decide : Category.propertyName ≠ .enumMember)
  obtain ⟨word, hword, r, rfl, hright, rfl⟩ := (property_eq_some_iff hruns).mp hclaim
  have hregroup : result es = (p ++ ['.']) ++ (word ++ r) := by simp [hresult]
  have hdialect : Dialect word := by
    apply dialect_of_changed (by decide : Category.propertyName ∈ lexical) hword
    intro hsame
    simp [hsame] at hchanged
  obtain ⟨left, right, rfl, hleft, -, hsource⟩ := h.run_kept hregroup
    ⟨hruns word hword, by rw [List.reverse_concat]; rfl, hright⟩ hdialect
  obtain ⟨start, rfl, rfl⟩ := h.aligned.keep_last hleft (by decide) (by decide)
  have hbefore : Aligned (start ++ (.keep '.' :: (kept word ++ right))) := by
    simpa using h.aligned
  refine ⟨start, '.' :: word, right, _, by simp, by simp, ?_, hchanged⟩
  refine (property_eq_some_iff hruns).mpr
    ⟨word, hword, source right, by simp, hsource.right, ?_⟩
  simp only [hbefore.head?_eq_dot_iff]

theorem constant_reflects {category : Category} (hcategory : category ∈ lexical) :
    Reflects (Enumeration.constant (vocabulary category)) es := by
  intro p q hit hresult hclaim hchanged
  have hruns := wordRun_of_mem_vocabulary (ne_enumMember hcategory)
  obtain ⟨word, hword, r, rfl, hstands, rfl⟩ := (constant_eq_some_iff hruns).mp hclaim
  have hdialect : Dialect word := by
    apply dialect_of_changed hcategory hword
    intro hsame
    simp [hsame] at hchanged
  obtain ⟨left, right, rfl, rfl, -, hsource⟩ := h.run_kept hresult hstands hdialect
  refine ⟨left, word, right, _, hstands.wordRun.1, rfl, ?_, hchanged⟩
  refine (constant_eq_some_iff hruns).mpr ⟨word, hword, source right, rfl, hsource, ?_⟩
  rw [h.aligned.inMemberPosition_eq]

theorem globalFunction_reflects :
    Reflects (Keyword.globalFunction (vocabulary .globalFunction)) es := by
  intro p q hit hresult hclaim hchanged
  have hruns := wordRun_of_mem_vocabulary (by decide : Category.globalFunction ≠ .enumMember)
  obtain ⟨word, hword, gap, hgap, r, rfl, hleft, rfl⟩ :=
    (globalFunction_eq_some_iff hruns).mp hclaim
  have hdialect : Dialect word := by
    apply dialect_of_changed (by decide : Category.globalFunction ∈ lexical) hword
    intro hsame
    simp [hsame] at hchanged
  obtain ⟨left, right, rfl, rfl, hright, hsource⟩ := h.run_kept hresult
    ⟨hruns word hword, hleft, headIsWord_gap hgap r⟩ hdialect
  have hbehind : Aligned ((left ++ kept word) ++ right) := by simpa using h.aligned
  obtain ⟨rest, rfl, -⟩ := hbehind.keep_opening hgap hright
  refine ⟨left, word ++ (gap ++ ['(']), rest, _, by simp, by simp, ?_, hchanged⟩
  refine (globalFunction_eq_some_iff hruns).mpr
    ⟨word, hword, gap, hgap, source rest, by simp, hsource.left, ?_⟩
  rw [h.aligned.inMemberPosition_eq]

theorem mathFunction_reflects : Reflects (Member.mathFunction (vocabulary .mathFunction)) es := by
  intro p q hit hresult hclaim hchanged
  have hruns := wordRun_of_mem_vocabulary (by decide : Category.mathFunction ≠ .enumMember)
  obtain ⟨word, hword, r, rfl, hleft, hright, rfl⟩ := (mathFunction_eq_some_iff hruns).mp hclaim
  have hregroup : result es = ((p ++ "math".toList) ++ ['.']) ++ (word ++ r) := by
    simp [hresult, Member.mathLibrary]
  have hdialect : Dialect word := by
    apply dialect_of_changed (by decide : Category.mathFunction ∈ lexical) hword
    intro hsame
    simp [hsame] at hchanged
  obtain ⟨left, right, rfl, hdot, -, hsource⟩ := h.run_kept hregroup
    ⟨hruns word hword, by rw [List.reverse_concat]; rfl, hright⟩ hdialect
  obtain ⟨start, rfl, hstart⟩ := h.aligned.keep_last hdot (by decide) (by decide)
  have hbefore : Aligned start := by
    have halign : Aligned (start ++ (.keep '.' :: (kept word ++ right))) := by simpa using h.aligned
    exact halign.of_append
  -- the name of the library ends the text before the dot, and nothing that is put in ends so
  rcases hbefore.run_cases (by rw [hstart, List.append_nil]) ⟨by decide, hleft, rfl⟩ with
    ⟨left, more, rfl, -, hmore, hmath⟩ | ⟨left, hit, more, a, b, rfl, htext, -, -, hnil⟩
  · obtain rfl : more = [] := by
      have halign : Aligned ((left ++ kept "math".toList) ++ more) := by simpa using hbefore
      exact halign.eq_nil hmore
    refine ⟨left, Member.mathLibrary ++ word, right, _, by simp [Member.mathLibrary],
      by simp [Member.mathLibrary], ?_, hchanged⟩
    exact (mathFunction_eq_some_iff hruns).mpr
      ⟨word, hword, source right, by simp, hmath.left, hsource.right, rfl⟩
  · exfalso
    obtain ⟨rfl, -⟩ := List.append_eq_nil_iff.mp hnil.symm
    have hfit := h left hit (more ++ (.keep '.' :: (kept word ++ right))) (by simp)
    exact hfit.library ⟨a, by simp [htext]⟩

theorem elseIf_reflects : Reflects Keyword.elseIf es := by
  intro p q hit hresult hclaim hchanged
  obtain ⟨gap, hne, hgap, r, rfl, hleft, hright, rfl⟩ := elseIf_eq_some_iff.mp hclaim
  have hblank := hgap.headIsWord_append hne ("si".toList ++ r)
  obtain ⟨left, right, rfl, -, hrest, hsource⟩ :=
    h.run_kept hresult ⟨by decide, hleft, hblank⟩ dialect_sino
  have hbehind : Aligned ((left ++ kept "sino".toList) ++ right) := by simpa using h.aligned
  obtain ⟨rest, rfl, hsi⟩ := hbehind.keep_blanks_head hgap hrest
  have hword : Aligned ((left ++ kept "sino".toList ++ kept gap) ++ rest) := by
    simpa using h.aligned
  rcases hword.word_head (by decide) hsi with ⟨tail, rfl, htail⟩ | ⟨hit, tail, rfl, b, htext⟩
  · have hend : headIsWord (source tail) = false := by
      have halign :
          Aligned ((left ++ kept "sino".toList ++ kept gap ++ kept "si".toList) ++ tail) := by
        simpa using h.aligned
      refine halign.headIsWord_source_of_word ?_ (by rw [htail]; exact hright)
      simp only [source_append, source_kept, List.reverse_append]
      rfl
    refine ⟨left, "sino".toList ++ gap ++ "si".toList, tail, _, by simp, by simp, ?_, hchanged⟩
    exact elseIf_eq_some_iff.mpr
      ⟨gap, hne, hgap, source tail, by simp, hsource.left, hend, rfl⟩
  · exfalso
    have hb : headIsWord b = false := by
      rw [result_put, ← htext, List.append_assoc] at hsi
      rw [← List.append_cancel_left hsi] at hright
      exact headIsWord_of_append hright
    have hfit := h (left ++ kept "sino".toList ++ kept gap) hit tail (by simp)
    exact hfit.foreign "si".toList ⟨[], b, htext.symm, by decide, rfl, hb⟩ dialect_si

end Recognisers

/-- No claim on the text that changes something lies inside an earlier claim. -/
def Exposed (find : Recogniser) (s : List Char) : Prop :=
  ∀ pre after hit, s = pre ++ after → find pre.reverse after = some hit →
    hit.text ≠ hit.taken → ¬ Hidden find [] pre after

section Exposure

variable {s : List Char}

theorem eq_nil_of_prefix_word {run inner : List Char} (hrun : ∀ c ∈ run, isWord c = true)
    (hinside : inner <+: run) (hinner : headIsWord inner.reverse = false) : inner = [] := by
  by_contra hne
  have hword : WordRun inner := ⟨hne, fun c hc => hrun c (hinside.subset hc)⟩
  rw [hword.reverse.head] at hinner
  exact absurd hinner (by decide)

theorem headIsWord_inner {left inner : List Char} (hne : inner ≠ [])
    (h : headIsWord (left ++ inner).reverse = false) : headIsWord inner.reverse = false := by
  rwa [List.reverse_append, headIsWord_append (by simpa using hne)] at h

theorem lookup_exposed : Exposed Service.lookup s := by
  rintro pre after hit rfl hclaim - ⟨left, inner, hit', rfl, hne, hclaim', hlength⟩
  obtain ⟨rest, rfl, hstands, rfl⟩ := lookup_eq_some_iff.mp hclaim
  obtain ⟨rest', hafter, hstands', rfl⟩ := lookup_eq_some_iff.mp hclaim'
  have hprefix : inner <+: Service.accessor :=
    List.prefix_of_prefix_length_le ⟨_, hafter⟩ (List.prefix_append _ _) (Nat.le_of_lt hlength)
  exact hne (eq_nil_of_prefix_word wordRun_accessor.2 hprefix (headIsWord_inner hne hstands.left))

theorem constant_exposed {v : Vocabulary} (hv : ∀ w ∈ v.words, WordRun w) :
    Exposed (Enumeration.constant v) s := by
  rintro pre after hit rfl hclaim - ⟨left, inner, hit', rfl, hne, hclaim', hlength⟩
  obtain ⟨word, hword, rest, rfl, hstands, rfl⟩ := (constant_eq_some_iff hv).mp hclaim
  obtain ⟨word', hword', rest', hafter, hstands', rfl⟩ := (constant_eq_some_iff hv).mp hclaim'
  have hprefix : inner <+: word' :=
    List.prefix_of_prefix_length_le ⟨_, hafter⟩ (List.prefix_append _ _) (Nat.le_of_lt hlength)
  exact hne (eq_nil_of_prefix_word (hv word' hword').2 hprefix (headIsWord_inner hne hstands.left))

theorem globalFunction_exposed {v : Vocabulary} (hv : ∀ w ∈ v.words, WordRun w) :
    Exposed (Keyword.globalFunction v) s := by
  rintro pre after hit rfl hclaim - ⟨left, inner, hit', rfl, hne, hclaim', hlength⟩
  obtain ⟨word, hword, gap, hgap, rest, rfl, hleft, rfl⟩ :=
    (globalFunction_eq_some_iff hv).mp hclaim
  obtain ⟨word', hword', gap', hgap', rest', hafter, hleft', rfl⟩ :=
    (globalFunction_eq_some_iff hv).mp hclaim'
  refine hne (eq_nil_of_word_inside (hv word' hword') hgap' hafter.symm
    ((hv word hword).headIsWord_append _) (headIsWord_inner hne hleft) ?_)
  simpa using hlength

theorem instanceFactory_exposed : Exposed Call.instanceFactory s := by
  rintro pre after hit rfl hclaim - ⟨left, inner, hit', rfl, hne, hclaim', hlength⟩
  obtain ⟨gap, hgap, rest, rfl, hleft, rfl⟩ := instanceFactory_eq_some_iff.mp hclaim
  obtain ⟨gap', hgap', rest', hafter, hleft', rfl⟩ := instanceFactory_eq_some_iff.mp hclaim'
  refine hne (eq_nil_of_word_inside wordRun_instanceFactory hgap' hafter.symm
    (wordRun_instanceFactory.headIsWord_append _) (headIsWord_inner hne hleft) ?_)
  simpa only [List.length_append, List.length_singleton] using hlength

theorem mem_of_inside {c d : Char} {inner after rest tail : List Char} (hne : inner ≠ [])
    (hsplit : inner ++ c :: after = (d :: tail) ++ rest)
    (hlength : inner.length < (d :: tail).length) : c ∈ tail := by
  obtain ⟨e, inner, rfl⟩ := List.exists_cons_of_ne_nil hne
  obtain ⟨-, hsplit⟩ := List.cons.inj hsplit
  have hprefix : inner ++ [c] <+: tail := by
    refine List.prefix_of_prefix_length_le ⟨after, ?_⟩ (List.prefix_append tail rest) ?_
    · simpa using hsplit
    · simp only [List.length_append, List.length_cons, List.length_nil] at hlength ⊢
      omega
  exact hprefix.subset (by simp)

theorem method_exposed {v : Vocabulary} (hv : ∀ w ∈ v.words, WordRun w) :
    Exposed (Call.method v) s := by
  rintro pre after hit rfl hclaim - ⟨left, inner, hit', rfl, hne, hclaim', hlength⟩
  obtain ⟨blanks, hblanks, word, hword, gap, hgap, rest, rfl, -⟩ :=
    (method_eq_some_iff hv).mp hclaim
  obtain ⟨blanks', hblanks', word', hword', gap', hgap', rest', hafter, htaken, -⟩ :=
    (method_eq_some_iff hv).mp hclaim'
  rw [htaken] at hlength
  have hmem : ':' ∈ blanks' ++ (word' ++ (gap' ++ ['('])) :=
    mem_of_inside hne (by simpa using hafter) hlength
  simp only [List.mem_append, List.mem_singleton] at hmem
  rcases hmem with hmem | hmem | hmem | hmem
  · exact absurd (hblanks' _ hmem) (by decide)
  · exact absurd ((hv word' hword').2 _ hmem) (by decide)
  · exact absurd (hgap' _ hmem) (by decide)
  · exact absurd hmem (by decide)

theorem property_exposed {v : Vocabulary} (hv : ∀ w ∈ v.words, WordRun w) :
    Exposed (Member.property v) s := by
  rintro pre after hit rfl hclaim - ⟨left, inner, hit', rfl, hne, hclaim', hlength⟩
  obtain ⟨word, hword, rest, rfl, -, -⟩ := (property_eq_some_iff hv).mp hclaim
  obtain ⟨word', hword', rest', hafter, -, rfl⟩ := (property_eq_some_iff hv).mp hclaim'
  have hmem : '.' ∈ word' := mem_of_inside hne hafter hlength
  exact absurd ((hv word' hword').2 _ hmem) (by decide)

theorem eq_of_inside {a sep b inner after rest : List Char} (ha : ∀ c ∈ a, isWord c = true)
    (hsep : ∀ c ∈ sep, isWord c = false) (hb : ∀ c ∈ b, isWord c = true)
    (hsplit : inner ++ after = a ++ (sep ++ b) ++ rest)
    (hlength : inner.length < (a ++ (sep ++ b)).length) (hne : inner ≠ [])
    (hinner : headIsWord inner.reverse = false) (hafter : headIsWord after = true) :
    inner = a ++ sep ∧ after = b ++ rest := by
  obtain ⟨u, hu⟩ : inner <+: a ++ (sep ++ b) :=
    List.prefix_of_prefix_length_le ⟨_, hsplit⟩ (List.prefix_append _ _) (Nat.le_of_lt hlength)
  obtain rfl : after = u ++ rest := by
    rw [← hu, List.append_assoc] at hsplit
    exact List.append_cancel_left hsplit
  rcases List.append_eq_append_iff.mp hu with ⟨more, rfl, -⟩ | ⟨middle, rfl, hmiddle⟩
  · exact absurd (eq_nil_of_prefix_word ha (List.prefix_append _ _) hinner) hne
  · rcases List.append_eq_append_iff.mp hmiddle with ⟨more, rfl, rfl⟩ | ⟨more, rfl, rfl⟩
    · have hmore : headIsWord more.reverse = false := by
        rw [List.reverse_append, List.reverse_append, List.append_assoc] at hinner
        exact headIsWord_of_append hinner
      simp [eq_nil_of_prefix_word hb (List.prefix_append _ _) hmore]
    · rcases more with _ | ⟨c, more⟩
      · simp
      · have hc := hsep c (by simp)
        exact absurd (hc.symm.trans hafter) (by decide)

theorem dot_not_word : ∀ c ∈ ['.'], isWord c = false := by
  intro c hc
  obtain rfl := List.mem_singleton.mp hc
  decide

theorem mathFunction_exposed {v : Vocabulary} (hv : ∀ w ∈ v.words, WordRun w)
    (hmath : "math".toList ∉ v.words) : Exposed (Member.mathFunction v) s := by
  rintro pre after hit rfl hclaim - ⟨left, inner, hit', rfl, hne, hclaim', hlength⟩
  obtain ⟨word, hword, rest, rfl, hleft, -, -⟩ := (mathFunction_eq_some_iff hv).mp hclaim
  obtain ⟨word', hword', rest', hafter, -, hright', rfl⟩ :=
    (mathFunction_eq_some_iff hv).mp hclaim'
  have hrun : WordRun "math".toList := by decide
  have hsplit : inner ++ (Member.mathLibrary ++ (word ++ rest)) =
      "math".toList ++ (['.'] ++ word') ++ rest' := by
    simpa [Member.mathLibrary] using hafter
  obtain ⟨-, hsecond⟩ := eq_of_inside hrun.2 dot_not_word (hv word' hword').2 hsplit hlength hne
    (headIsWord_inner hne hleft) (hrun.headIsWord_append _)
  have hwords := congrArg (List.takeWhile isWord) hsecond
  rw [(hv word' hword').takeWhile_append hright'] at hwords
  have hlibrary : (Member.mathLibrary ++ (word ++ rest)).takeWhile isWord = "math".toList :=
    hrun.takeWhile_append rfl
  rw [hlibrary] at hwords
  exact hmath (hwords ▸ hword')

theorem elseIf_exposed : Exposed Keyword.elseIf s := by
  rintro pre after hit rfl hclaim - ⟨left, inner, hit', rfl, hne, hclaim', hlength⟩
  obtain ⟨gap, hgap, hblank, rest, rfl, hleft, -, -⟩ := elseIf_eq_some_iff.mp hclaim
  obtain ⟨gap', hgap', hblank', rest', hafter, -, hright', rfl⟩ := elseIf_eq_some_iff.mp hclaim'
  have hsino : WordRun "sino".toList := by decide
  have hsi : WordRun "si".toList := by decide
  have hsplit : inner ++ ("sino".toList ++ (gap ++ ("si".toList ++ rest))) =
      "sino".toList ++ (gap' ++ "si".toList) ++ rest' := by
    simpa using hafter
  obtain ⟨-, hsecond⟩ := eq_of_inside hsino.2 (fun c hc => isWord_of_isBlank (hblank' c hc)) hsi.2
    hsplit (by simpa using hlength) hne (headIsWord_inner hne hleft) (hsino.headIsWord_append _)
  have hwords := congrArg (List.takeWhile isWord) hsecond
  have hfirst := hblank.headIsWord_append hgap ("si".toList ++ rest)
  rw [hsino.takeWhile_append hfirst, hsi.takeWhile_append hright'] at hwords
  exact absurd hwords (by decide)

end Exposure

section Steps

variable {find : Recogniser} {es : List Edit}

/-- What a recogniser has nothing to change in, edits leave so. -/
theorem quiet_of_reflects (hreflects : Reflects find es) (h : Quiet find (source es)) :
    Quiet find (result es) := by
  intro before after hit hresult hclaim
  by_contra hchanged
  obtain ⟨left, t, right, hit', -, rfl, hclaim', hchanged'⟩ :=
    hreflects before after hit hresult hclaim hchanged
  exact hchanged' (h (source left) (t ++ source right) hit' (by simp) hclaim')

theorem quiet_of_script (hscript : Script find [] es) (hreflects : Reflects find es)
    (hexposed : Exposed find (source es)) : Quiet find (result es) := by
  intro before after hit hresult hclaim
  by_contra hchanged
  obtain ⟨left, t, right, hit', hne, rfl, hclaim', hchanged'⟩ :=
    hreflects before after hit hresult hclaim hchanged
  obtain ⟨c, t, rfl⟩ := List.exists_cons_of_ne_nil hne
  refine hexposed (source left) (c :: t ++ source right) hit' (by simp) hclaim' hchanged' ?_
  have hhidden := hscript.keep left c (kept t ++ right) hit' (by simp)
    (by simpa using hclaim') hchanged'
  simpa using hhidden

end Steps

end SpanishLua.Proofs.Reflections
