import SpanishLua.Proofs.Reflections

/-!
Items across edits. The name of an item ends with its word, unless numbers that are no word
characters carry it on into the next word; apart from such names, items are found where they were.
-/

namespace SpanishLua.Proofs.Items

open SpanishLua.Code
open SpanishLua.Text
open SpanishLua.Proofs.Characters
open SpanishLua.Proofs.Scanning
open SpanishLua.Proofs.Recognisers
open SpanishLua.Proofs.Tables
open SpanishLua.Proofs.Defaults
open SpanishLua.Proofs.Places
open SpanishLua.Proofs.Words
open SpanishLua.Proofs.Edits
open SpanishLua.Proofs.Puts
open SpanishLua.Proofs.Reflections

/-- A word that may name an item. -/
structure ItemWord (name : List Char) : Prop where
  run : WordRun name
  chars : ∀ c ∈ name, Enumeration.isItemChar c = true
  start : ∃ c tail, name = c :: tail ∧ Enumeration.isItemStart c = true

/-- The text starts with characters of items that are no word characters, and then with a word. -/
def Straddles (s : List Char) : Prop :=
  ∃ numbers c rest, s = numbers ++ c :: rest ∧ numbers ≠ [] ∧ isWord c = true ∧
    ∀ d ∈ numbers, Enumeration.isItemChar d = true ∧ isWord d = false

theorem Straddles.head {s : List Char} (h : Straddles s) :
    ∃ c rest, s = c :: rest ∧ Enumeration.isItemChar c = true ∧ isWord c = false := by
  obtain ⟨numbers, d, rest, rfl, hne, -, hnumbers⟩ := h
  obtain ⟨c, numbers, rfl⟩ := List.exists_cons_of_ne_nil hne
  obtain ⟨hc, hword⟩ := hnumbers c (by simp)
  exact ⟨c, numbers ++ d :: rest, rfl, hc, hword⟩

theorem Straddles.not_word {s : List Char} (h : Straddles s) : headIsWord s = false := by
  obtain ⟨c, rest, rfl, -, hword⟩ := h.head
  exact hword

theorem endsAt_append {before s t rest : List Char} (ht : t ≠ []) :
    endsAt before (s ++ t) rest = endsAt [] t rest := by
  have hne : t.reverse ≠ [] := by simpa using ht
  rw [endsAt, endsAt, atBoundary, atBoundary, List.reverse_append, List.append_assoc,
    headIsWord_append hne, List.append_nil]

theorem straddles_of_boundary {s t : List Char} (hne : s ≠ [])
    (hitem : ∀ c ∈ s, Enumeration.isItemChar c = true) (hfirst : headIsWord s = false)
    (hends : endsAt [] s t = true) : Straddles (s ++ t) := by
  obtain ⟨c, s, rfl⟩ := List.exists_cons_of_ne_nil hne
  have hc : isWord c = false := hfirst
  induction s generalizing c with
  | nil =>
      have ht : headIsWord t = true := by
        simpa [endsAt, atBoundary, headIsWord, hc] using hends
      rcases t with _ | ⟨d, t⟩
      · simp [headIsWord] at ht
      · exact ⟨[c], d, t, rfl, by simp, ht, by simp [hc, hitem c (by simp)]⟩
  | cons d s ih =>
      have hcitem := hitem c (by simp)
      cases hd : isWord d with
      | true => exact ⟨[c], d, s ++ t, rfl, by simp, hd, by simp [hc, hcitem]⟩
      | false =>
          rw [← List.singleton_append, endsAt_append (by simp)] at hends
          obtain ⟨numbers, e, rest, hsplit, -, he, hnumbers⟩ :=
            ih d (by simp) (fun x hx => hitem x (by simp [hx])) hd hends hd
          refine ⟨c :: numbers, e, rest, by rw [List.cons_append, hsplit]; rfl, by simp, he, ?_⟩
          rintro x hx
          rcases List.mem_cons.mp hx with rfl | hx
          · exact ⟨hcitem, hc⟩
          · exact hnumbers x hx

theorem findSome?_reverse_range {α : Type} {f : Nat → Option α} {n k : Nat} {a : α} (hk : k < n)
    (hf : f k = some a) (hnone : ∀ j, k < j → j < n → f j = none) :
    (List.range n).reverse.findSome? f = some a := by
  induction n with
  | zero => omega
  | succ n ih =>
      rw [List.range_succ, List.reverse_concat, List.findSome?_cons]
      rcases Nat.lt_succ_iff_lt_or_eq.mp hk with hlt | rfl
      · rw [hnone n hlt (by omega)]
        exact ih hlt fun j hkj hjn => hnone j hkj (by omega)
      · rw [hf]

section Names

variable {name rest : List Char}

theorem isItemStart_of_itemName? {c : Char}
    (h : Enumeration.itemName? (c :: rest) = some name) : Enumeration.isItemStart c = true := by
  rw [Enumeration.itemName?] at h
  by_contra hstart
  simp [hstart] at h

theorem isWord_of_isItemStart {c : Char} (h : Enumeration.isItemStart c = true) :
    isWord c = true := by
  rw [Enumeration.isItemStart, Bool.or_eq_true, beq_iff_eq] at h
  rcases h with h | rfl
  · simp [isWord, isAlphabetic, h]
  · decide

theorem itemName?_eq (hname : ItemWord name) (hright : headIsWord rest = false)
    (hrest : ¬ Straddles rest) : Enumeration.itemName? (name ++ rest) = some name := by
  obtain ⟨c, tail, rfl, hstart⟩ := hname.start
  have hends : endsAt [] (c :: tail) rest = true := (endsAt_of_wordRun hname.run).mpr hright
  have hrun : ((c :: tail) ++ rest).takeWhile Enumeration.isItemChar =
      (c :: tail) ++ rest.takeWhile Enumeration.isItemChar :=
    List.takeWhile_append_of_pos hname.chars
  rw [List.cons_append, Enumeration.itemName?, if_pos hstart, ← List.cons_append]
  dsimp only
  rw [hrun]
  have hlength : tail.length <
      ((c :: tail) ++ rest.takeWhile Enumeration.isItemChar).length := by
    rw [List.length_append, List.length_cons]
    omega
  refine findSome?_reverse_range hlength ?_ ?_
  · rw [if_pos]
    · simp
    · simpa using hends
  · -- a longer name would lead over the numbers behind this one into another word
    intro j hlong hshort
    rw [if_neg]
    intro hboundary
    apply hrest
    obtain ⟨k, rfl⟩ : ∃ k, j = tail.length + (k + 1) := ⟨j - tail.length - 1, by omega⟩
    have hk : k + 1 ≤ (rest.takeWhile Enumeration.isItemChar).length := by
      simp only [List.length_append, List.length_cons] at hshort
      omega
    have hinside : rest.take (k + 1) <+: rest.takeWhile Enumeration.isItemChar :=
      List.prefix_of_prefix_length_le (List.take_prefix _ _) (List.takeWhile_prefix _)
        ((List.length_take_le _ _).trans hk)
    have hne : rest.take (k + 1) ≠ [] := by
      rintro hnil
      rcases List.take_eq_nil_iff.mp hnil with hzero | rfl
      · omega
      · simp at hk
    have hsplit := List.take_append_drop (k + 1) rest
    have hindex : tail.length + (k + 1) + 1 = (c :: tail).length + (k + 1) := by
      simp only [List.length_cons]
      omega
    rw [hindex, List.take_length_add_append, List.drop_length_add_append, endsAt_append hne]
      at hboundary
    rw [← hsplit] at hright ⊢
    exact straddles_of_boundary hne
      (fun d hd => List.mem_takeWhile_imp (hinside.subset hd)) (headIsWord_of_append hright)
      hboundary

/-- A name that is claimed ends with its word, or runs on into another one. -/
theorem itemWord_or_straddles (h : Enumeration.itemName? (name ++ rest) = some name) :
    ItemWord name ∧ headIsWord rest = false ∨
      ∃ word more, ItemWord word ∧ name = word ++ more ∧ Straddles (more ++ rest) := by
  obtain ⟨hne, hchars, rest', hrest, hends⟩ := exists_of_itemName? h
  obtain rfl : rest = rest' := List.append_cancel_left hrest
  obtain ⟨c, tail, rfl⟩ := List.exists_cons_of_ne_nil hne
  have hstart := isItemStart_of_itemName? h
  have hsplit := (List.takeWhile_append_dropWhile (p := isWord) (l := tail)).symm
  have hword : ItemWord (c :: tail.takeWhile isWord) := by
    refine ⟨⟨by simp, fun d hd => ?_⟩, fun d hd => hchars d ?_, c, _, rfl, hstart⟩
    · rcases List.mem_cons.mp hd with rfl | hd
      · exact isWord_of_isItemStart hstart
      · exact List.mem_takeWhile_imp hd
    · rcases List.mem_cons.mp hd with rfl | hd
      · simp
      · exact List.mem_cons_of_mem c ((List.takeWhile_prefix _).subset hd)
  by_cases hmore : tail.dropWhile isWord = []
  · rw [hmore, List.append_nil] at hsplit
    rw [← hsplit] at hword
    exact .inl ⟨hword, (endsAt_of_wordRun hword.run).mp hends⟩
  · refine .inr ⟨c :: tail.takeWhile isWord, tail.dropWhile isWord, hword,
      congrArg (c :: ·) hsplit, ?_⟩
    rw [hsplit, ← List.cons_append, endsAt_append hmore] at hends
    exact straddles_of_boundary hmore
      (fun d hd => hchars d (List.mem_cons_of_mem c ((List.dropWhile_suffix _).subset hd)))
      (headIsWord_dropWhile tail) hends

end Names

/-- Behind the name of an enumeration and a dot, a name of which `N` holds straddles the end of its
word. -/
def Overruns (N : List Char → List Char → Prop) (s : List Char) : Prop :=
  ∃ before, ∃ family ∈ (vocabulary .enumFamily).words, ∃ name rest,
    s = before ++ (family ++ '.' :: (name ++ rest)) ∧ headIsWord before.reverse = false ∧
      ItemWord name ∧ N family name ∧ Straddles rest

/-- Any name will do. -/
def AnyName (_family _name : List Char) : Prop :=
  True

/-- The item has a rule. -/
def Registered (family name : List Char) : Prop :=
  ∃ target, (vocabulary .enumMember).target? (family ++ '.' :: name) = some target

theorem Overruns.anyName {N : List Char → List Char → Prop} {s : List Char} (h : Overruns N s) :
    Overruns AnyName s := by
  obtain ⟨before, family, hfamily, name, rest, rfl, hleft, hname, -, hrest⟩ := h
  exact ⟨before, family, hfamily, name, rest, rfl, hleft, hname, trivial, hrest⟩

theorem wordRun_family {family : List Char} (h : family ∈ (vocabulary .enumFamily).words) :
    WordRun family :=
  wordRun_of_mem_vocabulary (by decide) family h

theorem inMemberPosition_dot (before : List Char) {word : List Char} (h : WordRun word) :
    inMemberPosition (before ++ (word ++ ['.'])).reverse = true := by
  obtain ⟨c, tail, hreverse⟩ := List.exists_cons_of_ne_nil h.reverse.1
  have hc : isWord c = true := h.reverse.2 c (by simp [hreverse])
  have hregroup : (before ++ (word ++ ['.'])).reverse = '.' :: (c :: (tail ++ before.reverse)) := by
    simp [hreverse]
  rw [hregroup, inMemberPosition_cons]
  refine .inr ⟨rfl, ?_⟩
  rintro hdot
  obtain rfl : c = '.' := by simpa using hdot
  exact absurd hc (by decide)

theorem elseif_not_registered {family : List Char}
    (hfamily : family ∈ (vocabulary .enumFamily).words) :
    ¬ Registered family "elseif".toList := by
  have hkeys : ∀ x ∈ spellings.val, x.category = .enumFamily → ∀ y ∈ spellings.val,
      y.category = .enumMember → wordKey y.source ≠ wordKey (x.source ++ ".elseif".toList) := by
    decide +kernel
  rintro ⟨target, htarget⟩
  obtain ⟨r, hr, rfl⟩ := mem_words_ofTable.mp hfamily
  obtain ⟨r', hr', hkey, -⟩ := exists_rule_of_target? default_wellFormed htarget
  obtain ⟨hmem, hcategory⟩ := mem_rules_iff.mp hr
  obtain ⟨hmem', hcategory'⟩ := mem_rules_iff.mp hr'
  exact forall_default (forall_default hkeys r hmem hcategory) r' hmem' hcategory' hkey

/-- What is put in starts in a word, and not as a member, unless it is the one fixed text. -/
def Aside (es : List Edit) : Prop :=
  ∀ left hit right, es = left ++ .put hit :: right → headIsWord hit.taken = true ∧
    (inMemberPosition (source left).reverse = false ∨ hit.text = "elseif".toList)

/-- What is put in as a name stands for a name. -/
structure Naming (hit : Hit) : Prop where
  plain : ∀ c ∈ hit.text, Enumeration.isItemChar c = true → isWord c = true
  whole : WordRun hit.text → ItemWord hit.taken
  member : ∀ name, hit.taken = '.' :: name → ItemWord name

section Edits

variable {es es' : List Edit}

theorem Straddles.of_result (h : Aligned (es ++ es')) (hresult : Straddles (result es')) :
    Straddles (source es') := by
  obtain ⟨numbers, c, rest, hsplit, hne, hc, hnumbers⟩ := hresult
  have hfirst : ∀ d ∈ numbers, isWord d = false ∧ d ∉ ['#', ':', '.'] := by
    intro d hd
    obtain ⟨hitem, hword⟩ := hnumbers d hd
    refine ⟨hword, ?_⟩
    simp only [List.mem_cons, List.not_mem_nil, or_false]
    rintro (rfl | rfl | rfl) <;> exact absurd hitem (by decide)
  obtain ⟨tail, rfl, htail⟩ := h.keep_heads hfirst hsplit
  have hbehind : Aligned ((es ++ kept numbers) ++ tail) := by simpa using h
  have hword := hbehind.headIsWord_source (by rw [htail]; exact hc)
  rcases hsource : source tail with _ | ⟨d, rest'⟩
  · simp [hsource, headIsWord] at hword
  · rw [hsource] at hword
    exact ⟨numbers, d, rest', by simp [hsource], hne, hword, hnumbers⟩

theorem Aligned.dot_cases (h : Aligned (es ++ es')) {r : List Char}
    (hresult : result es' = '.' :: r) :
    (∃ rest, es' = .keep '.' :: rest ∧ result rest = r) ∨
      ∃ hit rest a b, es' = .put hit :: rest ∧ WordRun a ∧ WordRun b ∧ hit.taken = '.' :: a ∧
        hit.text = '.' :: b ∧ b ++ result rest = r := by
  rcases es' with _ | ⟨e, rest⟩
  · simp at hresult
  · cases e with
    | keep c =>
        obtain ⟨rfl, hrest⟩ := List.cons.inj hresult
        exact .inl ⟨rest, rfl, hrest⟩
    | put hit =>
        obtain ⟨c, t, htext⟩ := List.exists_cons_of_ne_nil (h.head rfl).1.text_ne_nil
        obtain ⟨rfl, hrest⟩ : c = '.' ∧ t ++ result rest = r := by
          rw [result_put, htext] at hresult
          exact List.cons.inj hresult
        cases (h.head rfl).1 with
        | word _ _ hstart => simp [htext, headIsWord, show isWord '.' = false by decide] at hstart
        | colon a b _ hb => simp [htext] at hb
        | dot a b ha hb htaken hb' =>
            obtain rfl : t = b := (List.cons.inj (htext.symm.trans hb')).2
            exact .inr ⟨hit, rest, a, t, rfl, ha, hb, htaken, htext, hrest⟩

/-- An item with a rule has stayed where nothing is put in for a member. -/
theorem Fits.item_kept (h : Fits es) (haside : Aside es) {p family name r : List Char}
    (hresult : result es = p ++ (family ++ '.' :: (name ++ r)))
    (hleft : headIsWord p.reverse = false)
    (hfamily : family ∈ (vocabulary .enumFamily).words) (hname : WordRun name)
    (hright : headIsWord r = false) (hregistered : Registered family name) :
    ∃ left right, es = left ++ (kept (family ++ '.' :: name) ++ right) ∧ result left = p ∧
      result right = r ∧ headIsWord (source left).reverse = false ∧
      headIsWord (source right) = false := by
  have hrun := wordRun_family hfamily
  obtain ⟨left, right, rfl, hinit, hdot, hstands⟩ :=
    h.run_kept hresult ⟨hrun, hleft, rfl⟩ (dialect_of_family hfamily)
  have hbehind : Aligned ((left ++ kept family) ++ right) := by simpa using h.aligned
  rcases Aligned.dot_cases hbehind hdot with
    ⟨right, rfl, hmember⟩ | ⟨hit, right, a, b, rfl, -, -, htaken, -⟩
  · have hbefore : Aligned ((left ++ kept family ++ [.keep '.']) ++ right) := by
      simpa using h.aligned
    rcases hbefore.word_head hname hmember with ⟨rest, rfl, hrest⟩ | ⟨hit, rest, rfl, b, htext⟩
    · refine ⟨left, rest, by simp, hinit, hrest, hstands.left, ?_⟩
      have hend : Aligned ((left ++ kept family ++ [.keep '.'] ++ kept name) ++ rest) := by
        simpa using h.aligned
      refine hend.headIsWord_source_of_word ?_ (by rw [hrest]; exact hright)
      simp only [source_append, source_kept, List.reverse_append, List.append_assoc]
      exact hname.reverse.headIsWord_append _
    · -- what is put in for a member is not the name of an item
      exfalso
      have hposition : inMemberPosition
          (source (left ++ (kept family ++ [Edit.keep '.']))).reverse = true := by
        simpa using inMemberPosition_dot (source left) hrun
      rcases (haside (left ++ (kept family ++ [.keep '.'])) hit rest (by simp)).2 with
        hplace | hfixed
      · rw [hposition] at hplace
        exact absurd hplace (by decide)
      · have hb : headIsWord b = false := by
          rw [result_put, ← htext, List.append_assoc] at hmember
          rw [← List.append_cancel_left hmember] at hright
          exact headIsWord_of_append hright
        have hwhole : WordRun "elseif".toList := by decide
        obtain rfl : name = "elseif".toList := by
          rw [hfixed] at htext
          exact (hasRun_wordRun hwhole).mp ⟨[], b, htext.symm, hname, rfl, hb⟩
        exact elseif_not_registered hfamily hregistered
  · exfalso
    have hword := (haside (left ++ kept family) hit right (by simp)).1
    rw [htaken] at hword
    exact absurd (show isWord '.' = true from hword) (by decide)

theorem Overruns.of_result_aside (h : Fits es) (haside : Aside es)
    (hover : Overruns Registered (result es)) : Overruns Registered (source es) := by
  obtain ⟨p, family, hfamily, name, r, hresult, hleft, hname, hregistered, hstraddles⟩ := hover
  obtain ⟨left, right, rfl, -, rfl, hbefore, -⟩ :=
    Fits.item_kept h haside hresult hleft hfamily hname.run hstraddles.not_word hregistered
  have hbehind : Aligned ((left ++ kept (family ++ '.' :: name)) ++ right) := by
    simpa using h.aligned
  exact ⟨source left, family, hfamily, name, source right, by simp, hbefore, hname, hregistered,
    hstraddles.of_result hbehind⟩

theorem item_reflects (h : Fits es) (haside : Aside es)
    (hover : ¬ Overruns Registered (source es)) :
    Reflects (Enumeration.item (vocabulary .enumFamily) (vocabulary .enumMember)) es := by
  intro p q hit hresult hclaim hchanged
  have hruns := wordRun_of_mem_vocabulary (by decide : Category.enumFamily ≠ .enumMember)
  obtain ⟨family, hfamily, member, r, familyTarget, memberTarget, rfl, hmember, hleft, hposition,
    hft, hmt, rfl, -⟩ := (item_changed_iff hruns).mp ⟨hclaim, hchanged⟩
  obtain ⟨hrun, hright⟩ := wordRun_of_registered hmember hmt
  have hregistered : Registered family member := ⟨memberTarget, hmt⟩
  obtain ⟨left, right, rfl, rfl, -, hbefore, hbehind⟩ :=
    Fits.item_kept h haside hresult hleft hfamily hrun hright hregistered
  have hname : ItemWord member := by
    obtain ⟨-, hchars, -⟩ := exists_of_itemName? hmember
    obtain ⟨c, tail, rfl⟩ := List.exists_cons_of_ne_nil hrun.1
    exact ⟨hrun, hchars, c, tail, rfl, isItemStart_of_itemName? hmember⟩
  have hstraddles : ¬ Straddles (source right) := fun hstraddles => hover
    ⟨source left, family, hfamily, member, source right, by simp, hbefore, hname, hregistered,
      hstraddles⟩
  rw [h.aligned.inMemberPosition_eq] at hposition
  obtain ⟨hclaim', -⟩ := (item_changed_iff hruns).mpr
    ⟨family, hfamily, member, source right, familyTarget, memberTarget, rfl,
      itemName?_eq hname hbehind hstraddles, hbefore, hposition, hft, hmt, rfl, hchanged⟩
  exact ⟨left, family ++ '.' :: member, right, _, by simp, rfl, by simpa using hclaim', hchanged⟩

theorem Overruns.of_result (h : Fits es)
    (hnaming : ∀ hit, .put hit ∈ es → Naming hit) (hover : Overruns AnyName (result es)) :
    Overruns AnyName (source es) := by
  obtain ⟨p, family, hfamily, name, r, hresult, hleft, hname, -, hstraddles⟩ := hover
  obtain ⟨left, right, rfl, -, hdot, hstands⟩ :=
    h.run_kept hresult ⟨wordRun_family hfamily, hleft, rfl⟩ (dialect_of_family hfamily)
  -- it is enough to find a name in the old text
  have hold : ∀ name' more rest, right = more ++ rest → source more = '.' :: name' →
      ItemWord name' → result rest = r →
      Overruns AnyName (source (left ++ (kept family ++ right))) := by
    rintro name' more rest rfl hmore hname' rfl
    have hbehind : Aligned ((left ++ (kept family ++ more)) ++ rest) := by simpa using h.aligned
    exact ⟨source left, family, hfamily, name', source rest, by simp [hmore], hstands.left, hname',
      trivial, hstraddles.of_result hbehind⟩
  have hbehind : Aligned ((left ++ kept family) ++ right) := by simpa using h.aligned
  rcases Aligned.dot_cases hbehind hdot with
    ⟨right, rfl, hmember⟩ | ⟨hit, right, a, b, rfl, ha, hb, htaken, htext, hmember⟩
  · have hbefore : Aligned ((left ++ kept family ++ [.keep '.']) ++ right) := by
      simpa using h.aligned
    rcases hbefore.word_head hname.run hmember with ⟨rest, rfl, hrest⟩ | ⟨hit, rest, rfl, b, htext⟩
    · exact hold name (.keep '.' :: kept name) rest rfl (by simp) hname hrest
    · have hput := hnaming hit (by simp)
      have hsplit : b ++ result rest = r := by
        rw [result_put, ← htext, List.append_assoc] at hmember
        exact List.append_cancel_left hmember
      obtain rfl : b = [] := by
        rcases b with _ | ⟨c, b⟩
        · rfl
        · obtain ⟨d, tail, hr, hitem, hword⟩ := hstraddles.head
          obtain ⟨rfl, -⟩ := List.cons.inj (hsplit.trans hr)
          rw [hput.plain c (by simp [← htext]) hitem] at hword
          exact absurd hword (by decide)
      rw [List.append_nil] at htext
      exact hold hit.taken [.keep '.', .put hit] rest rfl (by simp) (hput.whole (htext ▸ hname.run))
        hsplit
  · obtain ⟨more, rfl⟩ := hbehind.word_text (a := ['.']) htext hb.1 hname.run hmember
    have hsplit : more ++ result right = r := by
      rw [List.append_assoc] at hmember
      exact List.append_cancel_left hmember
    obtain rfl : more = [] := by
      by_contra hne
      have hmore : WordRun more := ⟨hne, fun c hc => hb.2 c (by simp [hc])⟩
      have hword := hstraddles.not_word
      rw [← hsplit, hmore.headIsWord_append] at hword
      exact absurd hword (by decide)
    exact hold a [.put hit] right rfl (by simp [htaken]) ((hnaming hit (by simp)).member a htaken)
      hsplit

end Edits

theorem item_exposed {s : List Char} (hover : ¬ Overruns AnyName s) :
    Exposed (Enumeration.item (vocabulary .enumFamily) (vocabulary .enumMember)) s := by
  rintro pre after hit rfl hclaim hchanged ⟨left, inner, hit', rfl, hne, hclaim', hlength⟩
  have hruns := wordRun_of_mem_vocabulary (by decide : Category.enumFamily ≠ .enumMember)
  obtain ⟨family, hfamily, member, rest, _, _, rfl, -, hleft, hposition, -⟩ :=
    (item_changed_iff hruns).mp ⟨hclaim, hchanged⟩
  obtain ⟨family', hfamily', member', rest', hafter, hmember', hleft', rfl⟩ :=
    (item_eq_some_iff hruns).mp hclaim'
  rw [List.append_nil] at hleft'
  have hsplit : inner ++ (family ++ '.' :: (member ++ rest)) =
      family' ++ (['.'] ++ member') ++ rest' := by
    simpa using hafter
  rcases itemWord_or_straddles hmember' with ⟨hname, -⟩ | ⟨word, more, hword, rfl, hstraddles⟩
  · obtain ⟨rfl, -⟩ := eq_of_inside (hruns family' hfamily').2 dot_not_word hname.run.2 hsplit
      hlength hne (headIsWord_inner hne hleft) ((hruns family hfamily).headIsWord_append _)
    rw [inMemberPosition_dot left (hruns family' hfamily')] at hposition
    exact absurd hposition (by decide)
  · exact hover ⟨left, family', hfamily', word, more ++ rest', by simp [hafter], hleft', hword,
      trivial, hstraddles⟩

section Claims

variable {before rest : List Char} {hit : Hit}

theorem target_ascii : ∀ r ∈ RuleTable.default.entries, ∀ c ∈ r.target.toList, c.toNat < 128 := by
  have hascii : ∀ x ∈ spellings.val, x.target.all (·.toNat < 128) = true := by decide +kernel
  intro r hr
  simpa [spell] using forall_default hascii r hr

theorem itemWord_property {word : List Char} (hword : word ∈ (vocabulary .propertyName).words) :
    ItemWord word := by
  have hnames : ∀ x ∈ spellings.val, x.category = .propertyName →
      x.source.all Enumeration.isItemChar = true ∧
        x.source.head?.any Enumeration.isItemStart = true := by
    decide +kernel
  have hrun := wordRun_of_mem_vocabulary (by decide) word hword
  obtain ⟨r, hr, rfl⟩ := mem_words_ofTable.mp hword
  obtain ⟨hmem, hcategory⟩ := mem_rules_iff.mp hr
  obtain ⟨hchars, hstart⟩ := forall_default hnames r hmem hcategory
  obtain ⟨c, tail, hsource⟩ := List.exists_cons_of_ne_nil hrun.1
  refine ⟨hrun, List.all_eq_true.mp hchars, c, tail, hsource, ?_⟩
  simpa [spell, hsource] using hstart

theorem naming_of_not_word {c : Char} (hascii : ∀ c ∈ hit.text, c.toNat < 128)
    (hc : isWord c = false) (hmem : c ∈ hit.text)
    (hmember : ∀ name, hit.taken = '.' :: name → ItemWord name) : Naming hit where
  plain d hd := isWord_of_isItemChar (.inl (hascii d hd))
  whole hrun := by
    have hword := hrun.2 c hmem
    rw [hc] at hword
    exact absurd hword (by decide)
  member := hmember

theorem lookup_naming (h : Service.lookup before (hit.taken ++ rest) = some hit) : Naming hit := by
  obtain ⟨-, -, -, rfl⟩ := lookup_eq_some_iff.mp h
  have haccessor : ItemWord Service.accessor :=
    ⟨wordRun_accessor, List.all_eq_true.mp (by decide), _, _, rfl, by decide⟩
  have hascii : ∀ s ∈ ["GetService".toList, "game:GetService".toList],
      s.all (·.toNat < 128) = true := by
    decide
  refine ⟨fun c hc => isWord_of_isItemChar (.inl ?_), fun _ => haccessor, fun name hname => ?_⟩
  · have htext : (if inMemberPosition before then "GetService" else "game:GetService").toList ∈
        ["GetService".toList, "game:GetService".toList] := by
      split <;> simp
    simpa using List.all_eq_true.mp (hascii _ htext) c hc
  · have hhead : Service.accessor.head? = some '.' := congrArg List.head? hname
    exact absurd hhead (by decide)

theorem method_naming
    (h : Call.method (vocabulary .methodName) before (hit.taken ++ rest) = some hit) :
    Naming hit := by
  have hruns := wordRun_of_mem_vocabulary (by decide : Category.methodName ≠ .enumMember)
  obtain ⟨blanks, -, word, hword, gap, -, rest', -, htaken, htext⟩ :=
    (method_eq_some_iff hruns).mp h
  obtain ⟨r, hr, -, rfl, htarget⟩ := exists_target hword
  have htext : hit.text = ':' :: (r.target.toList ++ ['(']) := by rw [htext, htarget]
  refine naming_of_not_word (c := ':') ?_ (by decide) (by simp [htext]) (by simp [htaken])
  intro c hc
  simp only [htext, List.mem_cons, List.mem_append, List.not_mem_nil, or_false] at hc
  rcases hc with rfl | hc | rfl
  · decide
  · exact target_ascii r hr c hc
  · decide

theorem instanceFactory_naming
    (h : Call.instanceFactory before (hit.taken ++ rest) = some hit) : Naming hit := by
  obtain ⟨gap, -, -, -, -, rfl⟩ := instanceFactory_eq_some_iff.mp h
  have hascii : "Instance.new(".toList.all (·.toNat < 128) = true := by decide
  refine naming_of_not_word (c := '(') (fun c hc => ?_) (by decide) (by simp) (by simp)
  simpa using List.all_eq_true.mp hascii c hc

theorem property_naming
    (h : Member.property (vocabulary .propertyName) before (hit.taken ++ rest) = some hit) :
    Naming hit := by
  have hruns := wordRun_of_mem_vocabulary (by decide : Category.propertyName ≠ .enumMember)
  obtain ⟨word, hword, -, -, -, rfl⟩ := (property_eq_some_iff hruns).mp h
  obtain ⟨r, hr, -, rfl, htarget⟩ := exists_target hword
  refine naming_of_not_word (c := '.') (fun c hc => ?_) (by decide) (by simp) fun name hname => ?_
  · rcases List.mem_cons.mp hc with rfl | hc
    · decide
    · rw [htarget, Option.getD_some] at hc
      split at hc
      · exact default_ascii r hr c hc
      · exact target_ascii r hr c hc
  · obtain rfl : r.source.toList = name := (List.cons.inj hname).2
    exact itemWord_property hword

theorem mathFunction_naming
    (h : Member.mathFunction (vocabulary .mathFunction) before (hit.taken ++ rest) = some hit) :
    Naming hit := by
  have hruns := wordRun_of_mem_vocabulary (by decide : Category.mathFunction ≠ .enumMember)
  obtain ⟨word, hword, -, -, -, -, rfl⟩ := (mathFunction_eq_some_iff hruns).mp h
  obtain ⟨r, hr, -, rfl, htarget⟩ := exists_target hword
  have hlibrary : Member.mathLibrary.all (·.toNat < 128) = true := by decide
  refine naming_of_not_word (c := '.') (fun c hc => ?_) (by decide) (by simp [Member.mathLibrary])
    (by simp [Member.mathLibrary])
  rw [htarget, Option.getD_some] at hc
  rcases List.mem_append.mp hc with hc | hc
  · simpa using List.all_eq_true.mp hlibrary c hc
  · exact target_ascii r hr c hc

theorem item_aside
    (h : Enumeration.item (vocabulary .enumFamily) (vocabulary .enumMember) before
      (hit.taken ++ rest) = some hit) (hchanged : hit.text ≠ hit.taken) :
    headIsWord hit.taken = true ∧ inMemberPosition before = false := by
  obtain ⟨family, hfamily, member, _, _, _, _, -, -, -, hposition, rfl⟩ :=
    exists_of_item_changed h hchanged
  exact ⟨(wordRun_family hfamily).headIsWord_append _, hposition⟩

theorem constant_aside {category : Category} (hcategory : category ≠ .enumMember)
    (h : Enumeration.constant (vocabulary category) before (hit.taken ++ rest) = some hit)
    (hchanged : hit.text ≠ hit.taken) :
    headIsWord hit.taken = true ∧ inMemberPosition before = false := by
  obtain ⟨word, -, _, -, hstands, rfl⟩ :=
    (constant_eq_some_iff (wordRun_of_mem_vocabulary hcategory)).mp h
  refine ⟨hstands.wordRun.head, ?_⟩
  by_contra hposition
  simp [hposition] at hchanged

theorem globalFunction_aside
    (h : Keyword.globalFunction (vocabulary .globalFunction) before (hit.taken ++ rest) = some hit)
    (hchanged : hit.text ≠ hit.taken) :
    headIsWord hit.taken = true ∧ inMemberPosition before = false := by
  have hruns := wordRun_of_mem_vocabulary (by decide : Category.globalFunction ≠ .enumMember)
  obtain ⟨word, hword, gap, -, -, -, -, rfl⟩ := (globalFunction_eq_some_iff hruns).mp h
  refine ⟨(hruns word hword).headIsWord_append _, ?_⟩
  by_contra hposition
  simp [hposition] at hchanged

theorem elseIf_aside (h : Keyword.elseIf before (hit.taken ++ rest) = some hit) :
    headIsWord hit.taken = true ∧ hit.text = "elseif".toList := by
  obtain ⟨gap, -, -, -, -, -, -, rfl⟩ := elseIf_eq_some_iff.mp h
  exact ⟨rfl, rfl⟩

end Claims

end SpanishLua.Proofs.Items
