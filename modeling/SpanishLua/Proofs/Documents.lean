import SpanishLua.Proofs.Lines

namespace SpanishLua.Proofs.Documents

open SpanishLua.Text

theorem splitOn_ne_nil (separator : Char) (s : List Char) : splitOn separator s ≠ [] := by
  induction s with
  | nil => simp [splitOn]
  | cons c s ih =>
      rw [splitOn, List.foldr_cons]
      split
      · simp
      · split <;> simp

theorem splitOn_cons (separator c : Char) (s : List Char) :
    splitOn separator (c :: s) =
      if c = separator then [] :: splitOn separator s
      else (splitOn separator s).modifyHead (c :: ·) := by
  cases hs : splitOn separator s with
  | nil => exact absurd hs (splitOn_ne_nil separator s)
  | cons piece pieces =>
      rw [splitOn] at hs
      rw [splitOn, List.foldr_cons, hs]
      rfl

theorem splitOn_pieces (separator : Char) (s : List Char) :
    ∃ piece pieces, splitOn separator s = piece :: pieces ∧ piece <+: s ∧
      ∀ p ∈ pieces, p <:+: s := by
  induction s with
  | nil => exact ⟨[], [], rfl, List.prefix_rfl, by simp⟩
  | cons c s ih =>
      obtain ⟨piece, pieces, hsplit, hpiece, hpieces⟩ := ih
      have hlift : ∀ p ∈ pieces, p <:+: c :: s :=
        fun p hp => (hpieces p hp).trans (List.suffix_cons c s).isInfix
      rw [splitOn_cons, hsplit]
      split
      · refine ⟨[], piece :: pieces, rfl, List.nil_prefix, ?_⟩
        intro p hp
        rcases List.mem_cons.mp hp with rfl | hp
        · exact hpiece.isInfix.trans (List.suffix_cons c s).isInfix
        · exact hlift p hp
      · exact ⟨c :: piece, pieces, rfl, (List.cons_prefix_cons).mpr ⟨rfl, hpiece⟩, hlift⟩

section Split

variable {separator : Char}

theorem splitOn_of_notMem {piece : List Char} (h : separator ∉ piece) :
    splitOn separator piece = [piece] := by
  induction piece with
  | nil => rfl
  | cons c piece ih =>
      rw [List.mem_cons, not_or] at h
      rw [splitOn_cons, if_neg (Ne.symm h.1), ih h.2]
      rfl

theorem splitOn_append_separator (s rest : List Char) :
    splitOn separator (s ++ separator :: rest) = splitOn separator s ++ splitOn separator rest := by
  induction s with
  | nil => simp [splitOn]
  | cons c s ih =>
      rw [List.cons_append, splitOn_cons, splitOn_cons, ih]
      split
      · rfl
      · cases hs : splitOn separator s with
        | nil => exact absurd hs (splitOn_ne_nil separator s)
        | cons piece pieces => rfl

theorem notMem_of_mem_splitOn {s piece : List Char} (h : piece ∈ splitOn separator s) :
    separator ∉ piece := by
  induction s generalizing piece with
  | nil =>
      obtain rfl : piece = [] := by simpa [splitOn] using h
      simp
  | cons c s ih =>
      rw [splitOn_cons] at h
      split at h
      · rcases List.mem_cons.mp h with rfl | h
        · simp
        · exact ih h
      · rename_i hc
        cases hs : splitOn separator s with
        | nil => exact absurd hs (splitOn_ne_nil separator s)
        | cons first others =>
            rw [hs, List.modifyHead_cons] at h
            rcases List.mem_cons.mp h with rfl | h
            · rw [List.mem_cons, not_or]
              exact ⟨Ne.symm hc, ih (by simp [hs])⟩
            · exact ih (by simp [hs, h])

theorem splitOn_intercalate {pieces : List (List Char)} (hne : pieces ≠ [])
    (h : ∀ piece ∈ pieces, separator ∉ piece) :
    splitOn separator ([separator].intercalate pieces) = pieces := by
  induction pieces with
  | nil => exact absurd rfl hne
  | cons piece pieces ih =>
      have hpiece := h piece (by simp)
      rcases pieces with _ | ⟨next, pieces⟩
      · simpa using splitOn_of_notMem hpiece
      · have hrest := ih (by simp) fun p hp => h p (by simp [hp])
        have hjoin : [separator].intercalate (piece :: next :: pieces) =
            piece ++ separator :: [separator].intercalate (next :: pieces) := by
          simp [List.intercalate_cons_cons]
        rw [hjoin, splitOn_append_separator, splitOn_of_notMem hpiece, hrest]
        rfl

end Split

theorem infix_of_mem_lines {s line : List Char} (h : line ∈ lines s) : line <:+: s := by
  obtain ⟨first, others, hlines, hfirst, hothers⟩ := splitOn_pieces '\n' s
  rw [lines, hlines] at h
  rcases List.mem_cons.mp h with rfl | h
  · exact hfirst.isInfix
  · exact hothers line h

theorem translateFrom_eq_ok_iff {t : Translator} {n : Nat} {ls luas : List (List Char)} :
    t.translateFrom n ls = .ok luas ↔
      List.Forall₂ (fun line lua => t.translateLine line = .ok lua) ls luas := by
  induction ls generalizing n luas with
  | nil => simp [Translator.translateFrom, eq_comm]
  | cons line ls ih =>
      rw [Translator.translateFrom, List.forall₂_cons_left_iff]
      cases hline : t.translateLine line with
      | error e => simp
      | ok lua =>
          cases hrest : t.translateFrom (n + 1) ls with
          | error e =>
              simp only [reduceCtorEq, false_iff]
              rintro ⟨lua', luas', -, hluas, -⟩
              rw [ih.mpr hluas] at hrest
              simp at hrest
          | ok luas' =>
              have hluas := ih.mp hrest
              constructor
              · intro h
                obtain rfl := Except.ok.inj h
                exact ⟨lua, luas', rfl, hluas, rfl⟩
              · rintro ⟨lua', luas'', hlua, hluas', rfl⟩
                rw [ih.mpr hluas'] at hrest
                obtain rfl := Except.ok.inj hlua
                obtain rfl := Except.ok.inj hrest
                rfl

theorem exists_line_of_mem {t : Translator} {ls luas : List (List Char)}
    (h : List.Forall₂ (fun line lua => t.translateLine line = .ok lua) ls luas) {lua : List Char}
    (hlua : lua ∈ luas) : ∃ line ∈ ls, t.translateLine line = .ok lua := by
  induction h with
  | nil => simp at hlua
  | @cons line _ _ _ hline _ ih =>
      rcases List.mem_cons.mp hlua with rfl | hlua
      · exact ⟨line, by simp, hline⟩
      · obtain ⟨line', hmem, hline'⟩ := ih hlua
        exact ⟨line', by simp [hmem], hline'⟩

theorem translate_eq_ok_iff {t : Translator} {document out : List Char} {label : String} :
    t.translate document label = .ok out ↔
      t.denyList.check document label = .ok () ∧
        ∃ luas, out = unlines luas ∧
          List.Forall₂ (fun line lua => t.translateLine line = .ok lua) (lines document) luas := by
  rw [Translator.translate]
  cases hcheck : t.denyList.check document label with
  | error word => simp
  | ok _ =>
      simp only [true_and, ← translateFrom_eq_ok_iff (n := 1)]
      cases t.translateFrom 1 (lines document) with
      | error e => simp
      | ok luas => simp [eq_comm]

end SpanishLua.Proofs.Documents
