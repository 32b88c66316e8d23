import SpanishLua.DenyList
import SpanishLua.Proofs.Characters
import SpanishLua.Proofs.Occurrences

namespace SpanishLua.Proofs.Denial

open SpanishLua.Text
open SpanishLua.Proofs.Characters
open SpanishLua.Proofs.Occurrences

/-- A default word, or what an extra entry leaves after trimming, if it leaves anything. -/
def Denied (extra : List String) (word : List Char) : Prop :=
  (∃ w ∈ DenyList.defaultWords, w.toList = word) ∨
    ∃ entry ∈ extra, trim entry.toList = word ∧ word ≠ []

/-- Some denied word stands in the line, case apart. -/
def Offends (extra : List String) (line : List Char) : Prop :=
  ∃ word, Denied extra word ∧ Occurs word line

/-- The report is about the first offending line, the first entry of the list that occurs there and
the leftmost occurrence of that entry. -/
def ReportsFirst (extra : List String) (lines : List (List Char)) (e : ForbiddenWord) : Prop :=
  ∃ earlier line later, lines = earlier ++ line :: later ∧
    (∀ l ∈ earlier, ¬ Offends extra l) ∧ e.line = earlier.length + 1 ∧
    (∃ sooner rest, (DenyList.ofExtra extra).words = sooner ++ e.token :: rest ∧
      ∀ w ∈ sooner, ¬ Occurs w.toList line) ∧
    ∃ pre, StandsAfter pre e.token.toList line ∧ e.column = byteLength pre + 1 ∧
      ∀ pre', StandsAfter pre' e.token.toList line → pre.length ≤ pre'.length

theorem fold_toLower (c : Char) : fold c.toLower = fold c := by
  by_cases hascii : c.toNat < 128
  · exact forall_ascii (p := fun c => fold c.toLower = fold c) (by decide +kernel) hascii
  · have hupper : ¬ (c.val ≥ 'A'.val ∧ c.val ≤ 'Z'.val) := by
      rintro ⟨-, hupper⟩
      have hle : c.toNat ≤ 90 := hupper
      omega
    have hsame : c.toLower = c := dif_neg hupper
    rw [hsame]

theorem occurs_of_sameEntry {a b : String} (h : DenyList.sameEntry a b = true) (line : List Char) :
    Occurs a.toList line ↔ Occurs b.toList line := by
  have hlower := congrArg (List.map fold) (beq_iff_eq.mp h)
  simp only [List.map_map, Function.comp_def, fold_toLower] at hlower
  exact occurs_congr hlower

theorem occurs_add_iff (words : List String) (entry : String) (line : List Char) :
    (∃ w ∈ DenyList.add words entry, Occurs w.toList line) ↔
      (∃ w ∈ words, Occurs w.toList line) ∨
        trim entry.toList ≠ [] ∧ Occurs (trim entry.toList) line := by
  rw [DenyList.add]
  by_cases hempty : trim entry.toList = []
  · simp [hempty]
  · have hne : (String.ofList (trim entry.toList) == "") = false := by
      simpa using hempty
    rw [hne, Bool.false_or]
    split
    · rename_i hany
      obtain ⟨w, hw, hsame⟩ := List.any_eq_true.mp hany
      have hdropped := occurs_of_sameEntry hsame line
      rw [String.toList_ofList] at hdropped
      constructor
      · exact fun h => .inl h
      · rintro (h | ⟨-, h⟩)
        · exact h
        · exact ⟨w, hw, hdropped.mpr h⟩
    · simp only [List.mem_append, List.mem_singleton]
      constructor
      · rintro ⟨w, hw | rfl, h⟩
        · exact .inl ⟨w, hw, h⟩
        · exact .inr ⟨hempty, by simpa using h⟩
      · rintro (⟨w, hw, h⟩ | ⟨-, h⟩)
        · exact ⟨w, .inl hw, h⟩
        · exact ⟨_, .inr rfl, by simpa using h⟩

theorem occurs_foldl_add_iff (words extra : List String) (line : List Char) :
    (∃ w ∈ extra.foldl DenyList.add words, Occurs w.toList line) ↔
      (∃ w ∈ words, Occurs w.toList line) ∨
        ∃ entry ∈ extra, trim entry.toList ≠ [] ∧ Occurs (trim entry.toList) line := by
  induction extra generalizing words with
  | nil => simp
  | cons entry extra ih =>
      rw [List.foldl_cons, ih, occurs_add_iff]
      simp [or_assoc]

/-- Leaving out an entry that the list has in another case changes no verdict. -/
theorem occurs_words_iff (extra : List String) (line : List Char) :
    (∃ w ∈ (DenyList.ofExtra extra).words, Occurs w.toList line) ↔ Offends extra line := by
  rw [DenyList.ofExtra, occurs_foldl_add_iff]
  constructor
  · rintro (⟨w, hw, h⟩ | ⟨entry, hentry, hne, h⟩)
    · exact ⟨w.toList, .inl ⟨w, hw, rfl⟩, h⟩
    · exact ⟨trim entry.toList, .inr ⟨entry, hentry, rfl, hne⟩, h⟩
  · rintro ⟨_, ⟨w, hw, rfl⟩ | ⟨entry, hentry, rfl, hne⟩, h⟩
    · exact .inl ⟨w, hw, h⟩
    · exact .inr ⟨entry, hentry, hne, h⟩

/-- The first entry that occurs in a line, and the number of characters before it. -/
def findInLine? (d : DenyList) (line : List Char) : Option (String × Nat) :=
  d.words.findSome? fun word => (findFolded? word.toList line).map (word, ·)

theorem holdsFolded_eq (word s : List Char) :
    holdsFolded word s = (findFolded? word s).isSome := by
  induction s with
  | nil => cases word <;> rfl
  | cons c s ih =>
      rw [holdsFolded, findFolded?, ih]
      cases startsFolded word (c :: s) <;> simp

/-- Two searches of a line, for the first entry that it holds and then for the place of that entry,
find what one search through all entries finds. -/
theorem findSome?_eq_bind (words : List String) (line : List Char) :
    words.findSome? (fun word => (findFolded? word.toList line).map (word, ·)) =
      (words.findFinIdx? fun word => holdsFolded word.toList line).bind fun i =>
        (findFolded? words[i].toList line).map (words[i], ·) := by
  induction words with
  | nil => rfl
  | cons word words ih =>
      rw [List.findFinIdx?_cons, List.findSome?_cons, holdsFolded_eq]
      cases hfind : findFolded? word.toList line with
      | none => simp [ih, Option.bind_map, Function.comp_def]
      | some offset => simp [hfind]

theorem findFrom?_cons (d : DenyList) (label : String) (number : Nat) (line : List Char)
    (lines : List (List Char)) :
    d.findFrom? label number (line :: lines) =
      match findInLine? d line with
      | none => d.findFrom? label (number + 1) lines
      | some (token, offset) =>
          some ⟨token, number, byteLength (line.take offset) + 1, label⟩ := by
  rw [DenyList.findFrom?, findInLine?, findSome?_eq_bind, ← DenyList.first?]
  cases d.first? line with
  | none => rfl
  | some i =>
      simp only [Option.bind_some]
      cases findFolded? d.words[i].toList line <;> rfl

theorem findInLine?_eq_none_iff {d : DenyList} {line : List Char} :
    findInLine? d line = none ↔ ¬ ∃ w ∈ d.words, Occurs w.toList line := by
  simp [findInLine?, List.findSome?_eq_none_iff, findFolded?_eq_none_iff]

theorem findInLine?_eq_some_iff {d : DenyList} {line : List Char} {token : String} {n : Nat} :
    findInLine? d line = some (token, n) ↔
      (∃ sooner rest, d.words = sooner ++ token :: rest ∧ ∀ w ∈ sooner, ¬ Occurs w.toList line) ∧
        findFolded? token.toList line = some n := by
  simp only [findInLine?, List.findSome?_eq_some_iff, Option.map_eq_some_iff,
    Prod.mk.injEq, Option.map_eq_none_iff, findFolded?_eq_none_iff]
  constructor
  · rintro ⟨sooner, w, rest, hwords, ⟨m, hfind, rfl, rfl⟩, hsooner⟩
    exact ⟨⟨sooner, rest, hwords, hsooner⟩, hfind⟩
  · rintro ⟨⟨sooner, rest, hwords, hsooner⟩, hfind⟩
    exact ⟨sooner, token, rest, hwords, ⟨n, hfind, rfl, rfl⟩, hsooner⟩

theorem findFrom?_eq_none_iff {d : DenyList} {label : String} {number : Nat}
    {lines : List (List Char)} :
    d.findFrom? label number lines = none ↔ ∀ line ∈ lines, findInLine? d line = none := by
  induction lines generalizing number with
  | nil => simp [DenyList.findFrom?]
  | cons line lines ih =>
      rw [findFrom?_cons]
      split
      · rename_i hfind
        simp [hfind, ih]
      · rename_i hfind
        simp [hfind]

theorem findFrom?_eq_some_iff {d : DenyList} {label : String} {number : Nat}
    {lines : List (List Char)} {e : ForbiddenWord} :
    d.findFrom? label number lines = some e ↔
      ∃ earlier line later, lines = earlier ++ line :: later ∧
        (∀ l ∈ earlier, findInLine? d l = none) ∧ e.line = number + earlier.length ∧
        e.label = label ∧ ∃ offset, findInLine? d line = some (e.token, offset) ∧
          e.column = byteLength (line.take offset) + 1 := by
  induction lines generalizing number with
  | nil => simp [DenyList.findFrom?]
  | cons line lines ih =>
      rw [findFrom?_cons]
      split
      · rename_i hfind
        rw [ih]
        constructor
        · rintro ⟨earlier, line', later, rfl, hnone, hline, hreport⟩
          refine ⟨line :: earlier, line', later, rfl, ?_, ?_, hreport⟩
          · intro l hl
            rcases List.mem_cons.mp hl with rfl | hl
            · exact hfind
            · exact hnone l hl
          · rw [hline, List.length_cons]
            omega
        · rintro ⟨earlier, line', later, hsplit, hnone, hline, hlabel, offset, hfind', hcolumn⟩
          rcases earlier with _ | ⟨first, earlier⟩
          · obtain ⟨rfl, -⟩ := List.cons.inj hsplit
            simp [hfind] at hfind'
          · obtain ⟨rfl, rfl⟩ := List.cons.inj hsplit
            refine ⟨earlier, line', later, rfl, fun l hl => hnone l (by simp [hl]), ?_, hlabel,
              offset, hfind', hcolumn⟩
            rw [hline, List.length_cons]
            omega
      · rename_i token offset hfind
        constructor
        · rintro h
          obtain rfl := Option.some.inj h
          exact ⟨[], line, lines, rfl, by simp, rfl, rfl, offset, hfind, rfl⟩
        · rintro ⟨earlier, line', later, hsplit, hnone, hline, hlabel, offset', hfind', hcolumn⟩
          rcases earlier with _ | ⟨first, earlier⟩
          · obtain ⟨rfl, -⟩ := List.cons.inj hsplit
            rw [hfind] at hfind'
            simp only [Option.some.injEq, Prod.mk.injEq] at hfind'
            obtain ⟨rfl, rfl⟩ := hfind'
            rcases e with ⟨token, number', column, label'⟩
            simp_all
          · obtain ⟨rfl, -⟩ := List.cons.inj hsplit
            simp [hnone line (by simp)] at hfind

theorem check_eq_ok_iff {extra : List String} {document : List Char} {label : String} :
    (DenyList.ofExtra extra).check document label = .ok () ↔
      ∀ line ∈ lines document, ¬ Offends extra line := by
  have hnone : (DenyList.ofExtra extra).findFrom? label 1 (lines document) = none ↔
      ∀ line ∈ lines document, ¬ Offends extra line := by
    simp only [findFrom?_eq_none_iff, findInLine?_eq_none_iff, occurs_words_iff]
  rw [← hnone, DenyList.check]
  cases (DenyList.ofExtra extra).findFrom? label 1 (lines document) <;> simp

theorem check_eq_error_iff {extra : List String} {document : List Char} {label : String}
    {e : ForbiddenWord} :
    (DenyList.ofExtra extra).check document label = .error e ↔
      ReportsFirst extra (lines document) e ∧ e.label = label := by
  have hfind : (DenyList.ofExtra extra).check document label = .error e ↔
      (DenyList.ofExtra extra).findFrom? label 1 (lines document) = some e := by
    rw [DenyList.check]
    cases (DenyList.ofExtra extra).findFrom? label 1 (lines document) <;> simp
  rw [hfind, findFrom?_eq_some_iff]
  simp only [findInLine?_eq_none_iff, occurs_words_iff, findInLine?_eq_some_iff,
    findFolded?_eq_some_iff]
  constructor
  · rintro ⟨earlier, line, later, hsplit, hclean, hline, hlabel, _, ⟨hfirst, pre, rfl, hstands,
      hleast⟩, hcolumn⟩
    obtain ⟨piece, rest, rfl, hpiece⟩ := hstands
    refine ⟨⟨earlier, _, later, hsplit, hclean, by omega, hfirst, pre, ⟨piece, rest, rfl, hpiece⟩,
      ?_, hleast⟩, hlabel⟩
    simpa using hcolumn
  · rintro ⟨⟨earlier, line, later, hsplit, hclean, hline, hfirst, pre, hstands, hcolumn, hleast⟩,
      hlabel⟩
    obtain ⟨piece, rest, rfl, hpiece⟩ := hstands
    refine ⟨earlier, _, later, hsplit, hclean, by omega, hlabel, pre.length,
      ⟨hfirst, pre, rfl, ⟨piece, rest, rfl, hpiece⟩, hleast⟩, ?_⟩
    simpa using hcolumn

/-- A document is accepted exactly if none of its lines holds a denied word, whatever entries were
left out as repetitions; otherwise the report names the first offending line, the first entry of
the list in it and the byte column of that entry. -/
theorem check_exact (extra : List String) (document : List Char) (label : String) :
    ((DenyList.ofExtra extra).check document label = .ok () ↔
        ∀ line ∈ lines document, ¬ Offends extra line) ∧
      ∀ e, (DenyList.ofExtra extra).check document label = .error e ↔
        ReportsFirst extra (lines document) e ∧ e.label = label :=
  ⟨check_eq_ok_iff, fun _ => check_eq_error_iff⟩

end SpanishLua.Proofs.Denial
