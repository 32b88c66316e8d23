import SpanishLua.Proofs.Lines
import SpanishLua.Proofs.Places

namespace SpanishLua.Proofs.ArgumentLists

open SpanishLua.Code
open SpanishLua.Text
open SpanishLua.Proofs.Lines
open SpanishLua.Proofs.Places

/-- The opening brackets of a text less its closing ones, whatever their kind. -/
def depth (s : List Char) : Int :=
  s.countP isOpener - s.countP isCloser

/-- From depth `d` on, the text closes only what is open, and it has no comma at depth zero. -/
structure Inside (d : Int) (a : List Char) : Prop where
  closes : ∀ p, p <+: a → 0 ≤ d + depth p
  commas : ∀ p, p ++ [','] <+: a → d + depth p ≠ 0

/-- Arguments before `rest` end at depth zero. Only the last one may end deeper, and only where the
text ends. -/
def Level (rest : List Char) (arguments : List (List Char)) : Prop :=
  ∀ before a after, arguments = before ++ a :: after → depth a = 0 ∨ after = [] ∧ rest = []

/-- The text is made up of arguments with commas between them, then of nothing or of a closing
bracket and what follows it. -/
structure Cut (s : List Char) (arguments : List (List Char)) (rest : List Char) : Prop where
  nonempty : arguments ≠ []
  text : s = [','].intercalate arguments ++ rest
  stops : rest = [] ∨ ∃ c tail, rest = c :: tail ∧ isCloser c = true
  inside : ∀ a ∈ arguments, Inside 0 a
  level : Level rest arguments

/-- The scan goes over `p` from depth `m` to depth `n` and counts `k` commas on its way, whatever
comes behind. -/
def Reads (p : List Char) (m n k : Nat) : Prop :=
  ∀ s, scanArguments m (p ++ s) = (p ++ (scanArguments n s).1, k + (scanArguments n s).2)

section Depth

variable {c : Char}

@[simp] theorem depth_nil : depth [] = 0 := rfl

theorem depth_cons (c : Char) (s : List Char) : depth (c :: s) = depth [c] + depth s := by
  simp only [depth, List.countP_cons, List.countP_nil]
  omega

theorem isCloser_of_isOpener (hc : isOpener c = true) : isCloser c = false := by
  simp only [isOpener, Bool.or_eq_true, beq_iff_eq] at hc
  rcases hc with (rfl | rfl) | rfl <;> rfl

theorem depth_opener (hc : isOpener c = true) : depth [c] = 1 := by
  simp [depth, hc, isCloser_of_isOpener hc]

theorem isOpener_of_isCloser (hc : isCloser c = true) : isOpener c = false := by
  simp only [isCloser, Bool.or_eq_true, beq_iff_eq] at hc
  rcases hc with (rfl | rfl) | rfl <;> rfl

theorem depth_closer (hc : isCloser c = true) : depth [c] = -1 := by
  simp [depth, hc, isOpener_of_isCloser hc]

theorem depth_other (hopener : isOpener c = false) (hcloser : isCloser c = false) :
    depth [c] = 0 := by
  simp [depth, hopener, hcloser]

theorem inside_nil {d : Int} : Inside d [] ↔ 0 ≤ d := by
  constructor
  · intro h
    simpa using h.closes [] List.nil_prefix
  · intro h
    refine ⟨fun p hp => ?_, fun p hp => ?_⟩
    · simpa [List.prefix_nil.mp hp] using h
    · simp at hp

theorem inside_cons {d : Int} {a : List Char} :
    Inside d (c :: a) ↔ 0 ≤ d ∧ ¬ (c = ',' ∧ d = 0) ∧ Inside (d + depth [c]) a := by
  constructor
  · intro h
    refine ⟨by simpa using h.closes [] List.nil_prefix, ?_, fun p hp => ?_, fun p hp => ?_⟩
    · rintro ⟨rfl, rfl⟩
      exact h.commas [] (by simp) rfl
    · have hclosed := h.closes (c :: p) (by simpa using hp)
      rwa [depth_cons, ← Int.add_assoc] at hclosed
    · have hcomma := h.commas (c :: p) (by simpa using hp)
      rwa [depth_cons, ← Int.add_assoc] at hcomma
  · rintro ⟨hd, hcomma, htail⟩
    refine ⟨fun p hp => ?_, fun p hp => ?_⟩
    · rcases p with _ | ⟨c', p⟩
      · simpa using hd
      · obtain ⟨rfl, htake⟩ := List.cons_prefix_cons.mp hp
        rw [depth_cons, ← Int.add_assoc]
        exact htail.closes p htake
    · rcases p with _ | ⟨c', p⟩
      · obtain ⟨rfl, -⟩ := List.cons_prefix_cons.mp hp
        simpa using hcomma
      · obtain ⟨rfl, htake⟩ := List.cons_prefix_cons.mp hp
        rw [depth_cons, ← Int.add_assoc]
        exact htail.commas p htake

end Depth

section Scan

variable {c : Char} {p s : List Char}

theorem scanArguments_comma (s : List Char) :
    scanArguments 0 (',' :: s) = (',' :: (scanArguments 0 s).1, (scanArguments 0 s).2 + 1) := by
  rw [scanArguments]
  rfl

theorem scanArguments_stop (hc : isCloser c = true) (s : List Char) :
    scanArguments 0 (c :: s) = ([], 0) := by
  simp [scanArguments, isOpener_of_isCloser hc, hc]

theorem scan_cases (d : Nat) (c : Char) :
    (c = ',' ∧ d = 0) ∨ (isCloser c = true ∧ d = 0) ∨
      ∃ n : Nat, (n : Int) = d + depth [c] ∧ ¬ (c = ',' ∧ d = 0) ∧
        ∀ s, scanArguments d (c :: s) = (c :: (scanArguments n s).1, (scanArguments n s).2) := by
  cases hopener : isOpener c with
  | true =>
      refine .inr (.inr ⟨d + 1, by rw [depth_opener hopener]; rfl, ?_, fun s => ?_⟩)
      · rintro ⟨rfl, -⟩
        exact absurd hopener (by decide)
      · cases d <;> simp [scanArguments, hopener]
  | false =>
      cases hcloser : isCloser c with
      | true =>
          cases d with
          | zero => exact .inr (.inl ⟨rfl, rfl⟩)
          | succ d =>
              refine .inr (.inr ⟨d, ?_, by simp, fun s => ?_⟩)
              · rw [depth_closer hcloser]
                omega
              · simp [scanArguments, hopener, hcloser]
      | false =>
          by_cases hcomma : c = ',' ∧ d = 0
          · exact .inl hcomma
          · refine .inr (.inr ⟨d, by simp [depth_other hopener hcloser], hcomma, fun s => ?_⟩)
            have hcount : (c == ',' && d == 0) = false := by
              simpa using hcomma
            cases d <;> simp_all [scanArguments]

/-- What the scan has read never closes more than it opens, and the counter is at its depth. -/
theorem exists_reads {m : Nat} (h : p <+: (scanArguments m s).1) :
    ∃ n k : Nat, (n : Int) = m + depth p ∧ Reads p m n k := by
  induction p generalizing m s with
  | nil => exact ⟨m, 0, by simp, fun s => by simp⟩
  | cons c p ih =>
      rcases s with _ | ⟨c', s⟩
      · simp [scanArguments] at h
      · rcases scan_cases m c' with ⟨rfl, rfl⟩ | ⟨hcloser, rfl⟩ | ⟨next, hnext, -, hscan⟩
        · rw [scanArguments_comma] at h
          obtain ⟨rfl, hp⟩ := List.cons_prefix_cons.mp h
          obtain ⟨n, k, hn, hreads⟩ := ih hp
          have hcomma : depth [','] = 0 := rfl
          refine ⟨n, k + 1, by rw [hn, depth_cons, hcomma, Int.zero_add], fun s => ?_⟩
          rw [List.cons_append, scanArguments_comma, hreads]
          simp only [List.cons_append, Nat.add_right_comm]
        · rw [scanArguments_stop hcloser] at h
          simp at h
        · rw [hscan] at h
          obtain ⟨rfl, hp⟩ := List.cons_prefix_cons.mp h
          obtain ⟨n, k, hn, hreads⟩ := ih hp
          refine ⟨n, k, by rw [hn, hnext, depth_cons c p, Int.add_assoc], fun s => ?_⟩
          rw [List.cons_append, hscan, hreads]
          rfl

end Scan

/-- A cut of a text whose first argument has been read to depth `d`. -/
structure CutFrom (d : Nat) (s first : List Char) (others : List (List Char)) (rest : List Char) :
    Prop where
  text : s = first ++ (others.flatMap (',' :: ·) ++ rest)
  stops : rest = [] ∨ ∃ c tail, rest = c :: tail ∧ isCloser c = true
  insideFirst : Inside d first
  levelFirst : d + depth first = 0 ∨ others = [] ∧ rest = []
  inside : ∀ a ∈ others, Inside 0 a
  level : Level rest others

section Steps

variable {c : Char} {d n : Nat} {s first rest : List Char} {others : List (List Char)}

theorem level_cons_iff :
    Level rest (first :: others) ↔
      (depth first = 0 ∨ others = [] ∧ rest = []) ∧ Level rest others := by
  constructor
  · intro h
    refine ⟨h [] first others rfl, fun before a after hsplit => ?_⟩
    exact h (first :: before) a after (by rw [hsplit]; rfl)
  · rintro ⟨hfirst, hothers⟩ before a after hsplit
    rcases before with _ | ⟨b, before⟩
    · obtain ⟨rfl, rfl⟩ := List.cons.inj hsplit
      exact hfirst
    · exact hothers before a after (List.cons.inj hsplit).2

theorem intercalate_eq_append_flatMap (first : List Char) (others : List (List Char)) :
    [','].intercalate (first :: others) = first ++ others.flatMap (',' :: ·) := by
  induction others generalizing first with
  | nil => simp
  | cons a others ih => rw [List.intercalate_cons_cons, ih]; simp

theorem cut_cons_iff : Cut s (first :: others) rest ↔ CutFrom 0 s first others rest := by
  constructor
  · rintro ⟨-, htext, hstops, hinside, hlevel⟩
    obtain ⟨hinsideFirst, hinside⟩ := List.forall_mem_cons.mp hinside
    obtain ⟨hlevelFirst, hlevel⟩ := level_cons_iff.mp hlevel
    rw [intercalate_eq_append_flatMap, List.append_assoc] at htext
    exact ⟨htext, hstops, hinsideFirst, by simpa using hlevelFirst, hinside, hlevel⟩
  · rintro ⟨htext, hstops, hinsideFirst, hlevelFirst, hinside, hlevel⟩
    refine ⟨by simp, ?_, hstops, List.forall_mem_cons.mpr ⟨hinsideFirst, hinside⟩,
      level_cons_iff.mpr ⟨by simpa using hlevelFirst, hlevel⟩⟩
    rw [htext, intercalate_eq_append_flatMap, List.append_assoc]

theorem cutFrom_nil : CutFrom d [] first others rest ↔ first = [] ∧ others = [] ∧ rest = [] := by
  constructor
  · rintro ⟨htext, -⟩
    obtain ⟨rfl, htail⟩ := List.append_eq_nil_iff.mp htext.symm
    obtain ⟨hothers, rfl⟩ := List.append_eq_nil_iff.mp htail
    rcases others with _ | ⟨a, others⟩
    · exact ⟨rfl, rfl, rfl⟩
    · simp at hothers
  · rintro ⟨rfl, rfl, rfl⟩
    exact ⟨rfl, .inl rfl, inside_nil.mpr (by simp), .inr ⟨rfl, rfl⟩, by simp, by simp [Level]⟩

theorem CutFrom.of_nil (h : CutFrom d (c :: s) [] others rest) :
    d = 0 ∧ (c = ',' ∧ (∃ a more, others = a :: more ∧ CutFrom 0 s a more rest) ∨
      isCloser c = true ∧ others = [] ∧ rest = c :: s) := by
  obtain ⟨htext, hstops, -, hlevelFirst, hinside, hlevel⟩ := h
  rcases others with _ | ⟨a, more⟩
  · obtain rfl : c :: s = rest := htext
    rcases hstops with hnil | ⟨c', tail, hrest, hcloser⟩
    · simp at hnil
    · obtain ⟨rfl, -⟩ := List.cons.inj hrest
      exact ⟨by simpa using hlevelFirst, .inr ⟨hcloser, rfl, rfl⟩⟩
  · obtain ⟨hinsideFirst, hinside⟩ := List.forall_mem_cons.mp hinside
    obtain ⟨hlevelNext, hlevel⟩ := level_cons_iff.mp hlevel
    simp only [List.nil_append, List.flatMap_cons, List.cons_append, List.append_assoc,
      List.cons.injEq] at htext
    exact ⟨by simpa using hlevelFirst, .inl ⟨htext.1, a, more, rfl, htext.2, hstops, hinsideFirst,
      by simpa using hlevelNext, hinside, hlevel⟩⟩

theorem CutFrom.of_cons {c' : Char} (h : CutFrom d (c :: s) (c' :: first) others rest) :
    c' = c ∧ ¬ (c = ',' ∧ d = 0) ∧ 0 ≤ d + depth [c] := by
  obtain ⟨rfl, -⟩ := List.cons.inj h.text
  obtain ⟨-, hcomma, htail⟩ := inside_cons.mp h.insideFirst
  exact ⟨rfl, by simpa using hcomma, by simpa using htail.closes [] List.nil_prefix⟩

theorem cutFrom_comma :
    CutFrom 0 (',' :: s) first others rest ↔
      first = [] ∧ ∃ a more, others = a :: more ∧ CutFrom 0 s a more rest := by
  constructor
  · intro h
    rcases first with _ | ⟨c, first⟩
    · obtain ⟨-, ⟨-, hmore⟩ | ⟨hcloser, -⟩⟩ := h.of_nil
      · exact ⟨rfl, hmore⟩
      · exact absurd hcloser (by decide)
    · exact absurd ⟨rfl, rfl⟩ h.of_cons.2.1
  · rintro ⟨rfl, a, more, rfl, rfl, hstops, hinsideFirst, hlevelFirst, hinside, hlevel⟩
    exact ⟨by simp, hstops, inside_nil.mpr (by simp), .inl rfl,
      List.forall_mem_cons.mpr ⟨hinsideFirst, hinside⟩,
      level_cons_iff.mpr ⟨by simpa using hlevelFirst, hlevel⟩⟩

theorem cutFrom_stop (hc : isCloser c = true) :
    CutFrom 0 (c :: s) first others rest ↔ first = [] ∧ others = [] ∧ rest = c :: s := by
  constructor
  · intro h
    rcases first with _ | ⟨c', first⟩
    · obtain ⟨-, ⟨rfl, -⟩ | ⟨-, hrest⟩⟩ := h.of_nil
      · exact absurd hc (by decide)
      · exact ⟨rfl, hrest⟩
    · have hclosed := h.of_cons.2.2
      rw [depth_closer hc] at hclosed
      exact absurd hclosed (by decide)
  · rintro ⟨rfl, rfl, rfl⟩
    exact ⟨rfl, .inr ⟨c, s, rfl, hc⟩, inside_nil.mpr (by simp), .inl rfl, by simp, by simp [Level]⟩

theorem cutFrom_kept (hn : (n : Int) = d + depth [c]) (hcomma : ¬ (c = ',' ∧ d = 0)) :
    CutFrom d (c :: s) first others rest ↔
      ∃ tail, first = c :: tail ∧ CutFrom n s tail others rest := by
  constructor
  · intro h
    rcases first with _ | ⟨c', first⟩
    · obtain ⟨rfl, ⟨rfl, -⟩ | ⟨hcloser, -⟩⟩ := h.of_nil
      · exact absurd ⟨rfl, rfl⟩ hcomma
      · rw [depth_closer hcloser] at hn
        omega
    · obtain ⟨rfl, -⟩ := h.of_cons
      obtain ⟨htext, hstops, hinsideFirst, hlevelFirst, hinside, hlevel⟩ := h
      have htail := (inside_cons.mp hinsideFirst).2.2
      rw [← hn] at htail
      rw [depth_cons, ← Int.add_assoc, ← hn] at hlevelFirst
      exact ⟨first, rfl, (List.cons.inj htext).2, hstops, htail, hlevelFirst, hinside, hlevel⟩
  · rintro ⟨tail, rfl, rfl, hstops, htail, hlevelFirst, hinside, hlevel⟩
    rw [hn] at htail hlevelFirst
    refine ⟨rfl, hstops, inside_cons.mpr ⟨by simp, by simpa using hcomma, htail⟩, ?_, hinside,
      hlevel⟩
    rwa [depth_cons, ← Int.add_assoc]

end Steps

theorem exists_cutFrom (d : Nat) (s : List Char) :
    ∃ first others rest, CutFrom d s first others rest ∧
      scanArguments d s = (first ++ others.flatMap (',' :: ·), others.length) := by
  -- the depth is general: behind a bracket the same argument goes on at another one
  induction s generalizing d with
  | nil => exact ⟨[], [], [], cutFrom_nil.mpr ⟨rfl, rfl, rfl⟩, by cases d <;> rfl⟩
  | cons c s ih =>
      rcases scan_cases d c with ⟨rfl, rfl⟩ | ⟨hcloser, rfl⟩ | ⟨n, hn, hcomma, hscan⟩
      · obtain ⟨a, more, rest, hcut, hscan⟩ := ih 0
        refine ⟨[], a :: more, rest, cutFrom_comma.mpr ⟨rfl, a, more, rfl, hcut⟩, ?_⟩
        rw [scanArguments_comma, hscan]
        simp
      · refine ⟨[], [], c :: s, (cutFrom_stop hcloser).mpr ⟨rfl, rfl, rfl⟩, ?_⟩
        rw [scanArguments_stop hcloser]
        rfl
      · obtain ⟨tail, others, rest, hcut, htail⟩ := ih n
        refine ⟨c :: tail, others, rest, (cutFrom_kept hn hcomma).mpr ⟨tail, rfl, hcut⟩, ?_⟩
        rw [hscan, htail]
        rfl

theorem CutFrom.unique {d : Nat} {s first first' rest rest' : List Char}
    {others others' : List (List Char)} (h : CutFrom d s first others rest)
    (h' : CutFrom d s first' others' rest') : first = first' ∧ others = others' ∧ rest = rest' := by
  induction s generalizing d first others first' others' with
  | nil =>
      obtain ⟨rfl, rfl, rfl⟩ := cutFrom_nil.mp h
      obtain ⟨rfl, rfl, rfl⟩ := cutFrom_nil.mp h'
      exact ⟨rfl, rfl, rfl⟩
  | cons c s ih =>
      rcases scan_cases d c with ⟨rfl, rfl⟩ | ⟨hcloser, rfl⟩ | ⟨n, hn, hcomma, -⟩
      · obtain ⟨rfl, a, more, rfl, hcut⟩ := cutFrom_comma.mp h
        obtain ⟨rfl, a', more', rfl, hcut'⟩ := cutFrom_comma.mp h'
        obtain ⟨rfl, rfl, rfl⟩ := ih hcut hcut'
        exact ⟨rfl, rfl, rfl⟩
      · obtain ⟨rfl, rfl, rfl⟩ := (cutFrom_stop hcloser).mp h
        obtain ⟨rfl, rfl, rfl⟩ := (cutFrom_stop hcloser).mp h'
        exact ⟨rfl, rfl, rfl⟩
      · obtain ⟨tail, rfl, hcut⟩ := (cutFrom_kept hn hcomma).mp h
        obtain ⟨tail', rfl, hcut'⟩ := (cutFrom_kept hn hcomma).mp h'
        obtain ⟨rfl, rfl, rfl⟩ := ih hcut hcut'
        exact ⟨rfl, rfl, rfl⟩

theorem trim_isEmpty_iff {s : List Char} : (trim s).isEmpty = true ↔ Blank s := by
  rw [List.isEmpty_iff]
  constructor
  · exact trim_eq_nil
  · intro h
    have hstart : trimStart s = [] := List.dropWhile_eq_nil_iff.mpr h
    rw [trim, hstart]
    rfl

/-- A text has one cut into arguments. Their number is the count, but for one blank argument, which
counts as none, and their text is the text of the count. All the while the counter of the scan is
the depth of what has been read, so it never falls below zero. -/
theorem countArguments_exact (s : List Char) :
    ∃ arguments rest, Cut s arguments rest ∧
      (∀ arguments' rest', Cut s arguments' rest' → arguments' = arguments ∧ rest' = rest) ∧
      (countArguments s).2 = [','].intercalate arguments ∧
      ((∃ a, arguments = [a] ∧ Blank a) → (countArguments s).1 = 0) ∧
      ((¬ ∃ a, arguments = [a] ∧ Blank a) → (countArguments s).1 = arguments.length) ∧
      ∀ p, p <+: (countArguments s).2 → ∃ n k : Nat, depth p = n ∧ Reads p 0 n k := by
  obtain ⟨first, others, rest, hcut, hscan⟩ := exists_cutFrom 0 s
  have hcount : countArguments s =
      (if others.length = 0 ∧ (trim (first ++ others.flatMap (',' :: ·))).isEmpty then 0
        else others.length + 1, first ++ others.flatMap (',' :: ·)) := by
    rw [countArguments, hscan]
  refine ⟨first :: others, rest, cut_cons_iff.mpr hcut, ?_, ?_, ?_, ?_, ?_⟩
  · intro arguments' rest' hcut'
    obtain ⟨first', others', rfl⟩ := List.exists_cons_of_ne_nil hcut'.nonempty
    obtain ⟨rfl, rfl, rfl⟩ := (cut_cons_iff.mp hcut').unique hcut
    exact ⟨rfl, rfl⟩
  · rw [hcount, intercalate_eq_append_flatMap]
  · rintro ⟨a, hone, hblank⟩
    obtain ⟨rfl, rfl⟩ := List.cons.inj hone
    rw [hcount, if_pos ⟨rfl, by simpa using trim_isEmpty_iff.mpr hblank⟩]
  · intro hmany
    rw [hcount, if_neg]
    · rfl
    · rintro ⟨hlength, hempty⟩
      obtain rfl := List.length_eq_zero_iff.mp hlength
      exact hmany ⟨first, rfl, trim_isEmpty_iff.mp (by simpa using hempty)⟩
  · intro p hp
    obtain ⟨n, k, hn, hreads⟩ := exists_reads hp
    exact ⟨n, k, by simpa using hn.symm, hreads⟩

-- A bracket closes another one of whatever kind.
example : countArguments "f(1, 2], 3) .. x".toList = (2, "f(1, 2], 3".toList) := by decide

end SpanishLua.Proofs.ArgumentLists
