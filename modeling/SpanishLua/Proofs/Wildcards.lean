import Mathlib.Data.List.Chain
import Mathlib.Data.List.Infix
import SpanishLua.Files.PathPattern

/-!
What patterns stand for. The match of a pattern gives up for good once the text has ended, which is
sound because `**` stands only at the start of a pattern or behind a slash.
-/

namespace SpanishLua.Proofs.Wildcards

open SpanishLua.Files
open SpanishLua.Files.PathPattern

/-- The part stands for exactly one character. -/
def Single (part : PatternToken) : Prop :=
  part ≠ .anySequence ∧ part ≠ .anyComponents

/-- `skipped` holds whole components of a path that goes on with `rest`, or is all of it. -/
def Whole (skipped rest : List Char) : Prop :=
  skipped = [] ∨ rest = [] ∨ ∃ before, skipped = before ++ ['/']

/-- The texts that the parts of a pattern stand for. -/
inductive Matches : List PatternToken → List Char → Prop
  | nil : Matches [] []
  | one {part : PatternToken} {parts : List PatternToken} {c : Char} {s : List Char} :
      Single part → admits part c = true → Matches parts s → Matches (part :: parts) (c :: s)
  | sequence {parts : List PatternToken} (skipped : List Char) {s : List Char} :
      Matches parts s → Matches (.anySequence :: parts) (skipped ++ s)
  | components {parts : List PatternToken} {skipped s : List Char} :
      Whole skipped s → Matches parts s → Matches (.anyComponents :: parts) (skipped ++ s)

theorem matches_sequence_iff {parts : List PatternToken} {s : List Char} :
    Matches (.anySequence :: parts) s ↔ ∃ u, u <:+ s ∧ Matches parts u := by
  constructor
  · intro h
    cases h with
    | one hsingle => exact absurd rfl hsingle.1
    | sequence skipped hrest => exact ⟨_, List.suffix_append skipped _, hrest⟩
  · rintro ⟨u, ⟨skipped, rfl⟩, hrest⟩
    exact .sequence skipped hrest

theorem matches_components_iff {parts : List PatternToken} {s : List Char} :
    Matches (.anyComponents :: parts) s ↔
      ∃ skipped u, s = skipped ++ u ∧ Whole skipped u ∧ Matches parts u := by
  constructor
  · intro h
    cases h with
    | one hsingle => exact absurd rfl hsingle.2
    | components hwhole hrest => exact ⟨_, _, rfl, hwhole, hrest⟩
  · rintro ⟨skipped, u, rfl, hwhole, hrest⟩
    exact .components hwhole hrest

theorem matches_single_iff {part : PatternToken} (hsingle : Single part)
    {parts : List PatternToken} {s : List Char} :
    Matches (part :: parts) s ↔ ∃ c u, s = c :: u ∧ admits part c = true ∧ Matches parts u := by
  constructor
  · intro h
    cases h with
    | one _ hadmits hrest => exact ⟨_, _, rfl, hadmits, hrest⟩
    | sequence => exact absurd rfl hsingle.1
    | components => exact absurd rfl hsingle.2
  · rintro ⟨c, u, rfl, hadmits, hrest⟩
    exact .one hsingle hadmits hrest

/-- The rests of a path behind its slashes, and at last the empty one. -/
def openings : List Char → List (List Char)
  | [] => [[]]
  | c :: s => if c = '/' then s :: openings s else openings s

theorem mem_openings_iff {u s : List Char} :
    u ∈ openings s ↔ u = [] ∨ ∃ before, s = before ++ '/' :: u := by
  induction s with
  | nil => simp [openings]
  | cons c s ih =>
      have hcons : (∃ before, c :: s = before ++ '/' :: u) ↔
          (c = '/' ∧ s = u) ∨ ∃ before, s = before ++ '/' :: u := by
        constructor
        · rintro ⟨before, h⟩
          cases before with
          | nil => exact .inl (by simpa using h)
          | cons b before =>
              rw [List.cons_append, List.cons.injEq] at h
              exact .inr ⟨before, h.2⟩
        · rintro (⟨rfl, rfl⟩ | ⟨before, rfl⟩)
          · exact ⟨[], rfl⟩
          · exact ⟨c :: before, rfl⟩
      rw [hcons, openings]
      split
      · rw [List.mem_cons, ih]
        grind
      · rw [ih]
        grind

theorem mem_cons_openings_iff {u s : List Char} :
    u ∈ s :: openings s ↔ ∃ skipped, s = skipped ++ u ∧ Whole skipped u := by
  rw [List.mem_cons, mem_openings_iff]
  constructor
  · rintro (rfl | rfl | ⟨before, rfl⟩)
    · exact ⟨[], rfl, .inl rfl⟩
    · exact ⟨s, (List.append_nil s).symm, .inr (.inl rfl)⟩
    · exact ⟨before ++ ['/'], by simp, .inr (.inr ⟨before, rfl⟩)⟩
  · rintro ⟨skipped, rfl, rfl | rfl | ⟨before, rfl⟩⟩
    · exact .inl rfl
    · exact .inr (.inl rfl)
    · exact .inr (.inr ⟨before, by simp⟩)

theorem suffix_of_mem_openings {u s : List Char} (h : u ∈ s :: openings s) : u <:+ s := by
  obtain ⟨skipped, rfl, -⟩ := mem_cons_openings_iff.mp h
  exact List.suffix_append skipped u

theorem mem_openings_trans {u v s : List Char} (hv : v ∈ s :: openings s)
    (hu : u ∈ v :: openings v) : u ∈ s :: openings s := by
  rw [mem_cons_openings_iff] at hv hu ⊢
  obtain ⟨first, rfl, hfirst⟩ := hv
  obtain ⟨second, rfl, hsecond⟩ := hu
  refine ⟨first ++ second, by rw [List.append_assoc], ?_⟩
  rcases hsecond with rfl | rfl | ⟨before, rfl⟩
  · simpa using hfirst
  · exact .inr (.inl rfl)
  · exact .inr (.inr ⟨first ++ before, by simp⟩)

theorem mem_openings_of_suffix {u v s : List Char} (hu : u ∈ s :: openings s) (h : u <:+ v)
    (hv : v <:+ s) : u ∈ v :: openings v := by
  rw [mem_cons_openings_iff] at hu ⊢
  obtain ⟨before, rfl⟩ := hv
  obtain ⟨skipped, rfl⟩ := h
  obtain ⟨whole, hsplit, hwhole⟩ := hu
  refine ⟨skipped, rfl, ?_⟩
  have heq : before ++ skipped = whole := by
    rw [← List.append_assoc] at hsplit
    exact List.append_cancel_right hsplit
  rcases hwhole with rfl | rfl | ⟨start, rfl⟩
  · exact .inl (List.append_eq_nil_iff.mp heq).2
  · exact .inr (.inl rfl)
  · rcases List.eq_nil_or_concat skipped with rfl | ⟨body, last, rfl⟩
    · exact .inl rfl
    · rw [List.concat_eq_append] at heq ⊢
      rw [← List.append_assoc] at heq
      have hlast : [last] = ['/'] := List.append_inj_right' heq rfl
      exact .inr (.inr ⟨body, by rw [hlast]⟩)

theorem pairwise_tails (s : List Char) : s.tails.Pairwise fun u v => v <:+ u := by
  induction s with
  | nil => simp
  | cons c s ih =>
      rw [List.tails_cons, List.pairwise_cons]
      refine ⟨?_, ih⟩
      intro u hu
      exact ((List.mem_tails u s).mp hu).trans (List.suffix_cons c s)

theorem pairwise_openings (s : List Char) : (openings s).Pairwise fun u v => v <:+ u := by
  induction s with
  | nil => simp [openings]
  | cons c s ih =>
      rw [openings]
      split
      · rw [List.pairwise_cons]
        refine ⟨?_, ih⟩
        intro u hu
        exact suffix_of_mem_openings (List.mem_cons_of_mem s hu)
      · exact ih

theorem pairwise_cons_openings (s : List Char) :
    (s :: openings s).Pairwise fun u v => v <:+ u := by
  rw [List.pairwise_cons]
  refine ⟨?_, pairwise_openings s⟩
  intro u hu
  exact suffix_of_mem_openings (List.mem_cons_of_mem s hu)

/-- The first answer to one of the texts that is final. -/
def first (next : List Char → Outcome) : List (List Char) → Outcome
  | [] => .mismatch
  | u :: us =>
      match next u with
      | .mismatch => first next us
      | final => final

theorem sweep_eq_first (next : List Char → Outcome) (s : List Char) :
    sweep next s = first next s.tails := by
  induction s with
  | nil => cases hnext : next [] <;> simp [sweep, first, hnext]
  | cons c s ih => cases hnext : next (c :: s) <;> simp [sweep, first, hnext, ih]

theorem sweepComponents_eq_first (next : List Char → Outcome) (s : List Char) :
    sweepComponents next s = first next (openings s) := by
  induction s with
  | nil => cases hnext : next [] <;> simp [sweepComponents, openings, first, hnext]
  | cons c s ih =>
      by_cases hc : c = '/'
      · cases hnext : next s <;> simp [sweepComponents, openings, first, hc, hnext, ih]
      · simp [sweepComponents, openings, hc, ih]

theorem run_sequence (parts : List PatternToken) (s : List Char) :
    run (.anySequence :: parts) s = first (run parts) s.tails := by
  rw [run, sweep_eq_first]

theorem run_components (parts : List PatternToken) (s : List Char) :
    run (.anyComponents :: parts) s = first (run parts) (s :: openings s) := by
  cases hrun : run parts s <;> simp [run, first, hrun, sweepComponents_eq_first]

theorem run_single_nil {part : PatternToken} (h : Single part) (parts : List PatternToken) :
    run (part :: parts) [] = .tooShort := by
  cases part with
  | anySequence => exact absurd rfl h.1
  | anyComponents => exact absurd rfl h.2
  | char | anyChar | within | outside => rfl

theorem run_single_cons {part : PatternToken} (h : Single part) (parts : List PatternToken)
    (c : Char) (s : List Char) :
    run (part :: parts) (c :: s) = if admits part c then run parts s else .mismatch := by
  cases part with
  | anySequence => exact absurd rfl h.1
  | anyComponents => exact absurd rfl h.2
  | char | anyChar | within | outside => rfl

theorem first_cases {next : List Char → Outcome} {us : List (List Char)}
    (hus : us.Pairwise fun u v => v <:+ u) :
    (first next us = .mismatch ∧ ∀ u ∈ us, next u = .mismatch) ∨
      ∃ v ∈ us, first next us = next v ∧ next v ≠ .mismatch ∧
        ∀ u ∈ us, next u = .mismatch ∨ u <:+ v := by
  induction us with
  | nil => exact .inl ⟨rfl, by simp⟩
  | cons u us ih =>
      rw [List.pairwise_cons] at hus
      by_cases hnext : next u = .mismatch
      · have hfirst : first next (u :: us) = first next us := by simp [first, hnext]
        rcases ih hus.2 with ⟨hnone, hall⟩ | ⟨v, hv, hfinal, hne, hall⟩
        · refine .inl ⟨hfirst.trans hnone, ?_⟩
          simpa [hnext] using hall
        · refine .inr ⟨v, List.mem_cons_of_mem u hv, hfirst.trans hfinal, hne, ?_⟩
          simpa [hnext] using hall
      · refine .inr ⟨u, List.mem_cons_self, ?_, hnext, ?_⟩
        · rw [first]
          cases h : next u with
          | mismatch => exact absurd h hnext
          | matched | tooShort => rfl
        · rintro w (_ | ⟨_, hw⟩)
          · exact .inr List.suffix_rfl
          · exact .inr (hus.1 w hw)

theorem matches_of_first {parts : List PatternToken}
    (ih : ∀ s, run parts s = .matched → Matches parts s) {us : List (List Char)}
    (hus : us.Pairwise fun u v => v <:+ u) (h : first (run parts) us = .matched) :
    ∃ u ∈ us, Matches parts u := by
  rcases first_cases hus with ⟨hnone, -⟩ | ⟨v, hv, hfinal, -⟩
  · rw [h] at hnone
    simp at hnone
  · exact ⟨v, hv, ih v (hfinal.symm.trans h)⟩

theorem matches_of_run {parts : List PatternToken} :
    ∀ {s : List Char}, run parts s = .matched → Matches parts s := by
  induction parts with
  | nil =>
      intro s h
      cases s with
      | nil => exact .nil
      | cons c s => simp [run] at h
  | cons part parts ih =>
      intro s h
      by_cases hsequence : part = .anySequence
      · subst hsequence
        rw [run_sequence] at h
        obtain ⟨u, hu, hmatches⟩ := matches_of_first (fun s => ih) (pairwise_tails s) h
        obtain ⟨skipped, rfl⟩ := (List.mem_tails u s).mp hu
        exact .sequence skipped hmatches
      by_cases hcomponents : part = .anyComponents
      · subst hcomponents
        rw [run_components] at h
        obtain ⟨u, hu, hmatches⟩ := matches_of_first (fun s => ih) (pairwise_cons_openings s) h
        obtain ⟨skipped, rfl, hwhole⟩ := mem_cons_openings_iff.mp hu
        exact .components hwhole hmatches
      have hsingle : Single part := ⟨hsequence, hcomponents⟩
      cases s with
      | nil => simp [run_single_nil hsingle] at h
      | cons c s =>
          rw [run_single_cons hsingle] at h
          split at h
          · next hadmits => exact .one hsingle hadmits (ih h)
          · simp at h

/-- Where the text for the parts may start when a wildcard stands before them. -/
def starts : List PatternToken → List Char → List (List Char)
  | .anyComponents :: _, s => s :: openings s
  | _, s => s.tails

theorem mem_starts_of_openings {u s : List Char} (parts : List PatternToken)
    (h : u ∈ s :: openings s) : u ∈ starts parts s := by
  unfold starts
  split
  · exact h
  · exact (List.mem_tails u s).mpr (suffix_of_mem_openings h)

theorem suffix_of_mem_starts {parts : List PatternToken} {u s : List Char}
    (h : u ∈ starts parts s) : u <:+ s := by
  unfold starts at h
  split at h
  · exact suffix_of_mem_openings h
  · exact (List.mem_tails u s).mp h

/-- The part `q` may stand behind the part `p`. -/
def MayFollow (p q : PatternToken) : Prop :=
  q = .anyComponents → p = .char '/' ∨ p = .anyComponents

theorem starts_of_mayFollow {part : PatternToken} {parts : List PatternToken}
    (hchain : (part :: parts).IsChain MayFollow) (hslash : part ≠ .char '/')
    (hcomponents : part ≠ .anyComponents) (s : List Char) : starts parts s = s.tails := by
  unfold starts
  split
  · rw [List.isChain_cons_cons] at hchain
    rcases hchain.1 rfl with h | h
    · exact absurd h hslash
    · exact absurd h hcomponents
  · rfl

/-- The match of the parts finds every match, and where it gives up it is right to. -/
structure Exhaustive (parts : List PatternToken) : Prop where
  run_eq {s : List Char} : Matches parts s → run parts s = .matched
  not_matches {s u : List Char} :
    run parts s = .tooShort → u ∈ starts parts s → ¬ Matches parts u

theorem first_of_matches {parts : List PatternToken} (h : Exhaustive parts)
    {us : List (List Char)} (hus : us.Pairwise fun u v => v <:+ u)
    (hstarts : ∀ v ∈ us, ∀ u ∈ us, u <:+ v → u ∈ starts parts v) {u : List Char} (hu : u ∈ us)
    (hmatches : Matches parts u) : first (run parts) us = .matched := by
  have hrun : run parts u = .matched := h.run_eq hmatches
  rcases first_cases hus with ⟨-, hnone⟩ | ⟨v, hv, hfinal, hne, hall⟩
  · have hmismatch : run parts u = .mismatch := hnone u hu
    simp [hrun] at hmismatch
  · have hsuffix : u <:+ v := by simpa [hrun] using hall u hu
    rw [hfinal]
    cases hcase : run parts v with
    | matched => rfl
    | mismatch => exact absurd hcase hne
    | tooShort => exact absurd hmatches (h.not_matches hcase (hstarts v hv u hu hsuffix))

theorem exhaustive_sequence {parts : List PatternToken} (h : Exhaustive parts)
    (hchain : (PatternToken.anySequence :: parts).IsChain MayFollow) :
    Exhaustive (.anySequence :: parts) := by
  have hrun : ∀ {s u : List Char}, u <:+ s → Matches (.anySequence :: parts) u →
      run (.anySequence :: parts) s = .matched := by
    intro s u hu hmatches
    obtain ⟨w, hw, hrest⟩ := matches_sequence_iff.mp hmatches
    have hmem : w ∈ s.tails := (List.mem_tails w s).mpr (hw.trans hu)
    rw [run_sequence]
    apply first_of_matches h (pairwise_tails s) _ hmem hrest
    intro v _ x _ hsuffix
    rw [starts_of_mayFollow hchain (by simp) (by simp)]
    exact (List.mem_tails x v).mpr hsuffix
  constructor
  · intro s
    exact hrun List.suffix_rfl
  · intro s u hshort hu hmatches
    have hmatched := hrun ((List.mem_tails u s).mp hu) hmatches
    simp [hshort] at hmatched

theorem exhaustive_components {parts : List PatternToken} (h : Exhaustive parts) :
    Exhaustive (.anyComponents :: parts) := by
  have hrun : ∀ {s u : List Char}, u ∈ s :: openings s → Matches (.anyComponents :: parts) u →
      run (.anyComponents :: parts) s = .matched := by
    intro s u hu hmatches
    obtain ⟨skipped, w, rfl, hwhole, hrest⟩ := matches_components_iff.mp hmatches
    have hmem : w ∈ s :: openings s :=
      mem_openings_trans hu (mem_cons_openings_iff.mpr ⟨skipped, rfl, hwhole⟩)
    rw [run_components]
    apply first_of_matches h (pairwise_cons_openings s) _ hmem hrest
    intro v hv x hx hsuffix
    apply mem_starts_of_openings
    exact mem_openings_of_suffix hx hsuffix (suffix_of_mem_openings hv)
  constructor
  · intro s
    exact hrun List.mem_cons_self
  · intro s u hshort hu hmatches
    have hmatched := hrun hu hmatches
    simp [hshort] at hmatched

theorem mem_starts_of_cons {part : PatternToken} {parts : List PatternToken}
    (hsingle : Single part) (hchain : (part :: parts).IsChain MayFollow) {d : Char}
    (hadmits : admits part d = true) {c : Char} {s u : List Char} (h : d :: u <:+ c :: s) :
    u ∈ starts parts s := by
  by_cases hslash : part = .char '/'
  · have hd : d = '/' := by simpa [hslash, admits] using hadmits
    apply mem_starts_of_openings
    rw [List.mem_cons, mem_openings_iff]
    rcases List.suffix_cons_iff.mp h with heq | ⟨before, rfl⟩
    · exact .inl (List.cons.inj heq).2
    · exact .inr (.inr ⟨before, by rw [hd]⟩)
  · rw [starts_of_mayFollow hchain hslash hsingle.2, List.mem_tails]
    rcases List.suffix_cons_iff.mp h with heq | hsuffix
    · rw [(List.cons.inj heq).2]
    · exact (List.suffix_cons d u).trans hsuffix

theorem exhaustive_single {part : PatternToken} {parts : List PatternToken} (h : Exhaustive parts)
    (hsingle : Single part) (hchain : (part :: parts).IsChain MayFollow) :
    Exhaustive (part :: parts) := by
  constructor
  · intro s hmatches
    obtain ⟨c, u, rfl, hadmits, hrest⟩ := (matches_single_iff hsingle).mp hmatches
    rw [run_single_cons hsingle, if_pos hadmits, h.run_eq hrest]
  · intro s v hshort hv hmatches
    obtain ⟨d, u, rfl, hadmits, hrest⟩ := (matches_single_iff hsingle).mp hmatches
    have hsuffix : d :: u <:+ s := suffix_of_mem_starts hv
    cases s with
    | nil => simp at hsuffix
    | cons c s =>
        rw [run_single_cons hsingle] at hshort
        split at hshort
        · exact h.not_matches hshort (mem_starts_of_cons hsingle hchain hadmits hsuffix) hrest
        · simp at hshort

theorem exhaustive_of_isChain {parts : List PatternToken} (h : parts.IsChain MayFollow) :
    Exhaustive parts := by
  induction parts with
  | nil =>
      constructor
      · rintro s ⟨⟩
        rfl
      · intro s u hshort
        cases s <;> simp [run] at hshort
  | cons part parts ih =>
      have hparts : Exhaustive parts := ih h.tail
      by_cases hsequence : part = .anySequence
      · subst hsequence
        exact exhaustive_sequence hparts h
      by_cases hcomponents : part = .anyComponents
      · subst hcomponents
        exact exhaustive_components hparts
      exact exhaustive_single hparts ⟨hsequence, hcomponents⟩ h

theorem exists_of_bracketed? {s inner after : List Char}
    (h : bracketed? s = some (inner, after)) : ∃ taken, s = taken ++ ']' :: after := by
  cases s with
  | nil => simp [bracketed?] at h
  | cons c s =>
      rw [bracketed?] at h
      split at h
      · simp at h
      · next d rest hdrop =>
          obtain rfl : d = ']' := by
            have hhead := List.head?_dropWhile_not (· != ']') s
            simpa [hdrop] using hhead
          rw [Option.some.injEq, Prod.mk.injEq] at h
          obtain ⟨-, rfl⟩ := h
          refine ⟨c :: s.takeWhile (· != ']'), ?_⟩
          rw [List.cons_append, ← hdrop, List.takeWhile_append_dropWhile]

theorem exists_of_choice? {s : List Char} {part : PatternToken} {after : List Char}
    (h : choice? s = some (part, after)) :
    part ≠ .anyComponents ∧ ∃ taken, s = taken ++ ']' :: after := by
  unfold choice? at h
  split at h
  · obtain ⟨⟨inner, rest⟩, hbracketed, heq⟩ := Option.map_eq_some_iff.mp h
    obtain ⟨taken, rfl⟩ := exists_of_bracketed? hbracketed
    rw [Prod.mk.injEq] at heq
    obtain ⟨rfl, rfl⟩ := heq
    exact ⟨by simp, '!' :: taken, rfl⟩
  · obtain ⟨⟨inner, rest⟩, hbracketed, heq⟩ := Option.map_eq_some_iff.mp h
    obtain ⟨taken, rfl⟩ := exists_of_bracketed? hbracketed
    rw [Prod.mk.injEq] at heq
    obtain ⟨rfl, rfl⟩ := heq
    exact ⟨by simp, taken, rfl⟩

/-- The parts, last first, that the characters `before`, nearest first, gave are in order, and
nothing stands between a slash and its part. -/
structure Placed (before : List Char) (parts : List PatternToken) : Prop where
  isChain : parts.IsChain fun q p => MayFollow p q
  nil : before = [] → parts = []
  slash : before.head? = some '/' →
    ∃ part rest, parts = part :: rest ∧ (part = .char '/' ∨ part = .anyComponents)

theorem placed_cons {before passed : List Char} {part : PatternToken} {parts : List PatternToken}
    (h : Placed before parts) (hpart : part ≠ .anyComponents)
    (hpassed : passed ≠ []) (hslash : passed.head? = some '/' → part = .char '/') :
    Placed passed (part :: parts) where
  isChain := by
    cases parts with
    | nil => exact List.isChain_singleton part
    | cons p parts => exact List.isChain_cons_cons.mpr ⟨fun e => absurd e hpart, h.isChain⟩
  nil := fun e => absurd e hpassed
  slash := fun e => ⟨part, parts, rfl, .inl (hslash e)⟩

theorem placed_addComponents {before passed : List Char} {parts : List PatternToken}
    (h : Placed before parts) (hbefore : before.head?.all (· == '/') = true)
    (hpassed : passed ≠ []) : Placed passed (addComponents parts) := by
  have hhead : ∃ rest, addComponents parts = .anyComponents :: rest := by
    unfold addComponents
    split
    · exact ⟨_, rfl⟩
    · exact ⟨parts, rfl⟩
  have hcons : (PatternToken.anyComponents :: parts).IsChain fun q p => MayFollow p q := by
    cases before with
    | nil =>
        rw [h.nil rfl]
        exact List.isChain_singleton _
    | cons c before =>
        obtain ⟨part, rest, rfl, hpart⟩ := h.slash (by simpa using hbefore)
        exact List.isChain_cons_cons.mpr ⟨fun _ => hpart, h.isChain⟩
  obtain ⟨rest, hrest⟩ := hhead
  constructor
  · unfold addComponents
    split
    · exact h.isChain
    · exact hcons
  · intro e
    exact absurd e hpassed
  · intro _
    exact ⟨_, rest, hrest, .inr rfl⟩

theorem isChain_of_parseFrom {before : List Char} {parts : List PatternToken} {fuel : Nat}
    {s : List Char} {tokens : List PatternToken} (h : Placed before parts)
    (hparse : parseFrom before parts fuel s = .ok tokens) : tokens.IsChain MayFollow := by
  fun_induction parseFrom before parts fuel s with
  | case1 | case2 =>
      rw [Except.ok.injEq] at hparse
      rw [← hparse, List.isChain_reverse]
      exact h.isChain
  | case3 before parts fuel rest ih =>
      exact ih (placed_cons h (by simp) (by simp) (by simp)) hparse
  | case4 before parts fuel rest more after passed hmore ih =>
      exact ih (placed_cons h (by simp) (by simp [passed]) (by simp [passed, hmore])) hparse
  | case5 before parts fuel rest more after passed _ _ hslash _ ih =>
      exact ih (placed_addComponents h hslash (by simp [passed])) hparse
  | case6 before parts fuel rest more _ passed _ _ hslash after _ ih =>
      exact ih (placed_addComponents h hslash (by simp)) hparse
  | case7 | case8 | case9 | case10 => simp at hparse
  | case11 before parts fuel rest part after hchoice taken ih =>
      obtain ⟨hpart, inner, rfl⟩ := exists_of_choice? hchoice
      have htaken : taken = inner ++ [']'] := by
        have hsplit : inner ++ ']' :: after = inner ++ [']'] ++ after :=
          List.append_cons inner ']' after
        have hlength : (inner ++ [']']).length =
            (inner ++ [']'] ++ after).length - after.length := by
          rw [@List.length_append _ _ after, Nat.add_sub_cancel]
        simp only [taken, hsplit]
        exact List.take_left' hlength
      exact ih (placed_cons h hpart (by simp) (by simp [htaken])) hparse
  | case12 before parts fuel c rest _ _ _ ih =>
      exact ih (placed_cons h (by simp) (by simp) (by simp)) hparse

/-- A pattern matches the paths that its parts stand for. -/
theorem isMatch_iff {text : List Char} {p : PathPattern} (h : PathPattern.parse text = .ok p)
    {path : List Char} : p.isMatch path = true ↔ Matches p.tokens path := by
  have hchain : p.tokens.IsChain MayFollow := by
    unfold PathPattern.parse at h
    cases hparse : parseFrom [] [] text.length text with
    | error e => simp [hparse, Except.map] at h
    | ok tokens =>
        obtain rfl : ⟨tokens⟩ = p := by simpa [hparse, Except.map] using h
        exact isChain_of_parseFrom ⟨List.isChain_nil, fun _ => rfl, by simp⟩ hparse
  rw [isMatch, beq_iff_eq]
  constructor
  · exact matches_of_run
  · exact (exhaustive_of_isChain hchain).run_eq

end SpanishLua.Proofs.Wildcards
