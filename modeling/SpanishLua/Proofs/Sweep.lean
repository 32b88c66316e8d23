import SpanishLua.Proofs.Partition
import SpanishLua.Proofs.Recognisers
import SpanishLua.Translator

/-!
The sweep that names services in literals. It reads its neighbours while it changes segments, and
still comes to the same as changing every segment at once by its neighbours as they were.
-/

namespace SpanishLua.Proofs.Sweep

open SpanishLua.Code
open SpanishLua.Text
open SpanishLua.Proofs.Characters
open SpanishLua.Proofs.Recognisers
open SpanishLua.Proofs.Scanning

/-- A segment after the sweep, by its neighbours before it. -/
def renamed (services : Vocabulary) (previous : Option Segment) (s : Segment)
    (next : Option Segment) : Segment :=
  match previous, next with
  | some previous, some next =>
      if Service.isLookupArgument previous next then Service.named services s else s
  | _, _ => s

/-- All segments after the sweep, each by its neighbours before it. -/
def nameEach (services : Vocabulary) : Option Segment → List Segment → List Segment
  | _, [] => []
  | previous, s :: rest =>
      renamed services previous s rest.head? :: nameEach services (some s) rest

theorem named_code (services : Vocabulary) (code : List Char) :
    Service.named services (.code code) = .code code :=
  rfl

theorem exists_named_literal (services : Vocabulary) (text : List Char) :
    ∃ text', Service.named services (.literal text) = .literal text' := by
  unfold Service.named
  split
  · exact ⟨text, rfl⟩
  · split
    · exact ⟨text, rfl⟩
    · exact ⟨_, rfl⟩

theorem renamed_code (services : Vocabulary) (previous : Option Segment) (code : List Char)
    (next : Option Segment) : renamed services previous (.code code) next = .code code := by
  unfold renamed
  split
  · rw [named_code, ite_self]
  · rfl

theorem exists_renamed_literal (services : Vocabulary) (previous : Option Segment)
    (text : List Char) (next : Option Segment) :
    ∃ text', renamed services previous (.literal text) next = .literal text' := by
  unfold renamed
  split
  · split
    · exact exists_named_literal services text
    · exact ⟨text, rfl⟩
  · exact ⟨text, rfl⟩

theorem isLookupArgument_renamed (services : Vocabulary) (previous : Option Segment) (s : Segment)
    (next : Option Segment) (following : Segment) :
    Service.isLookupArgument (renamed services previous s next) following =
      Service.isLookupArgument s following := by
  cases s with
  | code code => rw [renamed_code]
  | literal text =>
      obtain ⟨text', htext⟩ := exists_renamed_literal services previous text next
      rw [htext]
      rfl

theorem nameAfter_eq_nameEach (services : Vocabulary) (segments : List Segment)
    {previous original : Segment}
    (halike : ∀ following, Service.isLookupArgument previous following =
      Service.isLookupArgument original following) :
    Service.nameAfter services previous segments =
      nameEach services (some original) segments := by
  -- the sweep goes on from the changed segment, which opens the same lookups as the original one
  induction segments generalizing previous original with
  | nil => rfl
  | cons s rest ih =>
      rcases rest with _ | ⟨next, rest⟩
      · rfl
      · have hcurrent : (if Service.isLookupArgument previous next then Service.named services s
            else s) = renamed services (some original) s (some next) := by
          rw [halike next]
          rfl
        rw [Service.nameAfter, hcurrent, nameEach, List.head?_cons]
        exact congrArg _ (ih (isLookupArgument_renamed services (some original) s (some next)))

theorem nameAll_eq_nameEach (services : Vocabulary) (segments : List Segment) :
    Service.nameAll services segments = nameEach services none segments := by
  rcases segments with _ | ⟨first, rest⟩
  · rfl
  · exact congrArg _ (nameAfter_eq_nameEach services rest fun _ => rfl)

/-- The code of a segment, none for a literal. -/
def codeText? : Segment → Option (List Char)
  | .code code => some code
  | .literal _ => none

theorem map_codeText?_nameEach (services : Vocabulary) (previous : Option Segment)
    (segments : List Segment) :
    (nameEach services previous segments).map codeText? = segments.map codeText? := by
  induction segments generalizing previous with
  | nil => rfl
  | cons s rest ih =>
      rw [nameEach, List.map_cons, List.map_cons, ih]
      cases s with
      | code code => rw [renamed_code]
      | literal text =>
          obtain ⟨text', htext⟩ := exists_renamed_literal services previous text rest.head?
          rw [htext]
          rfl

theorem dropBytes?_cons (c : Char) (n : Nat) (s : List Char) :
    dropBytes? (c.utf8Size + n) (c :: s) = dropBytes? n s := by
  obtain ⟨m, hm⟩ := Nat.exists_eq_succ_of_ne_zero (Nat.pos_iff_ne_zero.mp c.utf8Size_pos)
  have hbytes : c.utf8Size + n = m + n + 1 := by omega
  have hrest : m + n + 1 - c.utf8Size = n := by omega
  rw [hbytes, dropBytes?, if_pos (by omega), hrest]

theorem dropBytes?_utf8Size (c : Char) (s : List Char) :
    dropBytes? c.utf8Size (c :: s) = some s := by
  have hcons := dropBytes?_cons c 0 s
  rwa [Nat.add_zero, dropBytes?] at hcons

theorem body?_quoted (quote : Char) (body : List Char) :
    (Segment.literal (quote :: body ++ [quote])).body? = some (quote, body) := by
  simp [Segment.body?, dropBytes?_utf8Size]

/-- The code ends in the accessor as a word of its own and an opening parenthesis. -/
def EndsInLookup (code : List Char) : Prop :=
  ∃ start gap gap', code = start ++ Service.accessor ++ gap ++ '(' :: gap' ∧
    headIsWord start.reverse = false ∧ (∀ c ∈ gap, isBlank c = true) ∧
    ∀ c ∈ gap', isBlank c = true

/-- The code starts with a closing parenthesis. -/
def StartsClosing (code : List Char) : Prop :=
  ∃ gap rest, code = gap ++ ')' :: rest ∧ ∀ c ∈ gap, isBlank c = true

theorem closesLookup_iff {code : List Char} :
    Service.closesLookup code = true ↔ StartsClosing code := by
  constructor
  · intro h
    unfold Service.closesLookup at h
    split at h
    · rename_i rest hdrop
      refine ⟨code.takeWhile isBlank, rest, ?_, fun c hc => List.mem_takeWhile_imp hc⟩
      rw [← hdrop, List.takeWhile_append_dropWhile]
    · simp at h
  · rintro ⟨gap, rest, rfl, hgap⟩
    have hparen : isBlank ')' = false := by decide
    rw [Service.closesLookup, List.dropWhile_append_of_pos hgap]
    simp [hparen]

theorem dropWhile_isBlank_wordRun {s : List Char} (h : WordRun s) (t : List Char) :
    (s ++ t).dropWhile isBlank = s ++ t := by
  obtain ⟨c, s, rfl⟩ := List.exists_cons_of_ne_nil h.1
  have hc : isBlank c = false := by
    by_contra hblank
    have hword := isWord_of_isBlank (Bool.not_eq_false _ ▸ hblank)
    rw [h.2 c (by simp)] at hword
    exact absurd hword (by decide)
  simp [hc]

theorem opensLookup_iff {code : List Char} :
    Service.opensLookup code = true ↔ EndsInLookup code := by
  have haccessor : headIsWord Service.accessor = true := by
    simpa using wordRun_accessor.headIsWord_append []
  constructor
  · intro h
    unfold Service.opensLookup at h
    split at h
    · rename_i rest hparen
      split at h
      · rename_i before hprefix
        rw [atBoundary_of_head haccessor] at h
        have hrest := isPrefixOf?_eq_some_iff.mp hprefix
        refine ⟨before.reverse, (rest.takeWhile isBlank).reverse,
          (code.reverse.takeWhile isBlank).reverse, ?_, by simpa using h, ?_, ?_⟩
        · calc
            code = code.reverse.reverse := by simp
            _ = (code.reverse.takeWhile isBlank ++ '(' :: rest).reverse := by
              rw [← hparen, List.takeWhile_append_dropWhile]
            _ = (code.reverse.takeWhile isBlank ++ '(' ::
                (rest.takeWhile isBlank ++ (Service.accessor.reverse ++ before))).reverse := by
              rw [← hrest, List.takeWhile_append_dropWhile]
            _ = _ := by simp
        · exact fun c hc => List.mem_takeWhile_imp (List.mem_reverse.mp hc)
        · exact fun c hc => List.mem_takeWhile_imp (List.mem_reverse.mp hc)
      · simp at h
    · simp at h
  · rintro ⟨start, gap, gap', rfl, hstart, hgap, hgap'⟩
    have hreverse : (start ++ Service.accessor ++ gap ++ '(' :: gap').reverse =
        gap'.reverse ++ '(' :: (gap.reverse ++ (Service.accessor.reverse ++ start.reverse)) := by
      simp
    have hparen : isBlank '(' = false := by decide
    have hopen : (gap'.reverse ++ '(' :: (gap.reverse ++
        (Service.accessor.reverse ++ start.reverse))).dropWhile isBlank =
        '(' :: (gap.reverse ++ (Service.accessor.reverse ++ start.reverse)) := by
      rw [List.dropWhile_append_of_pos fun c hc => hgap' c (List.mem_reverse.mp hc)]
      simp [hparen]
    have hname : (gap.reverse ++ (Service.accessor.reverse ++ start.reverse)).dropWhile isBlank =
        Service.accessor.reverse ++ start.reverse := by
      rw [List.dropWhile_append_of_pos fun c hc => hgap c (List.mem_reverse.mp hc),
        dropWhile_isBlank_wordRun wordRun_accessor.reverse]
    have hprefix := isPrefixOf?_eq_some_iff.mpr
      (rfl : Service.accessor.reverse ++ start.reverse = Service.accessor.reverse ++ start.reverse)
    simp only [Service.opensLookup, hreverse, hopen, hname, hprefix]
    exact (atBoundary_of_head haccessor).mpr hstart

end SpanishLua.Proofs.Sweep
