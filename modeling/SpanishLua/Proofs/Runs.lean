import SpanishLua.Proofs.Severing
import SpanishLua.Proofs.Tables

/-!
Passes over the words of a text. One goes from left to right, puts something for every maximal run
of word characters, by what stands before and behind the run in the text as it was, and copies all
else.
-/

namespace SpanishLua.Proofs.Runs

open SpanishLua.Code
open SpanishLua.Text
open SpanishLua.Proofs.Recognisers
open SpanishLua.Proofs.Tables

/-- What is put for a run, and how many of the characters behind the run go with it. -/
structure Turn where
  text : List Char
  skipped : Nat := 0

/-- What to do with a run, by the text before it, nearest character first, and the text behind. -/
abbrev Turning := (before run rest : List Char) → Turn

/-- A single pass over the runs of a text. -/
def overRuns (turning : Turning) (before after : List Char) : List Char :=
  match after with
  | [] => []
  | c :: tail =>
      if isWord c then
        let run := c :: tail.takeWhile isWord
        let rest := tail.dropWhile isWord
        let turn := turning before run rest
        turn.text ++
          overRuns turning ((rest.take turn.skipped).reverse ++ (run.reverse ++ before))
            (rest.drop turn.skipped)
      else c :: overRuns turning (c :: before) tail
termination_by after.length
decreasing_by
  · have hlength := (List.dropWhile_suffix (p := isWord) (l := tail)).length_le
    simp only [List.length_drop, List.length_cons]
    omega
  · simp

/-- Puts for a run what `put` gives for it, by the text before it. -/
def substitute (put : (before run : List Char) → List Char) : Turning := fun before run _ =>
  ⟨put before run, 0⟩

/-- What the rules of a category have for a word. -/
def translation? (rules : RuleTable) (category : Category) (word : List Char) :
    Option (List Char) :=
  ((rules.rules category).find? (·.source.toList = word)).map (·.target.toList)

section Steps

variable {turning : Turning} {before rest : List Char}

theorem overRuns_nil (turning : Turning) (before : List Char) :
    overRuns turning before [] = [] := by
  rw [overRuns]

theorem overRuns_other {c : Char} (hc : isWord c = false) :
    overRuns turning before (c :: rest) = c :: overRuns turning (c :: before) rest := by
  rw [overRuns, hc]
  rfl

theorem overRuns_run {run : List Char} (hrun : WordRun run) (hrest : headIsWord rest = false) :
    overRuns turning before (run ++ rest) =
      (turning before run rest).text ++
        overRuns turning
          ((rest.take (turning before run rest).skipped).reverse ++ (run.reverse ++ before))
          (rest.drop (turning before run rest).skipped) := by
  obtain ⟨c, tail, rfl⟩ := List.exists_cons_of_ne_nil hrun.1
  obtain ⟨hc, htail⟩ := List.forall_mem_cons.mp hrun.2
  have htake : c :: (tail ++ rest).takeWhile isWord = c :: tail := by
    have hall := hrun.takeWhile_append hrest
    rwa [List.cons_append, List.takeWhile_cons_of_pos hc] at hall
  have hdrop : (tail ++ rest).dropWhile isWord = rest := by
    have hsplit := List.takeWhile_append_dropWhile (p := isWord) (l := tail ++ rest)
    rw [(List.cons.inj htake).2] at hsplit
    exact List.append_cancel_left hsplit
  rw [List.cons_append, overRuns, if_pos hc]
  simp only [htake, hdrop]

theorem overRuns_step {run text : List Char} (hrun : WordRun run)
    (hrest : headIsWord rest = false) (hturn : turning before run rest = ⟨text, 0⟩) :
    overRuns turning before (run ++ rest) =
      text ++ overRuns turning (run.reverse ++ before) rest := by
  rw [overRuns_run hrun hrest, hturn]
  rfl

end Steps

theorem headIsWord_of_place {before run rest : List Char} (hrun : WordRun run)
    (h : headIsWord before = false ∨ headIsWord (run ++ rest) = false) :
    headIsWord before = false := by
  refine h.resolve_right ?_
  rw [hrun.headIsWord_append]
  decide

/-- The steps of a pass as an induction principle. It may go on from any place further on. -/
theorem run_induction {motive : List Char → List Char → Prop}
    (nil : ∀ before, motive before [])
    (other : ∀ before c rest, isWord c = false →
      (∀ skipped left, rest = skipped ++ left → motive (skipped.reverse ++ c :: before) left) →
      motive before (c :: rest))
    (run : ∀ before run rest, WordRun run → headIsWord rest = false →
      (∀ skipped left, rest = skipped ++ left →
        motive (skipped.reverse ++ (run.reverse ++ before)) left) →
      motive before (run ++ rest))
    (before after : List Char) : motive before after := by
  induction hlength : after.length using Nat.strong_induction_on generalizing before after with
  | h n ih =>
      subst hlength
      rcases after with _ | ⟨c, tail⟩
      · exact nil before
      · cases hc : isWord c with
        | false =>
            refine other before c tail hc fun skipped left htail => ?_
            refine ih left.length ?_ _ left rfl
            have htail := congrArg List.length htail
            simp only [List.length_append, List.length_cons] at htail ⊢
            omega
        | true =>
            have hsplit :
                c :: tail = (c :: tail).takeWhile isWord ++ (c :: tail).dropWhile isWord :=
              List.takeWhile_append_dropWhile.symm
            have hrun : WordRun ((c :: tail).takeWhile isWord) :=
              ⟨by simp [hc], fun d hd => List.mem_takeWhile_imp hd⟩
            have hshorter : 0 < ((c :: tail).takeWhile isWord).length :=
              List.length_pos_iff.mpr hrun.1
            have hsum := congrArg List.length hsplit
            rw [hsplit]
            refine run before _ _ hrun (headIsWord_dropWhile _) fun skipped left hrest => ?_
            refine ih left.length ?_ _ left rfl
            have hrest := congrArg List.length hrest
            simp only [List.length_append] at hsum hrest
            omega

section Composition

variable {first second both : (before run : List Char) → List Char}

theorem headIsWord_overRuns {turning : Turning} {before rest : List Char}
    (hrest : headIsWord rest = false) : headIsWord (overRuns turning before rest) = false := by
  cases rest with
  | nil => rw [overRuns_nil, headIsWord]
  | cons c rest =>
      rw [overRuns_other hrest]
      exact hrest

/-- Two passes after each other are one. What the first has put before a place is related to what
stood there, so that the second puts what both together put. -/
theorem overRuns_overRuns {R : List Char → List Char → Prop}
    (hother : ∀ before before' c, isWord c = false → R before before' →
      R (c :: before) (c :: before'))
    (hrun : ∀ before before' run, WordRun run → headIsWord before = false →
      R before before' → WordRun (first before run) ∧
        R (run.reverse ++ before) ((first before run).reverse ++ before'))
    (hboth : ∀ before before' run, WordRun run → R before before' →
      second before' (first before run) = both before run)
    {before before' after : List Char} (hrelated : R before before')
    (hplace : headIsWord before = false ∨ headIsWord after = false) :
    overRuns (substitute second) before' (overRuns (substitute first) before after) =
      overRuns (substitute both) before after := by
  induction before, after using run_induction generalizing before' with
  | nil before => simp only [overRuns_nil]
  | other before c rest hc ih =>
      rw [overRuns_other hc, overRuns_other hc, overRuns_other hc]
      exact congrArg (c :: ·) (ih [] rest rfl (hother before before' c hc hrelated) (.inl hc))
  | run before run rest hword hrest ih =>
      have hbefore := headIsWord_of_place hword hplace
      obtain ⟨hput, hnext⟩ := hrun before before' run hword hbefore hrelated
      rw [overRuns_step hword hrest rfl, overRuns_step hput (headIsWord_overRuns hrest) rfl,
        overRuns_step hword hrest rfl, hboth before before' run hword hrelated]
      exact congrArg (both before run ++ ·) (ih [] rest rfl hnext (.inr hrest))

end Composition

theorem translation?_of_mem {rules : RuleTable} (hrules : WellFormed rules) {category : Category}
    {word : List Char} (h : word ∈ (Vocabulary.ofTable rules category).words) :
    translation? rules category word = (Vocabulary.ofTable rules category).target? word := by
  obtain ⟨r, hr, rfl⟩ := mem_words_ofTable.mp h
  have hsome : ((rules.rules category).find? (·.source.toList = r.source.toList)).isSome :=
    List.find?_isSome.mpr ⟨r, hr, by simp⟩
  obtain ⟨found, hfound⟩ := Option.isSome_iff_exists.mp hsome
  have hsource : found.source.toList = r.source.toList := by simpa using List.find?_some hfound
  rw [translation?, hfound, Option.map_some, ← hsource,
    target?_of_rule hrules (List.mem_of_find?_eq_some hfound)]

theorem translation?_of_notMem {rules : RuleTable} {category : Category} {word : List Char}
    (h : word ∉ (Vocabulary.ofTable rules category).words) :
    translation? rules category word = none := by
  have hnone : (rules.rules category).find? (·.source.toList = word) = none := by
    refine List.find?_eq_none.mpr fun r hr hsource => h (mem_words_ofTable.mpr ⟨r, hr, ?_⟩)
    simpa using hsource
  rw [translation?, hnone, Option.map_none]

end SpanishLua.Proofs.Runs
