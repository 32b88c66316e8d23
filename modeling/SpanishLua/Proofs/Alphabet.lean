import SpanishLua.Proofs.Invariance

namespace SpanishLua.Proofs.Alphabet

open SpanishLua.Code
open SpanishLua.Proofs.Scanning
open SpanishLua.Proofs.Recognisers
open SpanishLua.Proofs.Seams
open SpanishLua.Proofs.Partition
open SpanishLua.Proofs.Tables
open SpanishLua.Proofs.Lines
open SpanishLua.Proofs.Literals
open SpanishLua.Proofs.Stages

/-- All characters of the text satisfy `p`. -/
def Within (p : Char → Prop) (s : List Char) : Prop :=
  ∀ c ∈ s, p c

instance (p : Char → Prop) [DecidablePred p] (s : List Char) : Decidable (Within p s) :=
  decidable_of_iff (s.all (p ·) = true) (by simp [Within])

/-- A claim on characters within `p` puts characters within `p`. -/
def StaysWithin (p : Char → Prop) (find : Recogniser) : Prop :=
  ∀ before hit rest, find before (hit.taken ++ rest) = some hit → Within p hit.taken →
    Within p hit.text

/-- What a translation with this table puts into a text is within `p`. -/
structure Spells (p : Char → Prop) (rules : RuleTable) : Prop where
  wellFormed : WellFormed rules
  target : ∀ r ∈ rules.entries, Within p r.target.toList
  fixed : ∀ s ∈ fixedTexts, Within p s

/-- The fixed texts without quotes. -/
def plainTexts : List (List Char) :=
  ["GetService", "game:GetService", ":", "(", ".new(", "Instance.new(", ".", "math.",
   "elseif"].map String.toList

theorem plainTexts_subset : plainTexts ⊆ fixedTexts := by
  decide +kernel

section Texts

variable {p : Char → Prop}

@[simp] theorem within_nil : Within p [] := by
  simp [Within]

@[simp] theorem within_cons {c : Char} {s : List Char} : Within p (c :: s) ↔ p c ∧ Within p s :=
  List.forall_mem_cons

@[simp] theorem within_append {s t : List Char} : Within p (s ++ t) ↔ Within p s ∧ Within p t :=
  List.forall_mem_append

theorem within_join {segments : List Segment} :
    Within p (Segment.join segments) ↔ ∀ s ∈ segments, Within p s.text := by
  induction segments with
  | nil => simp
  | cons s rest ih => simp [ih]

theorem within_replaceFrom {find : Recogniser} (hsound : Sound find) (hstays : StaysWithin p find)
    (before : List Char) {after : List Char} (h : Within p after) :
    Within p (replaceFrom find before after) := by
  induction before, after using scan_induction hsound with
  | nil before =>
      rw [replaceFrom_nil]
      exact within_nil
  | kept before c rest hfind ih =>
      obtain ⟨hc, hrest⟩ := within_cons.mp h
      rw [replaceFrom_kept hfind]
      exact within_cons.mpr ⟨hc, ih hrest⟩
  | claimed before hit rest hfind ih =>
      obtain ⟨htaken, hrest⟩ := within_append.mp h
      rw [replaceFrom_claimed hsound hfind]
      exact within_append.mpr ⟨hstays before hit rest hfind htaken, ih hrest⟩

theorem within_replaceAll {find : Recogniser} (hsound : Sound find) (hstays : StaysWithin p find)
    {s : List Char} (h : Within p s) : Within p (replaceAll find s) :=
  within_replaceFrom hsound hstays [] h

end Texts

section Claims

variable {p : Char → Prop} {v : Vocabulary}

theorem lookup_staysWithin (hplain : ∀ s ∈ plainTexts, Within p s) :
    StaysWithin p Service.lookup := by
  intro before hit rest h htaken
  obtain ⟨rest', -, -, -, rfl⟩ := exists_of_lookup h
  dsimp only
  split
  · exact hplain _ (by simp [plainTexts])
  · exact hplain _ (by simp [plainTexts])

variable (hv : ∀ {token target : List Char}, v.target? token = some target → Within p target)

include hv

theorem within_getD {word : List Char} (hword : Within p word) :
    Within p ((v.target? word).getD word) := by
  cases htarget : v.target? word with
  | none => exact hword
  | some target => exact hv htarget

theorem constant_staysWithin : StaysWithin p (Enumeration.constant v) := by
  intro before hit rest h htaken
  obtain ⟨word, -, rest', -, -, -, rfl⟩ := exists_of_constant h
  dsimp only
  split
  · exact htaken
  · exact within_getD hv htaken

theorem globalFunction_staysWithin : StaysWithin p (Keyword.globalFunction v) := by
  intro before hit rest h htaken
  obtain ⟨word, -, gap, -, rest', -, -, -, rfl⟩ := exists_of_globalFunction h
  obtain ⟨hword, hparen⟩ := within_append.mp htaken
  refine within_append.mpr ⟨?_, hparen⟩
  split
  · exact hword
  · exact within_getD hv hword

theorem mathFunction_staysWithin : StaysWithin p (Member.mathFunction v) := by
  intro before hit rest h htaken
  obtain ⟨word, -, rest', -, -, -, rfl⟩ := exists_of_mathFunction h
  obtain ⟨hmath, hword⟩ := within_append.mp htaken
  exact within_append.mpr ⟨hmath, within_getD hv hword⟩

variable (hplain : ∀ s ∈ plainTexts, Within p s)

include hplain

theorem method_staysWithin : StaysWithin p (Call.method v) := by
  intro before hit rest h htaken
  obtain ⟨blanks, -, word, -, gap, -, rest', -, -, htext⟩ := exists_of_method h
  have hcolon : Within p [':'] := hplain _ (by simp [plainTexts])
  have hparen : Within p ['('] := hplain _ (by simp [plainTexts])
  rw [htext]
  split
  · rename_i target htarget
    exact within_append.mpr ⟨within_append.mpr ⟨hcolon, hv htarget⟩, hparen⟩
  · exact htaken

theorem constructor_staysWithin : StaysWithin p (Call.constructor v) := by
  intro before hit rest h htaken
  obtain ⟨-, name, -, gap, -, rest', -, rfl⟩ := constructor_eq_some_iff.mp h
  have hname : Within p name := (within_append.mp (within_append.mp htaken).1).1
  exact within_append.mpr ⟨within_getD hv hname, hplain _ (by simp [plainTexts])⟩

theorem property_staysWithin : StaysWithin p (Member.property v) := by
  intro before hit rest h htaken
  obtain ⟨word, -, rest', -, -, -, hsame | ⟨target, htarget, htext⟩⟩ := exists_of_property h
  · rw [hsame]
    exact htaken
  · have hdot : Within p ['.'] := hplain _ (by simp [plainTexts])
    rw [htext]
    exact within_append.mpr ⟨hdot, hv htarget⟩

theorem item_staysWithin {families : Vocabulary}
    (hfamilies : ∀ {token target : List Char}, families.target? token = some target →
      Within p target) : StaysWithin p (Enumeration.item families v) := by
  intro before hit rest h htaken
  obtain ⟨family, -, member, rest', -, -, -, -,
    hsame | ⟨familyTarget, memberTarget, hfamily, hmember, htext⟩⟩ := exists_of_item h
  · rw [hsame]
    exact htaken
  · have hdot : Within p ['.'] := hplain _ (by simp [plainTexts])
    rw [htext]
    exact within_append.mpr ⟨hfamilies hfamily, within_append.mpr ⟨hdot, hv hmember⟩⟩

omit hv

theorem instanceFactory_staysWithin : StaysWithin p Call.instanceFactory := by
  intro before hit rest h htaken
  obtain ⟨-, gap, -, rest', -, rfl⟩ := exists_of_instanceFactory h
  exact hplain _ (by simp [plainTexts])

theorem elseIf_staysWithin : StaysWithin p Keyword.elseIf := by
  intro before hit rest h htaken
  obtain ⟨-, gap, -, -, rest', -, -, rfl⟩ := exists_of_elseIf h
  exact hplain _ (by simp [plainTexts])

omit hplain

theorem bright_staysWithin (hfixed : ∀ s ∈ fixedTexts, Within p s) :
    StaysWithin p Enumeration.bright := by
  intro before hit rest h htaken
  obtain ⟨-, colour, -, rest', -, -, rfl⟩ := exists_of_bright h
  have hcolour : Within p colour := (within_append.mp htaken).1
  exact within_append.mpr ⟨within_append.mpr ⟨hfixed _ (by simp [fixedTexts]), hcolour⟩,
    hfixed _ (by simp [fixedTexts])⟩

end Claims

section Table

variable {p : Char → Prop} {rules : RuleTable}

theorem Spells.target? (h : Spells p rules) (category : Category) {token target : List Char}
    (htarget : (Vocabulary.ofTable rules category).target? token = some target) :
    Within p target := by
  obtain ⟨r, hr, -, rfl⟩ := exists_rule_of_target? h.wellFormed htarget
  exact h.target r (mem_rules_iff.mp hr).1

theorem Spells.plain (h : Spells p rules) : ∀ s ∈ plainTexts, Within p s :=
  fun s hs => h.fixed s (plainTexts_subset hs)

theorem Spells.staysWithin (h : Spells p rules) {find : Recogniser}
    (hfind : find ∈ early (.ofTable rules) ++ late (.ofTable rules)) : StaysWithin p find := by
  simp only [early, late, List.cons_append, List.nil_append, List.mem_cons, List.not_mem_nil,
    or_false, keyword_eq_constant] at hfind
  rcases hfind with rfl | rfl | rfl | rfl | rfl | rfl | rfl | rfl | rfl | rfl | rfl | rfl
  · exact lookup_staysWithin h.plain
  · exact method_staysWithin (h.target? _) h.plain
  · exact constructor_staysWithin (h.target? _) h.plain
  · exact instanceFactory_staysWithin h.plain
  · exact property_staysWithin (h.target? _) h.plain
  · exact mathFunction_staysWithin (h.target? _)
  · exact item_staysWithin (h.target? _) h.plain (h.target? _)
  · exact constant_staysWithin (h.target? _)
  · exact bright_staysWithin h.fixed
  · exact elseIf_staysWithin h.plain
  · exact globalFunction_staysWithin (h.target? _)
  · exact constant_staysWithin (h.target? _)

theorem Spells.rewriteCode (h : Spells p rules) {code lua : List Char}
    (hrewrite : rewriteCode (.ofTable rules) code = .ok lua) (hcode : Within p code) :
    Within p lua :=
  rewriteCode_keeps (fun _ hfind _ hs =>
    within_replaceAll (sound_of_mem h.wellFormed hfind) (h.staysWithin hfind) hs) hrewrite hcode

theorem Spells.literalBecomes (h : Spells p rules) {previous next : Option Segment}
    {text text' : List Char} (hbecomes : LiteralBecomes rules previous next text text')
    (htext : Within p text) : Within p text' := by
  rcases hbecomes with ⟨quote, r, ⟨-, body, rfl, hr, -⟩, rfl⟩ | ⟨-, rfl⟩
  · have hquote : Within p [quote] := (within_append.mp htext).2
    have htarget := h.target r (mem_rules_iff.mp hr).1
    exact within_append.mpr ⟨within_append.mpr ⟨hquote, htarget⟩, hquote⟩
  · exact htext

theorem Spells.becomes (h : Spells p rules) {previous : Option Segment}
    {segments out : List Segment} (hbecomes : Becomes rules previous segments out)
    (hsegments : ∀ s ∈ segments, Within p s.text) : ∀ s ∈ out, Within p s.text := by
  induction hbecomes with
  | nil => exact hsegments
  | code hcode hrest ih =>
      obtain ⟨hfirst, hothers⟩ := List.forall_mem_cons.mp hsegments
      exact List.forall_mem_cons.mpr ⟨h.rewriteCode hcode hfirst, ih hothers⟩
  | literal hliteral hrest ih =>
      obtain ⟨hfirst, hothers⟩ := List.forall_mem_cons.mp hsegments
      exact List.forall_mem_cons.mpr ⟨h.literalBecomes hliteral hfirst, ih hothers⟩

theorem Spells.translateLine (h : Spells p rules) {extra : List String} {t : Translator}
    (ht : Translator.ofTable rules extra = .ok t) {line lua : List Char}
    (hlua : t.translateLine line = .ok lua) (hline : Within p line) : Within p lua := by
  obtain ⟨out, rfl, hbecomes⟩ := becomes_of_translateLine ht hlua
  rw [← join_partition line] at hline
  exact within_join.mpr (h.becomes hbecomes (within_join.mp hline))

end Table

end SpanishLua.Proofs.Alphabet
