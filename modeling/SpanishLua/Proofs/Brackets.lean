import Mathlib.Data.List.Chain
import Mathlib.Logic.Relation
import SpanishLua.Proofs.Counting
import SpanishLua.Proofs.Evaluation

/-!
Brackets. What is left of the brackets of a text when matching neighbours are cancelled does not
depend on the order in which that is done: it is the stack of a reader. A translation leaves it as
it is, if the targets of its rules close what they open.
-/

namespace SpanishLua.Proofs.Brackets

open SpanishLua.Code
open SpanishLua.Text
open SpanishLua.Proofs.Characters
open SpanishLua.Proofs.Scanning
open SpanishLua.Proofs.Recognisers
open SpanishLua.Proofs.Partition
open SpanishLua.Proofs.Tables
open SpanishLua.Proofs.Lines
open SpanishLua.Proofs.Defaults
open SpanishLua.Proofs.Literals
open SpanishLua.Proofs.Stages
open SpanishLua.Proofs.Counting
open SpanishLua.Proofs.Evaluation

/-- `c` is a bracket of some kind. -/
def isBracket (c : Char) : Bool :=
  isOpener c || isCloser c

/-- `b` closes what `a` opens. -/
def Matches (a b : Char) : Prop :=
  (a, b) ∈ [('(', ')'), ('[', ']'), ('\x7b', '\x7d')]

instance (a b : Char) : Decidable (Matches a b) :=
  inferInstanceAs (Decidable (_ ∈ _))

/-- The brackets of a text, in their order. -/
def bracketsOf (s : List Char) : List Char :=
  s.filter isBracket

/-- Two matching brackets next to each other are taken out. -/
inductive Cancels : List Char → List Char → Prop
  | pair (left : List Char) {a b : Char} (h : Matches a b) (right : List Char) :
      Cancels (left ++ a :: b :: right) (left ++ right)

/-- Matching neighbours are cancelled among the brackets of `s` until there are none, and `left`
stays. -/
structure Reduces (s left : List Char) : Prop where
  cancelled : Relation.ReflTransGen Cancels (bracketsOf s) left
  irreducible : ∀ t, ¬ Cancels left t

/-- The text closes what it opens and nothing else. -/
def Balanced (s : List Char) : Prop :=
  Reduces s []

/-- A stack of brackets, nearest first, after one more: it cancels the one that it matches. -/
def push (stack : List Char) (b : Char) : List Char :=
  match stack with
  | [] => [b]
  | a :: stack => if Matches a b then stack else b :: a :: stack

/-- A stack of brackets after the brackets of a text. -/
def readOnto (stack s : List Char) : List Char :=
  (bracketsOf s).foldl push stack

/-- The two texts do the same to every stack. -/
def SameBrackets (s t : List Char) : Prop :=
  ∀ stack, readOnto stack s = readOnto stack t

section Reduction

variable {s t stack left : List Char}

theorem push_push {a b : Char} (h : Matches a b) (stack : List Char) :
    push (push stack a) b = stack := by
  have hopens : push stack a = a :: stack := by
    cases stack with
    | nil => rfl
    | cons c stack =>
        have hopener : ¬ Matches c a := by
          simp only [Matches, List.mem_cons, Prod.mk.injEq, List.not_mem_nil, or_false] at h ⊢
          rcases h with ⟨rfl, -⟩ | ⟨rfl, -⟩ | ⟨rfl, -⟩ <;> simp
        rw [push, if_neg hopener]
  rw [hopens, push, if_pos h]

theorem foldl_push_of_cancels (h : Cancels s t) (stack : List Char) :
    s.foldl push stack = t.foldl push stack := by
  cases h with
  | pair left h right =>
      rw [List.foldl_append, List.foldl_append, List.foldl_cons, List.foldl_cons, push_push h]

theorem foldl_push_of_cancelled (h : Relation.ReflTransGen Cancels s t) (stack : List Char) :
    s.foldl push stack = t.foldl push stack := by
  induction h with
  | refl => rfl
  | tail _ hstep ih => rw [ih, foldl_push_of_cancels hstep]

theorem cancelled_foldl_push (stack s : List Char) :
    Relation.ReflTransGen Cancels (stack.reverse ++ s) (s.foldl push stack).reverse := by
  induction s generalizing stack with
  | nil => rw [List.append_nil, List.foldl_nil]
  | cons b s ih =>
      rw [List.foldl_cons]
      cases stack with
      | nil => exact ih [b]
      | cons a stack =>
          by_cases h : Matches a b
          · rw [push, if_pos h, List.reverse_cons, List.append_assoc]
            exact .head (.pair stack.reverse h s) (ih stack)
          · rw [push, if_neg h]
            simpa using ih (b :: a :: stack)

theorem isChain_foldl_push (h : stack.IsChain fun b a => ¬ Matches a b) (s : List Char) :
    (s.foldl push stack).IsChain fun b a => ¬ Matches a b := by
  induction s generalizing stack with
  | nil => exact h
  | cons b s ih =>
      refine ih ?_
      cases stack with
      | nil => exact .singleton b
      | cons a stack =>
          rw [push]
          split
          · exact h.tail
          · rename_i hopen
            exact .cons_cons hopen h

theorem not_cancels_reverse (h : stack.IsChain fun b a => ¬ Matches a b) (t : List Char) :
    ¬ Cancels stack.reverse t := by
  intro hcancels
  obtain ⟨left, a, b, right, hmatches, hsplit⟩ : ∃ left a b right, Matches a b ∧
      stack.reverse = left ++ a :: b :: right := by
    generalize stack.reverse = brackets at hcancels
    cases hcancels with
    | pair left hmatches right => exact ⟨left, _, _, right, hmatches, rfl⟩
  have hstack : stack = right.reverse ++ b :: a :: left.reverse := by
    rw [← List.reverse_reverse stack, hsplit]
    simp
  rw [hstack, List.isChain_append_cons_cons] at h
  exact h.2.1 hmatches

/-- However neighbours are cancelled, what stays is the stack of a reader. -/
theorem reduces_iff : Reduces s left ↔ left = (readOnto [] s).reverse := by
  constructor
  · rintro ⟨hcancelled, hirreducible⟩
    have hself : left = (left.foldl push []).reverse := by
      rcases (cancelled_foldl_push [] left).cases_head with hsame | ⟨t, hstep, -⟩
      · exact hsame
      · exact absurd hstep (hirreducible t)
    rw [readOnto, foldl_push_of_cancelled hcancelled]
    exact hself
  · rintro rfl
    exact ⟨cancelled_foldl_push [] (bracketsOf s),
      not_cancels_reverse (isChain_foldl_push .nil (bracketsOf s))⟩

theorem balanced_iff : Balanced s ↔ ∀ stack, readOnto stack s = stack := by
  constructor
  · intro h stack
    exact foldl_push_of_cancelled h.cancelled stack
  · intro h
    rw [Balanced, reduces_iff, h, List.reverse_nil]

theorem balanced_of_readOnto (h : readOnto [] s = []) : Balanced s := by
  rw [Balanced, reduces_iff, h, List.reverse_nil]

end Reduction

section Texts

variable {s s' t t' : List Char}

theorem readOnto_append (stack s t : List Char) :
    readOnto stack (s ++ t) = readOnto (readOnto stack s) t := by
  rw [readOnto, bracketsOf, List.filter_append, List.foldl_append]
  rfl

theorem SameBrackets.append (hs : SameBrackets s s') (ht : SameBrackets t t') :
    SameBrackets (s ++ t) (s' ++ t') := by
  intro stack
  rw [readOnto_append, readOnto_append, hs, ht]

theorem sameBrackets_refl (s : List Char) : SameBrackets s s :=
  fun _ => rfl

theorem Balanced.append (hs : Balanced s) (ht : Balanced t) : Balanced (s ++ t) := by
  rw [balanced_iff] at hs ht ⊢
  intro stack
  rw [readOnto_append, hs, ht]

theorem Balanced.same (hs : Balanced s) (ht : Balanced t) : SameBrackets s t := by
  intro stack
  rw [balanced_iff.mp hs, balanced_iff.mp ht]

theorem balanced_of_plain (h : ∀ c ∈ s, isBracket c = false) : Balanced s := by
  have hnone : bracketsOf s = [] := List.filter_eq_nil_iff.mpr fun c hc => by simp [h c hc]
  refine balanced_of_readOnto ?_
  rw [readOnto, hnone, List.foldl_nil]

end Texts

section Characters

variable {s t : List Char} {c d : Char}

theorem isBracket_iff : isBracket c = true ↔ c ∈ ['(', '[', '\x7b', ')', ']', '\x7d'] := by
  simp [isBracket, isOpener, isCloser, or_assoc]

theorem isBracket_of_isWord (h : isWord c = true) : isBracket c = false := by
  obtain ⟨hopener, hcloser, -⟩ := plain_of_isWord h
  rw [isBracket, hopener, hcloser, Bool.or_false]

theorem isBracket_of_isBlank (h : isBlank c = true) : isBracket c = false := by
  obtain ⟨hopener, hcloser, -⟩ := plain_of_isBlank h
  rw [isBracket, hopener, hcloser, Bool.or_false]

theorem isBracket_of_kind {p : Char → Bool} (h : ['(', '[', '\x7b', ')', ']', '\x7d'].all (!p ·))
    (hc : p c = true) : isBracket c = false := by
  by_contra hbracket
  rw [Bool.not_eq_false, isBracket_iff] at hbracket
  have hnot := List.all_eq_true.mp h c hbracket
  rw [hc] at hnot
  exact absurd hnot (by decide)

theorem isBracket_of_isIdentifier (h : isIdentifier s = true) : ∀ c ∈ s, isBracket c = false := by
  have hnone : ['(', '[', '\x7b', ')', ']', '\x7d'].all (!continuesIdentifier ·) = true := by decide
  exact fun c hc => isBracket_of_kind hnone (continuesIdentifier_of_isIdentifier h c hc)

theorem toNat_of_isBracket (h : isBracket d = true) : d.toNat ∈ [40, 91, 123, 41, 93, 125] := by
  rw [isBracket_iff] at h
  exact List.mem_map_of_mem (f := Char.toNat) h

theorem eq_of_mapCase (hd : isBracket d = true)
    (h : d = Char.ofNat (mapCase lowercaseRuns c.toNat)) : d = c := by
  have hcode := toNat_of_isBracket hd
  have hzero : d.toNat ≠ 0 := by
    intro hzero
    rw [hzero] at hcode
    exact absurd hcode (by decide)
  have hnat : d.toNat = mapCase lowercaseRuns c.toNat := by
    rw [h] at hzero ⊢
    exact toNat_ofNat_of_ne_zero hzero
  have hruns : ∀ r ∈ lowercaseRuns, ∀ n ∈ ([40, 91, 123, 41, 93, 125] : List Nat),
      (n : Int) < r.first + r.shift ∨ r.last + r.shift < n := by
    decide +kernel
  rcases mapCase_cases lowercaseRuns c.toNat with hsame | ⟨r, hr, hfirst, hlast, hmoved⟩
  · exact Char.toNat_inj.mp (hnat.trans hsame)
  · have hapart := hruns r hr d.toNat hcode
    omega

theorem mem_lowercaseAt (hd : isBracket d = true) (before after : List Char) :
    d ∈ lowercaseAt before c after ↔ d = c := by
  constructor
  · intro h
    have hcode := toNat_of_isBracket hd
    rw [lowercaseAt] at h
    split at h
    · rw [List.mem_singleton.mp h] at hcode
      split at hcode <;> exact absurd hcode (by decide)
    · split at h
      · rcases List.mem_cons.mp h with rfl | h
        · exact absurd hcode (by decide)
        · rw [List.mem_singleton.mp h] at hcode
          exact absurd hcode (by decide)
      · exact eq_of_mapCase hd (List.mem_singleton.mp h)
  · rintro rfl
    rw [isBracket_iff] at hd
    simp only [List.mem_cons, List.not_mem_nil, or_false] at hd
    rcases hd with rfl | rfl | rfl | rfl | rfl | rfl <;> exact List.mem_singleton.mpr (by decide)

theorem mem_lowercaseAfter (hd : isBracket d = true) (before s : List Char) :
    d ∈ lowercaseAfter before s ↔ d ∈ s := by
  induction s generalizing before with
  | nil => exact Iff.rfl
  | cons c s ih => rw [lowercaseAfter, List.mem_append, List.mem_cons, mem_lowercaseAt hd, ih]

theorem isBracket_of_wordKey (h : wordKey s = wordKey t) (ht : ∀ c ∈ t, isBracket c = false) :
    ∀ c ∈ s, isBracket c = false := by
  intro c hc
  by_contra hbracket
  rw [Bool.not_eq_false] at hbracket
  have hmem : c ∈ wordKey t := h ▸ (mem_lowercaseAfter hbracket [] s).mpr hc
  rw [ht c ((mem_lowercaseAfter hbracket [] t).mp hmem)] at hbracket
  exact absurd hbracket (by decide)

end Characters

section Recognisers

variable {rules : RuleTable} {category : Category} {before after word : List Char} {hit : Hit}

theorem balanced_of_wordRun (h : WordRun word) : Balanced word :=
  balanced_of_plain fun c hc => isBracket_of_isWord (h.2 c hc)

theorem balanced_of_blank {gap : List Char} (h : ∀ c ∈ gap, isBlank c = true) : Balanced gap :=
  balanced_of_plain fun c hc => isBracket_of_isBlank (h c hc)

theorem balanced_of_mem_words (hrules : WellFormed rules) (hcategory : category ≠ .enumMember)
    (hword : word ∈ (Vocabulary.ofTable rules category).words) : Balanced word :=
  balanced_of_plain (isBracket_of_isIdentifier (isIdentifier_of_mem_words hrules hcategory hword))

theorem Balanced.same_append {s t : List Char} (hs : Balanced s) (ht : Balanced t)
    (tail : List Char) : SameBrackets (s ++ tail) (t ++ tail) :=
  (hs.same ht).append (sameBrackets_refl tail)

theorem lookup_same (h : Service.lookup before after = some hit) :
    SameBrackets hit.taken hit.text := by
  obtain ⟨-, -, -, -, rfl⟩ := exists_of_lookup h
  have haccessor : Balanced Service.accessor := balanced_of_readOnto (by decide)
  refine haccessor.same ?_
  dsimp only
  split <;> exact balanced_of_readOnto (by decide)

theorem instanceFactory_same (h : Call.instanceFactory before after = some hit) :
    SameBrackets hit.taken hit.text := by
  obtain ⟨-, gap, hgap, -, -, rfl⟩ := exists_of_instanceFactory h
  have htaken : Balanced ("instancia_nueva".toList ++ gap) :=
    (balanced_of_readOnto (by decide)).append (balanced_of_blank hgap)
  have htext : Balanced "Instance.new".toList := balanced_of_readOnto (by decide)
  rw [← List.append_assoc]
  exact htaken.same_append htext ['(']

theorem bright_same (h : Enumeration.bright before after = some hit) :
    SameBrackets hit.taken hit.text := by
  obtain ⟨-, colour, hcolour, -, -, -, rfl⟩ := exists_of_bright h
  have hending : Balanced Enumeration.brightEnding := balanced_of_readOnto (by decide)
  have hcolour := balanced_of_wordRun hcolour
  refine Balanced.same (hcolour.append hending) ?_
  -- The call around the colour opens and closes one parenthesis.
  rw [balanced_iff] at hcolour ⊢
  intro stack
  dsimp only
  rw [readOnto_append, readOnto_append, hcolour]
  exact push_push (by decide) stack

theorem elseIf_same (h : Keyword.elseIf before after = some hit) :
    SameBrackets hit.taken hit.text := by
  obtain ⟨-, gap, -, hgap, -, -, -, rfl⟩ := exists_of_elseIf h
  have hfirst : Balanced "sino".toList := balanced_of_readOnto (by decide)
  have hlast : Balanced "si".toList := balanced_of_readOnto (by decide)
  have htext : Balanced "elseif".toList := balanced_of_readOnto (by decide)
  exact ((hfirst.append (balanced_of_blank hgap)).append hlast).same htext

variable (hrules : WellFormed rules) (htargets : ∀ r ∈ rules.entries, Balanced r.target.toList)
include hrules htargets

theorem balanced_target {target : List Char}
    (h : (Vocabulary.ofTable rules category).target? word = some target) : Balanced target := by
  obtain ⟨r, hr, -, rfl⟩ := exists_rule_of_target? hrules h
  exact htargets r (mem_rules_iff.mp hr).1

theorem balanced_getD {token : List Char} (hword : Balanced word) :
    Balanced (((Vocabulary.ofTable rules category).target? token).getD word) := by
  cases htarget : (Vocabulary.ofTable rules category).target? token with
  | none => exact hword
  | some target => exact balanced_target hrules htargets htarget

theorem constant_same (hcategory : category ≠ .enumMember)
    (h : Enumeration.constant (.ofTable rules category) before after = some hit) :
    SameBrackets hit.taken hit.text := by
  obtain ⟨word, hword, -, -, -, -, rfl⟩ := exists_of_constant h
  have hword := balanced_of_mem_words hrules hcategory hword
  refine hword.same ?_
  dsimp only
  split
  · exact hword
  · exact balanced_getD hrules htargets hword

theorem globalFunction_same
    (h : Keyword.globalFunction (.ofTable rules .globalFunction) before after = some hit) :
    SameBrackets hit.taken hit.text := by
  obtain ⟨word, hword, gap, -, -, -, -, -, rfl⟩ := exists_of_globalFunction h
  have hword := balanced_of_mem_words hrules (by decide) hword
  refine hword.same_append ?_ (gap ++ ['('])
  split
  · exact hword
  · exact balanced_getD hrules htargets hword

theorem method_same (h : Call.method (.ofTable rules .methodName) before after = some hit) :
    SameBrackets hit.taken hit.text := by
  obtain ⟨blanks, hblanks, word, hword, gap, hgap, -, htaken, -, htext⟩ := exists_of_method h
  have hcolon : Balanced [':'] := balanced_of_readOnto (by decide)
  have hword := balanced_of_mem_words hrules (by decide) hword
  split at htext
  · rename_i target htarget
    have hin : Balanced ([':'] ++ blanks ++ word ++ gap) :=
      ((hcolon.append (balanced_of_blank hblanks)).append hword).append (balanced_of_blank hgap)
    have hout : Balanced ([':'] ++ target) :=
      hcolon.append (balanced_target hrules htargets htarget)
    rw [htaken, htext, ← List.append_assoc]
    exact hin.same_append hout ['(']
  · rw [htext]
    exact sameBrackets_refl _

theorem constructor_same (h : Call.constructor (.ofTable rules category) before after = some hit) :
    SameBrackets hit.taken hit.text := by
  obtain ⟨-, name, hname, gap, hgap, -, -, rfl⟩ := constructor_eq_some_iff.mp h
  have hname := balanced_of_wordRun hname
  have hin : Balanced (name ++ constructorEnding ++ gap) :=
    (hname.append (balanced_of_readOnto (by decide))).append (balanced_of_blank hgap)
  have hout : Balanced (((Vocabulary.ofTable rules category).target? name).getD name ++
      ".new".toList) :=
    (balanced_getD hrules htargets hname).append (balanced_of_readOnto (by decide))
  have hsame := hin.same_append hout ['(']
  rwa [List.append_assoc, List.append_assoc (_ : List Char) ".new".toList] at hsame

theorem property_same (h : Member.property (.ofTable rules .propertyName) before after = some hit) :
    SameBrackets hit.taken hit.text := by
  obtain ⟨word, hword, -, -, -, htaken, htext | ⟨target, htarget, htext⟩⟩ := exists_of_property h
  · rw [htext]
    exact sameBrackets_refl _
  · have hdot : Balanced ['.'] := balanced_of_readOnto (by decide)
    rw [htaken, htext]
    exact (hdot.append (balanced_of_mem_words hrules (by decide) hword)).same
      (hdot.append (balanced_target hrules htargets htarget))

theorem mathFunction_same
    (h : Member.mathFunction (.ofTable rules .mathFunction) before after = some hit) :
    SameBrackets hit.taken hit.text := by
  obtain ⟨word, hword, -, -, -, -, rfl⟩ := exists_of_mathFunction h
  have hlibrary : Balanced Member.mathLibrary := balanced_of_readOnto (by decide)
  have hword := balanced_of_mem_words hrules (by decide) hword
  exact (hlibrary.append hword).same (hlibrary.append (balanced_getD hrules htargets hword))

theorem item_same (h : Enumeration.item (.ofTable rules .enumFamily) (.ofTable rules .enumMember)
      before after = some hit) : SameBrackets hit.taken hit.text := by
  obtain ⟨family, hfamily, member, rest, -, hname, -, htaken,
    htext | ⟨familyTarget, memberTarget, hfamilyTarget, hmemberTarget, htext⟩⟩ := exists_of_item h
  · rw [htext]
    exact sameBrackets_refl _
  · have hdot : Balanced ['.'] := balanced_of_readOnto (by decide)
    have hmember : Balanced member := balanced_of_plain fun c hc =>
      isBracket_of_kind (by decide) ((exists_of_itemName? hname).2.1 c hc)
    rw [htaken, htext]
    exact ((balanced_of_mem_words hrules (by decide) hfamily).append (hdot.append hmember)).same
      ((balanced_target hrules htargets hfamilyTarget).append
        (hdot.append (balanced_target hrules htargets hmemberTarget)))

theorem same_of_mem {find : Recogniser}
    (hfind : find ∈ early (.ofTable rules) ++ late (.ofTable rules))
    (h : find before after = some hit) : SameBrackets hit.taken hit.text := by
  simp only [early, late, List.mem_append, List.mem_cons, List.not_mem_nil, or_false] at hfind
  rcases hfind with (rfl | rfl) |
    (rfl | rfl | rfl | rfl | rfl | rfl | rfl | rfl | rfl | rfl)
  · exact lookup_same h
  · exact method_same hrules htargets h
  · exact constructor_same hrules htargets h
  · exact instanceFactory_same h
  · exact property_same hrules htargets h
  · exact mathFunction_same hrules htargets h
  · exact item_same hrules htargets h
  · exact constant_same hrules htargets (by decide) h
  · exact bright_same h
  · exact elseIf_same h
  · exact globalFunction_same hrules htargets h
  · rw [keyword_eq_constant] at h
    exact constant_same hrules htargets (by decide) h

end Recognisers

section Lines

variable {rules : RuleTable}

theorem replaceFrom_same {find : Recogniser} (hsound : Sound find)
    (hsame : ∀ before after hit, find before after = some hit → SameBrackets hit.taken hit.text)
    (before s : List Char) : SameBrackets s (replaceFrom find before s) := by
  induction before, s using scan_induction hsound with
  | nil before =>
      rw [replaceFrom_nil]
      exact sameBrackets_refl []
  | kept before c rest hfind ih =>
      rw [replaceFrom_kept hfind]
      exact (sameBrackets_refl [c]).append ih
  | claimed before hit rest hfind ih =>
      rw [replaceFrom_claimed hsound hfind]
      exact (hsame before _ hit hfind).append ih

variable (hrules : WellFormed rules) (htargets : ∀ r ∈ rules.entries, Balanced r.target.toList)
include hrules htargets

theorem rewriteCode_same {code lua : List Char}
    (h : rewriteCode (.ofTable rules) code = .ok lua) : SameBrackets code lua := by
  refine rewriteCode_keeps (P := SameBrackets code) ?_ h (sameBrackets_refl code)
  intro find hfind s hs stack
  rw [hs stack]
  exact replaceFrom_same (sound_of_mem hrules hfind)
    (fun _ _ _ => same_of_mem hrules htargets hfind) [] s stack

theorem literal_same {previous next : Option Segment} {text text' : List Char}
    (h : LiteralBecomes rules previous next text text') : SameBrackets text text' := by
  rcases h with ⟨quote, r, ⟨-, body, rfl, hr, hkey⟩, rfl⟩ | ⟨-, rfl⟩
  · obtain ⟨hmem, hcategory⟩ := mem_rules_iff.mp hr
    have hsource : isIdentifier r.source.toList = true :=
      isIdentifier_of_mem_words hrules (by decide) (mem_words_ofTable.mpr ⟨r, hr, rfl⟩)
    have hbody : Balanced body :=
      balanced_of_plain (isBracket_of_wordKey hkey (isBracket_of_isIdentifier hsource))
    exact ((sameBrackets_refl [quote]).append (hbody.same (htargets r hmem))).append
      (sameBrackets_refl [quote])
  · exact sameBrackets_refl text'

theorem becomes_same {previous : Option Segment} {segments out : List Segment}
    (h : Becomes rules previous segments out) :
    SameBrackets (Segment.join segments) (Segment.join out) := by
  induction h with
  | nil => exact sameBrackets_refl []
  | code hcode _ ih =>
      rw [join_cons, join_cons]
      exact (rewriteCode_same hrules htargets hcode).append ih
  | literal hliteral _ ih =>
      rw [join_cons, join_cons]
      exact (literal_same hrules htargets hliteral).append ih

end Lines

/-- If the targets of the rules close what they open, a line and its translation reduce to the same
brackets, and to no others. A balanced line stays balanced, and what a line leaves open its
translation leaves open. -/
theorem translateLine_reduces {rules : RuleTable} {extra : List String} {t : Translator}
    (ht : Translator.ofTable rules extra = .ok t)
    (htargets : ∀ r ∈ rules.entries, Balanced r.target.toList)
    {line lua : List Char} (h : t.translateLine line = .ok lua) :
    (∃! left, Reduces line left) ∧ ∀ left, Reduces lua left ↔ Reduces line left := by
  constructor
  · exact ⟨_, reduces_iff.mpr rfl, fun _ hleft => reduces_iff.mp hleft⟩
  · obtain ⟨hrules, -, -⟩ := ofTable_eq_ok ht
    obtain ⟨out, rfl, hbecomes⟩ := becomes_of_translateLine ht h
    have hsame := becomes_same hrules htargets hbecomes []
    rw [join_partition] at hsame
    intro left
    rw [reduces_iff, reduces_iff, hsame]

theorem balanced_default : ∀ r ∈ RuleTable.default.entries, Balanced r.target.toList := by
  have hread : ∀ x ∈ spellings.val, readOnto [] x.target = [] := by decide +kernel
  exact fun r hr => balanced_of_readOnto (forall_default hread r hr)

theorem translateLine_reduces_openCall :
    let line := "]) imprimir(\x7b obtener_servicio(\"jugadores\"), rojo_brillante".toList
    let lua :=
      "]) print(\x7b game:GetService(\"Players\"), BrickColor.new(\"Bright rojo\")".toList
    (∀ r ∈ RuleTable.default.entries, Balanced r.target.toList) ∧
      ∃ t, Translator.ofTable RuleTable.default [] = .ok t ∧ t.translateLine line = .ok lua ∧
        Reduces line "])(\x7b".toList ∧ Reduces lua "])(\x7b".toList := by
  intro line lua
  let t : Translator := ⟨RuleTable.default, .ofExtra [], .ofTable RuleTable.default⟩
  have hlua : t.translateLine line = .ok lua := by
    rw [← translateLine_spelled]
    decide +kernel
  have hline : Reduces line "])(\x7b".toList := reduces_iff.mpr (by decide)
  exact ⟨balanced_default, t, ofTable_default [], hlua, hline,
    ((translateLine_reduces (ofTable_default []) balanced_default hlua).2 _).mpr hline⟩

end SpanishLua.Proofs.Brackets
