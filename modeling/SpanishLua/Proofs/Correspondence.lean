import SpanishLua.Proofs.Alphabet
import SpanishLua.Proofs.Defaults

namespace SpanishLua.Proofs.Correspondence

open SpanishLua.Text
open SpanishLua.Proofs.Seams
open SpanishLua.Proofs.Tables
open SpanishLua.Proofs.Lines
open SpanishLua.Proofs.Documents
open SpanishLua.Proofs.Alphabet
open SpanishLua.Proofs.Defaults

/-- The line `number` of `ls`, from one, is the first that fails, and it does so by `e`. -/
def FailsFirst (t : Translator) (ls : List (List Char)) (number : Nat) (e : Code.ArityError) :
    Prop :=
  ∃ earlier line later, ls = earlier ++ line :: later ∧ number = earlier.length + 1 ∧
    t.translateLine line = .error e ∧ ∀ l ∈ earlier, ∃ lua, t.translateLine l = .ok lua

/-- No target of the table breaks a line. -/
def Unbroken (rules : RuleTable) : Prop :=
  ∀ r ∈ rules.entries, '\n' ∉ r.target.toList

instance (rules : RuleTable) : Decidable (Unbroken rules) :=
  inferInstanceAs (Decidable (∀ r ∈ rules.entries, '\n' ∉ r.target.toList))

theorem translateFrom_cons_eq_error_iff {t : Translator} {n : Nat} {line lua : List Char}
    (hline : t.translateLine line = .ok lua) {ls : List (List Char)} {failure : DocumentError} :
    t.translateFrom n (line :: ls) = .error failure ↔
      t.translateFrom (n + 1) ls = .error failure := by
  rw [Translator.translateFrom, hline]
  cases t.translateFrom (n + 1) ls <;> simp

theorem translateFrom_eq_error_iff {t : Translator} {n : Nat} {ls : List (List Char)}
    {failure : DocumentError} :
    t.translateFrom n ls = .error failure ↔
      ∃ earlier line later e, ls = earlier ++ line :: later ∧
        failure = .line (n + earlier.length) e ∧ t.translateLine line = .error e ∧
        ∀ l ∈ earlier, ∃ lua, t.translateLine l = .ok lua := by
  induction ls generalizing n with
  | nil => simp [Translator.translateFrom]
  | cons first ls ih =>
      cases hfirst : t.translateLine first with
      | error e =>
          rw [Translator.translateFrom, hfirst]
          constructor
          · intro h
            obtain rfl := Except.error.inj h
            exact ⟨[], first, ls, e, rfl, rfl, hfirst, by simp⟩
          · rintro ⟨earlier, line, later, e', hsplit, rfl, hline, hearlier⟩
            rcases earlier with _ | ⟨l, earlier⟩
            · obtain ⟨rfl, rfl⟩ := List.cons.inj hsplit
              rw [hfirst] at hline
              rw [Except.error.inj hline]
              rfl
            · obtain ⟨rfl, -⟩ := List.cons.inj hsplit
              obtain ⟨lua, hlua⟩ := hearlier first (by simp)
              rw [hfirst] at hlua
              simp at hlua
      | ok lua =>
          rw [translateFrom_cons_eq_error_iff hfirst, ih]
          constructor
          · rintro ⟨earlier, line, later, e, rfl, rfl, hline, hearlier⟩
            refine ⟨first :: earlier, line, later, e, rfl, ?_, hline, ?_⟩
            · rw [List.length_cons, Nat.add_assoc, Nat.add_comm 1]
            · intro l hl
              rcases List.mem_cons.mp hl with rfl | hl
              · exact ⟨lua, hfirst⟩
              · exact hearlier l hl
          · rintro ⟨earlier, line, later, e, hsplit, rfl, hline, hearlier⟩
            rcases earlier with _ | ⟨l, earlier⟩
            · obtain ⟨rfl, -⟩ := List.cons.inj hsplit
              rw [hfirst] at hline
              simp at hline
            · obtain ⟨rfl, rfl⟩ := List.cons.inj hsplit
              refine ⟨earlier, line, later, e, rfl, ?_, hline,
                fun l hl => hearlier l (by simp [hl])⟩
              rw [List.length_cons, Nat.add_assoc, Nat.add_comm 1]

section Outcomes

variable {t : Translator} {document : List Char} {label : String}

theorem translate_eq_forbidden_iff {word : ForbiddenWord} :
    t.translate document label = .error (.forbidden word) ↔
      t.denyList.check document label = .error word := by
  rw [Translator.translate]
  cases hcheck : t.denyList.check document label with
  | error word' => simp
  | ok _ =>
      simp only [reduceCtorEq, iff_false]
      cases hlines : t.translateFrom 1 (lines document) with
      | ok luas => simp
      | error failure =>
          obtain ⟨-, -, -, e, -, rfl, -⟩ := translateFrom_eq_error_iff.mp hlines
          simp

theorem translate_eq_line_iff {number : Nat} {e : Code.ArityError} :
    t.translate document label = .error (.line number e) ↔
      t.denyList.check document label = .ok () ∧ FailsFirst t (lines document) number e := by
  have hfails : FailsFirst t (lines document) number e ↔
      t.translateFrom 1 (lines document) = .error (.line number e) := by
    rw [translateFrom_eq_error_iff]
    constructor
    · rintro ⟨earlier, line, later, hsplit, rfl, hline, hearlier⟩
      exact ⟨earlier, line, later, e, hsplit, by rw [Nat.add_comm], hline, hearlier⟩
    · rintro ⟨earlier, line, later, e', hsplit, hnumber, hline, hearlier⟩
      obtain ⟨rfl, rfl⟩ := DocumentError.line.inj hnumber
      exact ⟨earlier, line, later, hsplit, Nat.add_comm _ _, hline, hearlier⟩
  rw [hfails, Translator.translate]
  cases t.denyList.check document label with
  | error word => simp
  | ok _ => cases t.translateFrom 1 (lines document) <;> simp

end Outcomes

theorem lines_unlines {ls : List (List Char)} (hne : ls ≠ []) (h : ∀ l ∈ ls, '\n' ∉ l) :
    lines (unlines ls) = ls :=
  splitOn_intercalate hne h

theorem within_iff_notMem {s : List Char} : Within (· ≠ '\n') s ↔ '\n' ∉ s := by
  constructor
  · exact fun h hmem => h '\n' hmem rfl
  · rintro h c hc rfl
    exact h hc

theorem spells_of_unbroken {rules : RuleTable} (hrules : WellFormed rules) (h : Unbroken rules) :
    Spells (· ≠ '\n') rules := by
  refine ⟨hrules, fun r hr => within_iff_notMem.mpr (h r hr), ?_⟩
  have hfixed : ∀ s ∈ fixedTexts, s.all (· != '\n') = true := by decide
  intro s hs
  simpa [Within] using hfixed s hs

theorem unbroken_default : Unbroken RuleTable.default := by
  have htargets : ∀ x ∈ spellings.val, x.target.all (· != '\n') = true := by decide +kernel
  intro r hr
  have hall := forall_default htargets r hr
  rw [← within_iff_notMem]
  simpa [Within, spell] using hall

section Lines

variable {rules : RuleTable} {extra : List String} {t : Translator}

theorem notMem_of_translateLine (ht : Translator.ofTable rules extra = .ok t) (h : Unbroken rules)
    {line lua : List Char} (hline : '\n' ∉ line) (hlua : t.translateLine line = .ok lua) :
    '\n' ∉ lua := by
  have hspells := spells_of_unbroken (ofTable_eq_ok ht).1 h
  exact within_iff_notMem.mp (hspells.translateLine ht hlua (within_iff_notMem.mpr hline))

theorem lines_of_translate (ht : Translator.ofTable rules extra = .ok t) (h : Unbroken rules)
    {document out : List Char} {label : String} (hout : t.translate document label = .ok out) :
    List.Forall₂ (fun line lua => t.translateLine line = .ok lua) (lines document) (lines out) := by
  obtain ⟨-, luas, rfl, hluas⟩ := translate_eq_ok_iff.mp hout
  have hne : luas ≠ [] := by
    rintro rfl
    exact splitOn_ne_nil '\n' document (List.forall₂_nil_right_iff.mp hluas)
  rw [lines_unlines hne]
  · exact hluas
  · intro lua hlua
    obtain ⟨line, hline, htranslated⟩ := exists_line_of_mem hluas hlua
    exact notMem_of_translateLine ht h (notMem_of_mem_splitOn hline) htranslated

/-- A document is refused by the deny-list exactly if the list refuses it, else by its first line
that fails, and else becomes the translations of its lines. If no target breaks a line, as in the
default table, these are the lines of the translation. -/
theorem translate_line_by_line (ht : Translator.ofTable rules extra = .ok t)
    (document : List Char) (label : String) :
    (∀ word, t.translate document label = .error (.forbidden word) ↔
        (DenyList.ofExtra extra).check document label = .error word) ∧
      (∀ number e, t.translate document label = .error (.line number e) ↔
        (DenyList.ofExtra extra).check document label = .ok () ∧
          FailsFirst t (lines document) number e) ∧
      (∀ out, t.translate document label = .ok out ↔
        (DenyList.ofExtra extra).check document label = .ok () ∧
          ∃ luas, out = unlines luas ∧ List.Forall₂
            (fun line lua => t.translateLine line = .ok lua) (lines document) luas) ∧
      (Unbroken rules →
        (∀ line lua, '\n' ∉ line → t.translateLine line = .ok lua → '\n' ∉ lua) ∧
          ∀ out, t.translate document label = .ok out →
            (lines out).length = (lines document).length ∧
              List.Forall₂ (fun line lua => t.translateLine line = .ok lua) (lines document)
                (lines out)) ∧
      Unbroken RuleTable.default := by
  obtain ⟨-, hdenyList, -⟩ := ofTable_eq_ok ht
  rw [← hdenyList]
  refine ⟨fun _ => translate_eq_forbidden_iff, fun _ _ => translate_eq_line_iff,
    fun _ => translate_eq_ok_iff, fun h => ⟨fun line lua => notMem_of_translateLine ht h, ?_⟩,
    unbroken_default⟩
  intro out hout
  have hlines := lines_of_translate ht h hout
  exact ⟨hlines.length_eq.symm, hlines⟩

end Lines

theorem translate_line_by_line_color3 :
    let rules : RuleTable :=
      ⟨[⟨.constructorName, "Color3", "Color3", some 3⟩, ⟨.serviceName, "luz", "Lighting", none⟩]⟩
    let failing := "Color3_nuevo(1, 2, 3, 4)"
    let document := "\nobtener_servicio('luz')\n".toList
    ∃ t, Translator.ofTable rules [] = .ok t ∧ Unbroken rules ∧
      t.translate (failing ++ "\ngetfenv()").toList "guion" =
        .error (.forbidden ⟨"getfenv", 2, 1, "guion"⟩) ∧
      t.translate ("\n" ++ failing ++ "\n" ++ failing).toList "guion" =
        .error (.line 2 ⟨"Color3_nuevo", "1, 2, 3, 4", 3, 4⟩) ∧
      ∃ out, t.translate document "guion" = .ok out ∧
        List.Forall₂ (fun line lua => t.translateLine line = .ok lua) (lines document)
          (lines out) := by
  intro rules failing document
  let t : Translator := ⟨rules, .ofExtra [], .ofTable rules⟩
  have ht : Translator.ofTable rules [] = .ok t := by
    have hfault : rules.fault? = none := by decide +kernel
    rw [Translator.ofTable, hfault]
  have hunbroken : Unbroken rules := by decide +kernel
  refine ⟨t, ht, hunbroken, ?_, ?_, ?_⟩
  · refine ((translate_line_by_line ht _ "guion").1 _).mpr ?_
    decide +kernel
  · refine ((translate_line_by_line ht _ "guion").2.1 _ _).mpr ⟨by decide +kernel, ?_⟩
    refine ⟨[[]], failing.toList, [failing.toList], by decide +kernel, rfl, by decide +kernel, ?_⟩
    intro l hl
    obtain rfl := List.mem_singleton.mp hl
    exact ⟨[], by decide +kernel⟩
  · obtain ⟨-, -, -, hlines, -⟩ := translate_line_by_line ht document "guion"
    have hout : t.translate document "guion" =
        .ok "\ngame:GetService('Lighting')\n".toList := by decide +kernel
    exact ⟨_, hout, ((hlines hunbroken).2 _ hout).2⟩

end SpanishLua.Proofs.Correspondence
