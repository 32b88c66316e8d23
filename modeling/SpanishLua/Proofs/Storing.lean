import SpanishLua.Proofs.Characters
import SpanishLua.Proofs.Tables

namespace SpanishLua.Proofs.Storing

open SpanishLua.RuleTable
open SpanishLua.Text
open SpanishLua.Proofs.Characters
open SpanishLua.Proofs.Tables

/-- A category and a word of it in lower case: at most one rule stands there. -/
abbrev Slot := Category × List Char

/-- The slot of a rule. -/
def slot (r : Rule) : Slot :=
  (r.category, r.key)

/-- The rule may be stored: it has a target, and its source is an identifier or, for the item of an
enumeration, two identifiers with a dot between them. -/
def Fits (r : Rule) : Prop :=
  r.target ≠ "" ∧
    if r.category = .enumMember then
      ∃ family member, r.source.toList = family ++ '.' :: member ∧
        isIdentifier family = true ∧ isIdentifier member = true
    else isIdentifier r.source.toList = true

/-- The rule that is stored for `r` where `old?` stood: it keeps a bound that `r` does not give. -/
def successor (old? : Option Rule) (r : Rule) : Rule :=
  { r with maxArity := r.maxArity.or (old?.bind (·.maxArity)) }

theorem dot_notMem_of_isIdentifier {s : List Char} (h : isIdentifier s = true) : '.' ∉ s := by
  intro hmem
  have hdot := continuesIdentifier_of_isIdentifier h '.' hmem
  exact absurd hdot (by decide)

theorem admits_enumMember_iff {source : List Char} :
    Category.enumMember.admits source = true ↔
      ∃ family member, source = family ++ '.' :: member ∧
        isIdentifier family = true ∧ isIdentifier member = true := by
  constructor
  · intro h
    rw [Category.admits] at h
    split at h
    · simp at h
    · rename_i c member hdrop
      have hstop := List.head?_dropWhile_not (· != '.') source
      rw [hdrop] at hstop
      obtain rfl : c = '.' := by simpa using hstop
      rw [Bool.and_eq_true] at h
      refine ⟨source.takeWhile (· != '.'), member, ?_, h⟩
      rw [← hdrop, List.takeWhile_append_dropWhile]
  · rintro ⟨family, member, rfl, hfamily, hmember⟩
    -- no identifier holds a dot, so the source is cut where its first dot is
    have hdot := dot_notMem_of_isIdentifier hfamily
    have hkeep : ∀ c ∈ family, (c != '.') = true := by
      intro c hc
      rw [bne_iff_ne]
      exact fun hcdot => hdot (hcdot ▸ hc)
    have hdrop : (family ++ '.' :: member).dropWhile (· != '.') = '.' :: member := by
      rw [List.dropWhile_append_of_pos hkeep]
      simp
    have htake : (family ++ '.' :: member).takeWhile (· != '.') = family := by
      rw [List.takeWhile_append_of_pos hkeep]
      simp
    simp [Category.admits, hdrop, htake, hfamily, hmember]

theorem isValid_iff_fits {r : Rule} : r.isValid = true ↔ Fits r := by
  rw [Rule.isValid, Bool.and_eq_true, bne_iff_ne, and_comm, Fits, Rule.hasValidSource]
  refine and_congr_right fun _ => ?_
  split
  · rename_i hcategory
    rw [hcategory]
    exact admits_enumMember_iff
  · rename_i hcategory
    rw [Category.admits]
    exact hcategory

instance (r : Rule) : Decidable (Fits r) :=
  decidable_of_iff _ isValid_iff_fits

theorem find?_eq (t : RuleTable) (category : Category) (key : List Char) :
    t.find? category key = t.entries.find? (slot · = (category, key)) := by
  rw [RuleTable.find?, RuleTable.rules, List.find?_filter]
  simp [slot]

theorem map_key_rules (t : RuleTable) (category : Category) :
    (t.rules category).map Rule.key =
      ((t.entries.map slot).filter (·.1 = category)).map (·.2) := by
  rw [RuleTable.rules, List.filter_map, List.map_map]
  rfl

theorem wellFormed_iff {t : RuleTable} :
    WellFormed t ↔ (∀ r ∈ t.entries, Fits r) ∧ (t.entries.map slot).Nodup := by
  constructor
  · intro h
    refine ⟨fun r hr => isValid_iff_fits.mp (h.valid r hr), ?_⟩
    -- rules of different categories have different slots
    refine List.Nodup.map_on ?_ ?_
    · intro r hr r' hr' hslot
      obtain ⟨hcategory, hkey⟩ := Prod.mk.inj hslot
      exact List.inj_on_of_nodup_map (h.distinct r.category) (mem_rules_iff.mpr ⟨hr, rfl⟩)
        (mem_rules_iff.mpr ⟨hr', hcategory.symm⟩) hkey
    · rw [List.nodup_iff_count_le_one]
      intro r
      have hrules : (t.rules r.category).Nodup := (h.distinct r.category).of_map
      rw [RuleTable.rules, List.nodup_iff_count_le_one] at hrules
      have hcount := hrules r
      rwa [List.count_filter (by simp)] at hcount
  · rintro ⟨hfits, hnodup⟩
    refine ⟨fun r hr => isValid_iff_fits.mpr (hfits r hr), fun category => ?_⟩
    rw [map_key_rules]
    refine List.Nodup.map_on ?_ (hnodup.filter _)
    intro s hs s' hs' hkey
    have hcategory := (List.mem_filter.mp hs).2
    have hcategory' := (List.mem_filter.mp hs').2
    simp only [decide_eq_true_eq] at hcategory hcategory'
    exact Prod.ext (hcategory.trans hcategory'.symm) hkey

theorem wellFormed_empty : WellFormed .empty :=
  wellFormed_iff.mpr ⟨by simp [RuleTable.empty], by simp [RuleTable.empty]⟩

@[simp] theorem successor_none (r : Rule) : successor none r = r := by
  simp [successor]

theorem successor_some (old r : Rule) : successor (some old) r = replacement old r :=
  rfl

@[simp] theorem slot_successor (old? : Option Rule) (r : Rule) : slot (successor old? r) = slot r :=
  rfl

theorem Fits.successor {r : Rule} (h : Fits r) (old? : Option Rule) :
    Fits (successor old? r) :=
  h

section Place

variable (r : Rule) (entries : List Rule)

theorem place_cons (old : Rule) :
    place r (old :: entries) =
      if slot old = slot r then successor (some old) r :: entries else old :: place r entries := by
  rw [place]
  simp [slot, successor_some]

theorem map_slot_place :
    (place r entries).map slot =
      if slot r ∈ entries.map slot then entries.map slot else entries.map slot ++ [slot r] := by
  induction entries with
  | nil => simp [place]
  | cons old rest ih =>
      rw [place_cons]
      by_cases hold : slot old = slot r
      · simp [hold]
      · rw [if_neg hold, List.map_cons, ih]
        by_cases hrest : slot r ∈ rest.map slot
        · rw [if_pos hrest, if_pos (by simp [hrest])]
          rfl
        · rw [if_neg hrest, if_neg (by rw [List.map_cons, List.mem_cons, not_or]
                                       exact ⟨Ne.symm hold, hrest⟩)]
          rfl

theorem find?_place_self :
    (place r entries).find? (slot · = slot r) =
      some (successor (entries.find? (slot · = slot r)) r) := by
  induction entries with
  | nil => simp [place]
  | cons old rest ih =>
      rw [place_cons]
      by_cases hold : slot old = slot r
      · simp [hold]
      · simpa [hold] using ih

variable {r}

theorem find?_place_of_ne {s : Slot} (h : s ≠ slot r) :
    (place r entries).find? (slot · = s) = entries.find? (slot · = s) := by
  induction entries with
  | nil => simp [place, Ne.symm h]
  | cons old rest ih =>
      rw [place_cons]
      by_cases hold : slot old = slot r
      · simp [hold, Ne.symm h]
      · rw [if_neg hold, List.find?_cons, List.find?_cons, ih]

variable {entries}

theorem fits_of_mem_place (hr : Fits r) (h : ∀ r' ∈ entries, Fits r') :
    ∀ r' ∈ place r entries, Fits r' := by
  induction entries with
  | nil => simpa [place] using hr
  | cons old rest ih =>
      obtain ⟨hold, hrest⟩ := List.forall_mem_cons.mp h
      rw [place_cons]
      split
      · exact List.forall_mem_cons.mpr ⟨hr.successor _, hrest⟩
      · exact List.forall_mem_cons.mpr ⟨hold, ih hrest⟩

theorem WellFormed.place {t : RuleTable} (ht : WellFormed t) (hr : Fits r) :
    WellFormed { entries := place r t.entries } := by
  obtain ⟨hfits, hnodup⟩ := wellFormed_iff.mp ht
  refine wellFormed_iff.mpr ⟨fits_of_mem_place hr hfits, ?_⟩
  rw [map_slot_place]
  split
  · exact hnodup
  · rename_i hnew
    exact List.nodup_append.mpr ⟨hnodup, by simp, by
      intro s hs s' hs' heq
      rw [List.mem_singleton.mp hs'] at heq
      exact hnew (heq ▸ hs)⟩

theorem place_of_free (h : entries.find? (slot · = slot r) = none) :
    RuleTable.place r entries = entries ++ [r] := by
  induction entries with
  | nil => rfl
  | cons old rest ih =>
      rw [List.find?_cons] at h
      split at h
      · simp at h
      · rename_i hold
        rw [place_cons, if_neg (by simpa using hold), ih h, List.cons_append]

end Place

theorem tryInsert_eq (t : RuleTable) (r : Rule) :
    t.tryInsert r =
      if Fits r then
        if (t.find? r.category r.key).isSome then (.error (.duplicate r.category r.source), t)
        else (.ok (), ⟨place r t.entries⟩)
      else (.error (.invalid r.category r.source), t) := by
  rw [tryInsert]
  by_cases hfits : Fits r
  · rw [if_pos hfits, isValid_iff_fits.mpr hfits]
    cases hfind : t.find? r.category r.key with
    | some old => rfl
    | none =>
        have hfree : t.entries.find? (slot · = slot r) = none := (find?_eq t _ _).symm.trans hfind
        rw [place_of_free hfree]
        rfl
  · rw [if_neg hfits, if_pos (by simpa using mt isValid_iff_fits.mp hfits)]

theorem insert_eq (t : RuleTable) (r : Rule) :
    t.insert r =
      if Fits r then
        if (t.find? r.category r.key).isSome then .error (.duplicate r.category r.source)
        else .ok ⟨place r t.entries⟩
      else .error (.invalid r.category r.source) := by
  rw [RuleTable.insert, tryInsert_eq]
  split
  · split <;> rfl
  · rfl

theorem fits_of_insert {t t' : RuleTable} {r : Rule} (h : t.insert r = .ok t') : Fits r := by
  rw [insert_eq] at h
  split at h
  · assumption
  · simp at h

theorem WellFormed.insert {t t' : RuleTable} (ht : WellFormed t) {r : Rule}
    (h : t.insert r = .ok t') : WellFormed t' := by
  have hfits := fits_of_insert h
  rw [insert_eq, if_pos hfits] at h
  split at h
  · simp at h
  · obtain rfl := Except.ok.inj h
    exact WellFormed.place ht hfits

theorem entries_of_insert {t t' : RuleTable} {r : Rule} (h : t.insert r = .ok t') :
    t'.entries = t.entries ++ [r] := by
  rw [RuleTable.insert, tryInsert] at h
  split at h
  · simp [afterSuccess] at h
  · split at h
    · simp [afterSuccess] at h
    · obtain rfl := Except.ok.inj h
      rfl

theorem tryUpsert_eq (t : RuleTable) (r : Rule) :
    t.tryUpsert r =
      if Fits r then (.ok (), ⟨place r t.entries⟩)
      else (.error (.invalid r.category r.source), t) := by
  rw [tryUpsert]
  by_cases hfits : Fits r
  · rw [if_pos hfits, isValid_iff_fits.mpr hfits]
    rfl
  · rw [if_neg hfits, if_pos (by simpa using mt isValid_iff_fits.mp hfits)]

theorem upsert_eq (t : RuleTable) (r : Rule) :
    t.upsert r =
      if Fits r then .ok ⟨place r t.entries⟩ else .error (.invalid r.category r.source) := by
  rw [RuleTable.upsert, tryUpsert_eq]
  split <;> rfl

end SpanishLua.Proofs.Storing
