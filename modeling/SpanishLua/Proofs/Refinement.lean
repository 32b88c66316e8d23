import Mathlib.Data.Set.Card
import SpanishLua.Proofs.Defaults
import SpanishLua.Proofs.Storing

namespace SpanishLua.Proofs.Refinement

open SpanishLua.RuleTable
open SpanishLua.Proofs.Tables
open SpanishLua.Proofs.Defaults
open SpanishLua.Proofs.Storing

/-- Rules by slot, and the slots that hold one in the order in which they were first filled. -/
@[ext] structure OrderedMap where
  order : List Slot
  rule? : Slot → Option Rule

namespace OrderedMap

/-- No rules. -/
def empty : OrderedMap where
  order := []
  rule? _ := none

/-- Stores a rule in its slot. A slot that was filled before stays where it is in the order. -/
def put (m : OrderedMap) (r : Rule) : OrderedMap where
  order := if slot r ∈ m.order then m.order else m.order ++ [slot r]
  rule? := Function.update m.rule? (slot r) (some r)

/-- Rules stored one after the other. -/
def ofRules (rules : List Rule) : OrderedMap :=
  rules.foldl put empty

@[simp] theorem rule?_put_self (m : OrderedMap) (r : Rule) : (m.put r).rule? (slot r) = some r :=
  Function.update_self ..

theorem rule?_put_of_ne (m : OrderedMap) {r : Rule} {s : Slot} (h : s ≠ slot r) :
    (m.put r).rule? s = m.rule? s :=
  Function.update_of_ne h ..

end OrderedMap

/-- A call that stores a rule. -/
inductive Call where
  | insert (r : Rule)
  | upsert (r : Rule)

namespace Call

/-- What a call answers, and the table after it. -/
def onTable (t : RuleTable) : Call → Except RuleError Unit × RuleTable
  | insert r => t.tryInsert r
  | upsert r => t.tryUpsert r

/-- What a call answers, and the map after it: a rule that does not fit is refused first, then an
insertion into a slot that is filled; a rule that replaces another keeps its bound unless it gives
one. -/
def onMap (m : OrderedMap) : Call → Except RuleError Unit × OrderedMap
  | insert r =>
      if ¬ Fits r then (.error (.invalid r.category r.source), m)
      else
        match m.rule? (slot r) with
        | some _ => (.error (.duplicate r.category r.source), m)
        | none => (.ok (), m.put r)
  | upsert r =>
      if ¬ Fits r then (.error (.invalid r.category r.source), m)
      else
        match m.rule? (slot r) with
        | some old => (.ok (), m.put { r with maxArity := r.maxArity.or old.maxArity })
        | none => (.ok (), m.put r)

end Call

/-- The table after calls, those that fail among them. -/
def tableAfter (t : RuleTable) (calls : List Call) : RuleTable :=
  calls.foldl (fun t call => (call.onTable t).2) t

/-- The map after calls, those that fail among them. -/
def mapAfter (m : OrderedMap) (calls : List Call) : OrderedMap :=
  calls.foldl (fun m call => (call.onMap m).2) m

/-- The table holds what the map does, and passes its check. -/
structure Refines (t : RuleTable) (m : OrderedMap) : Prop where
  accepted : t.validate = .ok ()
  distinct : ∀ category, ((t.rules category).map (wordKey ·.source.toList)).Nodup
  lookup : ∀ category token, t.lookup? category token = m.rule? (category, wordKey token.toList)
  target : ∀ category token,
    t.target? category token = (m.rule? (category, wordKey token.toList)).map (·.target)
  size : t.size = { s | (m.rule? s).isSome = true }.ncard
  order : ∀ category, (t.rules category).map (wordKey ·.source.toList) =
    (m.order.filter (·.1 = category)).map (·.2)

/-- How the table answers the next call. -/
structure Answers (t : RuleTable) : Prop where
  insert : ∀ r e, t.insert r = .error e ↔
    (¬ Fits r ∧ e = .invalid r.category r.source) ∨
      (Fits r ∧ (t.lookup? r.category r.source).isSome = true ∧
        e = .duplicate r.category r.source)
  upsert : ∀ r e, t.upsert r = .error e ↔ ¬ Fits r ∧ e = .invalid r.category r.source
  unchanged : ∀ (call : Call) e, (call.onTable t).1 = .error e → (call.onTable t).2 = t
  replaced : ∀ r old, Fits r → t.lookup? r.category r.source = some old →
    ∃ t', t.upsert r = .ok t' ∧ t'.lookup? r.category r.source =
      some { r with maxArity := if r.maxArity = none then old.maxArity else r.maxArity }

/-- The map that a table stands for. -/
def view (t : RuleTable) : OrderedMap where
  order := t.entries.map slot
  rule? s := t.find? s.1 s.2

theorem view_rule? (t : RuleTable) (s : Slot) :
    (view t).rule? s = t.entries.find? (slot · = s) :=
  find?_eq t s.1 s.2

theorem view_place (t : RuleTable) (r : Rule) :
    view ⟨place r t.entries⟩ = (view t).put (successor ((view t).rule? (slot r)) r) := by
  refine OrderedMap.ext (map_slot_place r t.entries) (funext fun s => ?_)
  rw [view_rule?]
  by_cases hs : s = slot r
  · rw [hs, find?_place_self, ← view_rule?]
    exact (OrderedMap.rule?_put_self _ _).symm
  · rw [find?_place_of_ne _ hs, ← view_rule?]
    exact (OrderedMap.rule?_put_of_ne (view t) (r := successor _ r) hs).symm

/-- A call does the same to a table and to the map that it stands for. -/
theorem map_view_onTable (t : RuleTable) (call : Call) :
    (call.onTable t).map id view = call.onMap (view t) := by
  cases call with
  | insert r =>
      rw [Call.onTable, Call.onMap, tryInsert_eq]
      by_cases hfits : Fits r
      · rw [if_pos hfits, if_neg (not_not.mpr hfits)]
        cases hfind : t.find? r.category r.key with
        | some old =>
            have hrule : (view t).rule? (slot r) = some old := hfind
            rw [hrule]
            rfl
        | none =>
            have hrule : (view t).rule? (slot r) = none := hfind
            have hview := view_place t r
            rw [hrule, successor_none] at hview
            rw [hrule, ← hview]
            rfl
      · rw [if_neg hfits, if_pos hfits]
        rfl
  | upsert r =>
      rw [Call.onTable, Call.onMap, tryUpsert_eq]
      by_cases hfits : Fits r
      · rw [if_pos hfits, if_neg (not_not.mpr hfits), Prod.map_apply, view_place]
        cases (view t).rule? (slot r) with
        | some old => rfl
        | none =>
            rw [successor_none]
            rfl
      · rw [if_neg hfits, if_pos hfits]
        rfl

theorem view_tableAfter (t : RuleTable) (calls : List Call) :
    view (tableAfter t calls) = mapAfter (view t) calls := by
  induction calls generalizing t with
  | nil => rfl
  | cons call calls ih =>
      have hstep : view (call.onTable t).2 = (call.onMap (view t)).2 := by
        rw [← map_view_onTable, Prod.map_snd]
      rw [tableAfter, List.foldl_cons, mapAfter, List.foldl_cons, ← hstep]
      exact ih _

theorem onTable_cases (t : RuleTable) (call : Call) :
    (∃ r, Fits r ∧ call.onTable t = (.ok (), ⟨place r t.entries⟩)) ∨
      ∃ e, call.onTable t = (.error e, t) := by
  cases call with
  | insert r =>
      rw [Call.onTable, tryInsert_eq]
      split
      · rename_i hfits
        split
        · exact .inr ⟨_, rfl⟩
        · exact .inl ⟨r, hfits, rfl⟩
      · exact .inr ⟨_, rfl⟩
  | upsert r =>
      rw [Call.onTable, tryUpsert_eq]
      split
      · rename_i hfits
        exact .inl ⟨r, hfits, rfl⟩
      · exact .inr ⟨_, rfl⟩

theorem wellFormed_tableAfter {t : RuleTable} (ht : WellFormed t) (calls : List Call) :
    WellFormed (tableAfter t calls) := by
  induction calls generalizing t with
  | nil => exact ht
  | cons call calls ih =>
      rw [tableAfter, List.foldl_cons]
      apply ih
      rcases onTable_cases t call with ⟨r, hfits, hcall⟩ | ⟨e, hcall⟩
      · rw [hcall]
        exact WellFormed.place ht hfits
      · rw [hcall]
        exact ht

theorem view_ofRules {rules : List Rule} (h : (rules.map slot).Nodup) :
    view ⟨rules⟩ = OrderedMap.ofRules rules := by
  induction rules using List.reverseRecOn with
  | nil => rfl
  | append_singleton rules r ih =>
      rw [List.map_append, List.nodup_append] at h
      obtain ⟨hrules, -, hnew⟩ := h
      have hfree : rules.find? (slot · = slot r) = none := by
        rw [List.find?_eq_none]
        intro r' hr' hslot
        exact hnew _ (List.mem_map_of_mem hr') (slot r) (by simp) (by simpa using hslot)
      have hview := view_place ⟨rules⟩ r
      rw [place_of_free hfree, view_rule?, hfree, successor_none] at hview
      rw [hview, ih hrules, OrderedMap.ofRules, OrderedMap.ofRules, List.foldl_concat]

theorem refines_view {t : RuleTable} (ht : WellFormed t) : Refines t (view t) where
  accepted := validate_eq_ok_iff.mpr ht
  distinct := ht.distinct
  lookup _ _ := rfl
  target _ _ := rfl
  size := by
    obtain ⟨-, hnodup⟩ := wellFormed_iff.mp ht
    have hfilled : { s | ((view t).rule? s).isSome = true } =
        ((t.entries.map slot).toFinset : Set Slot) := by
      ext s
      simp [view_rule?]
    rw [hfilled, Set.ncard_coe_finset, List.toFinset_card_of_nodup hnodup, List.length_map]
    rfl
  order := map_key_rules t

theorem answers (t : RuleTable) : Answers t where
  insert r e := by
    have hlookup : t.lookup? r.category r.source = t.find? r.category r.key := rfl
    rw [insert_eq, hlookup]
    by_cases hfits : Fits r
    · by_cases hfind : (t.find? r.category r.key).isSome = true
      · rw [if_pos hfits, if_pos hfind, Except.error.injEq, eq_comm]
        simp [hfits, hfind]
      · simp [hfits, hfind]
    · rw [if_neg hfits, Except.error.injEq, eq_comm]
      simp [hfits]
  upsert r e := by
    rw [upsert_eq]
    by_cases hfits : Fits r
    · simp [hfits]
    · rw [if_neg hfits, Except.error.injEq, eq_comm]
      simp [hfits]
  unchanged call e h := by
    rcases onTable_cases t call with ⟨r, -, hcall⟩ | ⟨e', hcall⟩
    · simp [hcall] at h
    · rw [hcall]
  replaced r old hfits hold := by
    refine ⟨_, (upsert_eq t r).trans (if_pos hfits), ?_⟩
    have hfind : t.entries.find? (slot · = slot r) = some old := (find?_eq t _ _).symm.trans hold
    have hplace := find?_place_self r t.entries
    rw [hfind] at hplace
    refine (find?_eq _ _ _).trans (hplace.trans ?_)
    cases hbound : r.maxArity <;> simp [successor, hbound]

/-- From the empty or the default table on, and whatever calls are made, the table is the map that
the same calls make of its first rules, and it refuses exactly the rules that do not fit and
insertions under keys that it has. -/
theorem tableAfter_refines {start : RuleTable} (hstart : start = .empty ∨ start = .default)
    (calls : List Call) :
    Refines (tableAfter start calls) (mapAfter (.ofRules start.entries) calls) ∧
      Answers (tableAfter start calls) := by
  have hwell : WellFormed start := by
    rcases hstart with rfl | rfl
    · exact wellFormed_empty
    · exact default_wellFormed
  obtain ⟨-, hnodup⟩ := wellFormed_iff.mp hwell
  refine ⟨?_, answers _⟩
  rw [← view_ofRules hnodup, ← view_tableAfter]
  exact refines_view (wellFormed_tableAfter hwell calls)

theorem tableAfter_refines_color3 :
    let calls : List Call :=
      [.insert ⟨.constructorName, "Color3", "Color3", some 3⟩,
       .insert ⟨.keyword, "fin", "end", none⟩,
       .insert ⟨.constructorName, "COLOR3", "Color", some 4⟩,
       .upsert ⟨.keyword, "si no", "x", none⟩,
       .upsert ⟨.constructorName, "color3", "Colour3", none⟩]
    let t := tableAfter .empty calls
    t = ⟨[⟨.constructorName, "color3", "Colour3", some 3⟩, ⟨.keyword, "fin", "end", none⟩]⟩ ∧
      Refines t (mapAfter (.ofRules []) calls) ∧ Answers t := by
  intro calls t
  exact ⟨by decide, tableAfter_refines (.inl rfl) calls⟩

end SpanishLua.Proofs.Refinement
