import Mathlib.Data.List.Nodup
import SpanishLua.Config.Json
import SpanishLua.Proofs.JsonText

namespace SpanishLua.Proofs.Roundtrip

open SpanishLua.Json
open SpanishLua.Proofs.JsonText

section Keys

variable {α : Type}

theorem place_last {key : String} (value : α) {entries : List (String × α)}
    (h : ∀ entry ∈ entries, entry.1 < key) :
    Overrides.place key value entries = entries ++ [(key, value)] := by
  induction entries with
  | nil => rfl
  | cons entry entries ih =>
      rw [List.forall_mem_cons] at h
      have hlt : ¬ key < entry.1 := fun hlt => String.lt_irrefl key (String.lt_trans hlt h.1)
      have hne : key ≠ entry.1 := by
        rintro rfl
        exact hlt h.1
      rw [Overrides.place, if_neg hlt, if_neg hne, ih h.2, List.cons_append]

theorem entries_foldl_insert {o : Overrides α} {more : List (String × α)}
    (h : (o.entries ++ more).Pairwise fun a b => a.1 < b.1) :
    (more.foldl (fun o (key, value) => o.insert key value) o).entries = o.entries ++ more := by
  induction more generalizing o with
  | nil => rw [List.append_nil, List.foldl_nil]
  | cons entry more ih =>
      have hlast : (o.insert entry.1 entry.2).entries = o.entries ++ [entry] :=
        place_last entry.2 fun other hother =>
          (List.pairwise_append.mp h).2.2 other hother entry (by simp)
      rw [List.append_cons, ← hlast] at h ⊢
      exact ih h

theorem ofList_entries (o : Overrides α) : Overrides.ofList o.entries = o := by
  have hentries : (Overrides.ofList o.entries).entries = o.entries :=
    entries_foldl_insert (o := .empty) o.ascending
  cases hput : Overrides.ofList o.entries with
  | mk entries ascending =>
      rw [hput] at hentries
      cases hentries
      rfl

end Keys

section Shapes

theorem readsBack_textString (level : Nat) (s : String) :
    ReadsBack readTextString ((textValue s).pretty level) s := by
  intro gap rest hgap hrest
  rw [readTextString, textValue, Value.pretty, readsBack_text s.toList gap rest hgap hrest]
  simp

theorem readsBack_texts (level : Nat) (l : List String) :
    ReadsBack (readArray readTextString) ((textsValue l).pretty level) l := by
  rw [textsValue, pretty_array, List.map_map]
  exact readsBack_array level (fun s _ => readsBack_textString _ s) fun s _ => rfl

theorem readsBack_overrides {α : Type} {read : List Char → Step α} {value : α → Value} {level : Nat}
    (h : ∀ a, ReadsBack read ((value a).pretty (level + 1)) a) (o : Overrides α) :
    ReadsBack (Overrides.read read) ((o.toValue value).pretty level) o := by
  intro gap rest hgap hrest
  let members := o.entries.map fun entry => (entry.1.toList, entry.2)
  have hmembers : ∀ m ∈ members, ReadsBack read ((value m.2).pretty (level + 1)) m.2 :=
    fun m _ => h m.2
  have hobject := readsBack_object (fun a => (value a).pretty (level + 1)) level hmembers gap rest
    hgap hrest
  have htext : (o.toValue value).pretty level = listing '\x7b' '\x7d' level
      (members.map fun m => member m.1 ((value m.2).pretty (level + 1))) := by
    simp [Overrides.toValue, pretty_object, members, Function.comp_def]
  have hentries : members.map (fun m => (String.ofList m.1, m.2)) = o.entries := by
    simp [members, Function.comp_def]
  rw [Overrides.read, htext, hobject]
  simp only [hentries, ofList_entries]

theorem ofValue?_toValue (o : ConstructorOverride) :
    ConstructorOverride.ofValue? o.toValue = some o := by
  cases o with
  | target lua => simp [ConstructorOverride.toValue, ConstructorOverride.ofValue?]
  | bounded lua maxArity =>
      cases maxArity <;>
        simp [ConstructorOverride.toValue, ConstructorOverride.ofValue?,
          ConstructorOverride.valuesUnder]

theorem readsBack_constructor (level : Nat) (o : ConstructorOverride) :
    ReadsBack ConstructorOverride.read (o.toValue.pretty level) o := by
  have hvalue : ReadsBack (readValue .full ConstructorOverride.maxDepth) (o.toValue.pretty level)
      o.toValue := by
    cases o with
    | target lua => exact readsBack_string _ level lua.toList
    | bounded lua maxArity =>
        apply readsBack_members
        rw [List.forall_mem_cons, List.forall_mem_singleton]
        refine ⟨readsBack_string _ _ _, ?_⟩
        cases maxArity with
        | none => exact readsBack_null _ _
        | some n => exact readsBack_natural _ _ n
  intro gap rest hgap hrest
  rw [ConstructorOverride.read, hvalue gap rest hgap hrest]
  simp only [ofValue?_toValue]

theorem readsBack_setting {ρ α : Type} {key : String} {read : List Char → Step α}
    {set : ρ → α → ρ} {r : ρ} {text : List Char} {a : α} (h : ReadsBack read text a) :
    ReadsBack ((settingField key read set).read r) text (set r a) := by
  intro gap rest hgap hrest
  simp only [settingField, h gap rest hgap hrest]

end Shapes

section Records

variable (level : Nat)

/-- The texts of the rules under their keys. -/
def ruleTexts (o : RuleOverrides) : List (List Char) :=
  [(o.keywords.toValue textValue).pretty level,
   (o.globalFunctions.toValue textValue).pretty level,
   (o.methods.toValue textValue).pretty level,
   (o.constructors.toValue ConstructorOverride.toValue).pretty level,
   (o.properties.toValue textValue).pretty level,
   (o.mathFunctions.toValue textValue).pretty level,
   (o.services.toValue textValue).pretty level,
   (o.enumFamilies.toValue textValue).pretty level,
   (o.enumMembers.toValue textValue).pretty level,
   (o.enumConstants.toValue textValue).pretty level]

theorem fills_rules (o : RuleOverrides) :
    Fills {} (RuleOverrides.fields.zip (ruleTexts level o)) o := by
  have htext (o : Overrides String) :
      ReadsBack (Overrides.read readTextString) ((o.toValue textValue).pretty level) o :=
    readsBack_overrides (fun s => readsBack_textString _ s) o
  have hconstructors : ReadsBack (Overrides.read ConstructorOverride.read)
      ((o.constructors.toValue ConstructorOverride.toValue).pretty level) o.constructors :=
    readsBack_overrides (fun c => readsBack_constructor _ c) o.constructors
  exact .cons (readsBack_setting (htext _)) <| .cons (readsBack_setting (htext _)) <|
    .cons (readsBack_setting (htext _)) <| .cons (readsBack_setting hconstructors) <|
    .cons (readsBack_setting (htext _)) <| .cons (readsBack_setting (htext _)) <|
    .cons (readsBack_setting (htext _)) <| .cons (readsBack_setting (htext _)) <|
    .cons (readsBack_setting (htext _)) <| .cons (readsBack_setting (htext _)) .nil

theorem nodup_ruleKeys : (RuleOverrides.fields.map (·.key)).Nodup := by
  have hkeys : ["keywords", "globalFunctions", "methods", "constructors", "properties",
      "mathFunctions", "services", "enumFamilies", "enumMembers", "enumConstants"].Nodup := by
    decide
  have hlists := List.Nodup.map (f := String.toList) (fun _ _ => String.toList_inj.mp) hkeys
  exact hlists

theorem readsBack_rules (o : RuleOverrides) :
    ReadsBack (readRecord RuleOverrides.fields {}) (o.toValue.pretty level) o := by
  rw [RuleOverrides.toValue, pretty_object]
  exact readsBack_record level (RuleOverrides.fields.zip (ruleTexts (level + 1) o)) nodup_ruleKeys
    (fills_rules (level + 1) o)

/-- The texts of a configuration under its keys. -/
def configTexts (c : Config) : List (List Char) :=
  [(textsValue c.includes).pretty level, (textsValue c.ignores).pretty level,
   (textValue c.outputExtension).pretty level, (textsValue c.forbiddenWords).pretty level,
   c.rules.toValue.pretty level]

theorem fills_config (c : Config) : Fills {} (Config.fields.zip (configTexts level c)) c :=
  .cons (readsBack_setting (readsBack_texts _ _)) <|
    .cons (readsBack_setting (readsBack_texts _ _)) <|
    .cons (readsBack_setting (readsBack_textString _ _)) <|
    .cons (readsBack_setting (readsBack_texts _ _)) <|
    .cons (readsBack_setting (readsBack_rules _ _)) .nil

theorem nodup_configKeys : (Config.fields.map (·.key)).Nodup := by
  have hkeys : ["includes", "ignores", "outputExtension", "forbiddenWords", "rules"].Nodup := by
    decide
  have hlists := List.Nodup.map (f := String.toList) (fun _ _ => String.toList_inj.mp) hkeys
  exact hlists

theorem readsBack_config (c : Config) :
    ReadsBack (readRecord Config.fields {}) (c.toValue.pretty level) c := by
  rw [Config.toValue, pretty_object]
  exact readsBack_record level (Config.fields.zip (configTexts (level + 1) c)) nodup_configKeys
    (fills_config (level + 1) c)

end Records

/-- A configuration is read from its own text as it was. -/
theorem ofText_toText (c : Config) : Config.ofText c.toText = .ok c := by
  rw [Config.ofText, Config.toText]
  exact readAll_of_readsBack (readsBack_config 0 c)

end SpanishLua.Proofs.Roundtrip
