import SpanishLua.Command.Run
import SpanishLua.Proofs.Evaluation
import SpanishLua.Proofs.Merging
import SpanishLua.Proofs.Roundtrip
import SpanishLua.Proofs.Walking

namespace SpanishLua.Proofs.Loading

open SpanishLua.Files
open SpanishLua.Command
open SpanishLua.Proofs.Documents
open SpanishLua.Proofs.Evaluation
open SpanishLua.Proofs.Tables
open SpanishLua.Proofs.Defaults
open SpanishLua.Proofs.Lines
open SpanishLua.Proofs.Storing
open SpanishLua.Proofs.Merging
open SpanishLua.Proofs.JsonText
open SpanishLua.Proofs.Roundtrip
open SpanishLua.Proofs.Trees
open SpanishLua.Proofs.Walking

section Patterns

theorem parsePatterns_cons (text : String) (texts : List String) :
    Config.parsePatterns (text :: texts) =
      match PathPattern.parse text.toList with
      | .error e => .error (.pattern text e)
      | .ok p => (Config.parsePatterns texts).map (p :: ·) := by
  rw [Config.parsePatterns, List.mapM_cons]
  cases PathPattern.parse text.toList with
  | error e => rfl
  | ok p =>
      change (Config.parsePatterns texts >>= fun ps => Except.ok (p :: ps)) = _
      cases Config.parsePatterns texts <;> rfl

theorem patternFault?_cons (text : String) (texts : List String) :
    Config.patternFault? (text :: texts) =
      match PathPattern.parse text.toList with
      | .error e => some (text, e)
      | .ok _ => Config.patternFault? texts := by
  rw [Config.patternFault?, List.findSome?_cons]
  cases PathPattern.parse text.toList <;> rfl

theorem exists_parsePatterns {texts : List String} (h : Config.patternFault? texts = none) :
    ∃ patterns, Config.parsePatterns texts = .ok patterns ∧
      ∀ p, p ∈ patterns ↔ ∃ text ∈ texts, PathPattern.parse text.toList = .ok p := by
  induction texts with
  | nil => exact ⟨[], rfl, by simp⟩
  | cons text texts ih =>
      rw [patternFault?_cons] at h
      rw [parsePatterns_cons]
      cases htext : PathPattern.parse text.toList with
      | error e => simp [htext] at h
      | ok p =>
          rw [htext] at h
          obtain ⟨patterns, hpatterns, hmem⟩ := ih h
          refine ⟨p :: patterns, by rw [hpatterns]; rfl, fun q => ?_⟩
          simp [hmem, htext, eq_comm]

end Patterns

theorem wellFormed_of_ruleTable {c : Config} {rules : RuleTable} (h : c.ruleTable = .ok rules) :
    WellFormed rules := by
  rw [Config.ruleTable, mergeRules_eq] at h
  split at h
  · simp at h
  · rename_i hfits
    obtain rfl := Except.ok.inj h
    refine wellFormed_placeAll default_wellFormed fun r hr => ?_
    simpa using List.find?_eq_none.mp hfits r hr

section Config

variable {c : Config} {t : FileTree} {cwd : Location} {path : Option TreePath}

theorem fault?_eq_none_iff :
    c.fault? = none ↔
      Config.patternFault? c.ignores = none ∧ Config.patternFault? c.includes = none ∧
        c.extension ≠ "" := by
  rw [Config.fault?]
  cases Config.patternFault? c.ignores with
  | some fault => simp
  | none =>
      cases Config.patternFault? c.includes with
      | some fault => simp
      | none => simp

theorem fault?_default : ({} : Config).fault? = none := by
  decide

theorem fault?_of_loadFrom {start : TreePath} (h : loadFrom t cwd start = .ok (c, path)) :
    c.fault? = none := by
  rw [loadFrom] at h
  split at h
  · obtain ⟨rfl, -⟩ := Prod.mk.inj (Except.ok.inj h)
    exact fault?_default
  · split at h
    · simp at h
    · split at h
      · simp at h
      · split at h
        · simp at h
        · rename_i hfault
          obtain ⟨rfl, -⟩ := Prod.mk.inj (Except.ok.inj h)
          exact hfault

theorem fault?_of_loadConfig (h : loadConfig t cwd = .ok (c, path)) : c.fault? = none := by
  rw [loadConfig] at h
  split at h
  · exact fault?_of_loadFrom h
  · simp at h

theorem ancestors_eq_cons (p : TreePath) : ∃ above, p.ancestors = p :: above := by
  rw [TreePath.ancestors]
  split
  · exact ⟨[], rfl⟩
  · exact ⟨_, rfl⟩

theorem discover_of_stands {start : TreePath}
    (h : t.stands cwd (start.child Config.fileName) = true) :
    Config.discover t cwd start = some (start.child Config.fileName) := by
  obtain ⟨above, habove⟩ := ancestors_eq_cons start
  rw [Config.discover, habove, Config.home?, if_pos h]
  rfl

theorem stands_of_read {p : TreePath} {s : String} (h : t.read cwd p = .ok s) :
    t.stands cwd p = true := by
  obtain ⟨l, hresolve, -⟩ := read_eq_ok_iff.mp h
  exact stands_iff.mpr ⟨l, resolve_eq_ok_iff.mp hresolve⟩

/-- Every configuration that passes its check can be loaded: from its own text. -/
theorem loadConfig_of_text (hfault : c.fault? = none) (hcwd : t.get? cwd = some .directory)
    (hread : t.read cwd (cwd.path.child Config.fileName) = .ok (String.ofList c.toText)) :
    loadConfig t cwd = .ok (c, some (cwd.path.child Config.fileName)) := by
  have htext : Config.ofText (String.ofList c.toText).toList = .ok c := by
    rw [String.toList_ofList]
    exact readAll_of_readsBack (readsBack_config 0 c)
  rw [loadConfig, hcwd]
  simp only [loadFrom, discover_of_stands (stands_of_read hread), hread, htext, hfault]

theorem stands_root_fileName (h : t.get? [Config.fileName] = none) :
    t.stands [] ⟨"/.voxrc.json"⟩ = false := by
  have hpieces : FileTree.pieces ⟨"/.voxrc.json"⟩ = ["", Config.fileName] := by decide +kernel
  have hstart : FileTree.start [] ⟨"/.voxrc.json"⟩ = [] := by decide +kernel
  rw [Bool.eq_false_iff, ne_eq, stands_iff]
  rintro ⟨l, harrives, hsome⟩
  have hfollows := harrives.follows
  rw [hpieces, hstart] at hfollows
  cases hfollows with
  | link hlink => exact absurd rfl hlink.isName.ne_empty
  | step hleads hrest =>
      obtain ⟨rfl, -⟩ := eq_of_leads_empty hleads
      rcases hrest.of_name isEntry_fileName.toIsName with rfl | ⟨p, hlink⟩
      · exact hsome h
      · simp [h] at hlink

theorem loadConfig_default (h : t.get? [Config.fileName] = none) :
    loadConfig t [] = .ok ({}, none) := by
  have hancestors : TreePath.ancestors ⟨"/"⟩ = [⟨"/"⟩] := by decide +kernel
  have hchild : TreePath.child ⟨"/"⟩ Config.fileName = ⟨"/.voxrc.json"⟩ := by decide +kernel
  have hdiscover : Config.discover t [] ⟨"/"⟩ = none := by
    rw [Config.discover, hancestors, Config.home?, hchild, stands_root_fileName h]
    simp [Config.home?]
  have hpath : Location.path [] = ⟨"/"⟩ := rfl
  rw [loadConfig, FileTree.get?, if_pos rfl, hpath, loadFrom, hdiscover]

theorem exists_loadConfig {context : Context} (h : Context.load t cwd = .ok context) :
    ∃ path, loadConfig t cwd = .ok (context.config, path) := by
  rw [Context.load] at h
  split at h
  · simp at h
  · rename_i config path hconfig
    split at h
    · simp at h
    · split at h
      · simp at h
      · obtain rfl := Except.ok.inj h
        exact ⟨path, hconfig⟩

theorem exists_patterns (h : c.fault? = none) :
    ∃ includes ignores, c.patterns = .ok (includes, ignores) ∧
      (∀ p, p ∈ includes ↔ ∃ text ∈ c.includes, PathPattern.parse text.toList = .ok p) ∧
      ∀ p, p ∈ ignores ↔ ∃ text ∈ c.ignores, PathPattern.parse text.toList = .ok p := by
  obtain ⟨hignores, hincludes, -⟩ := fault?_eq_none_iff.mp h
  obtain ⟨includes, hincludes, hinclude⟩ := exists_parsePatterns hincludes
  obtain ⟨ignores, hignores, hignore⟩ := exists_parsePatterns hignores
  refine ⟨includes, ignores, ?_, hinclude, hignore⟩
  rw [Config.patterns, hincludes]
  simp only [hignores]

theorem load_eq_ok {rules : RuleTable} {translator : Translator}
    (hconfig : loadConfig t cwd = .ok (c, path)) (hrules : c.ruleTable = .ok rules)
    (htranslator : Translator.ofTable rules c.forbiddenWords = .ok translator) :
    Context.load t cwd = .ok ⟨c, translator⟩ := by
  rw [Context.load, hconfig]
  simp only [hrules, htranslator]

theorem exists_load {rules : RuleTable} (hconfig : loadConfig t cwd = .ok (c, path))
    (hrules : c.ruleTable = .ok rules) :
    ∃ translator, Context.load t cwd = .ok ⟨c, translator⟩ := by
  obtain ⟨translator, htranslator⟩ :=
    exists_ofTable (wellFormed_of_ruleTable hrules) c.forbiddenWords
  exact ⟨translator, load_eq_ok hconfig hrules htranslator⟩

end Config

section Default

/-- The translator of a directory without a configuration. -/
def defaultTranslator : Translator :=
  ⟨RuleTable.default, .ofExtra [], .ofTable RuleTable.default⟩

theorem load_default {t : FileTree} (h : t.get? [Config.fileName] = none) :
    Context.load t [] = .ok ⟨{}, defaultTranslator⟩ :=
  load_eq_ok (loadConfig_default h) rfl (ofTable_default [])

theorem translate_imprimir (label : String) :
    defaultTranslator.translate "imprimir(1)\n".toList label = .ok "print(1)\n".toList := by
  have hline : defaultTranslator.translateLine "imprimir(1)".toList = .ok "print(1)".toList := by
    rw [defaultTranslator, ← translateLine_spelled]
    decide +kernel
  have hfind : defaultTranslator.denyList.findFrom? label 1
      (Text.lines "imprimir(1)\n".toList) = none := by rfl
  have hcheck : defaultTranslator.denyList.check "imprimir(1)\n".toList label = .ok () := by
    rw [DenyList.check, hfind]
  have hlines : Text.lines "imprimir(1)\n".toList = ["imprimir(1)".toList, []] := by decide +kernel
  refine translate_eq_ok_iff.mpr ⟨hcheck, ["print(1)".toList, []], rfl, ?_⟩
  rw [hlines]
  exact .cons hline (.cons rfl .nil)

theorem translate_debug (label : String) :
    defaultTranslator.translate "debug\n".toList label =
      .error (.forbidden ⟨"debug", 1, 1, label⟩) := by
  have hdenied : defaultTranslator.denyList.check "debug\n".toList label =
      .error ⟨"debug", 1, 1, label⟩ := by rfl
  rw [Translator.translate, hdenied]

end Default

end SpanishLua.Proofs.Loading
