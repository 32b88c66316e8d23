import SpanishLua.Proofs.Commands
import SpanishLua.Proofs.Loading

namespace SpanishLua.Proofs.Aborting

open SpanishLua.Files
open SpanishLua.Command
open SpanishLua.Proofs.Trees
open SpanishLua.Proofs.Commands
open SpanishLua.Proofs.Loading
open SpanishLua.Proofs.Walking

section Extension

theorem mem_extension_iff (c : Config) :
    '/' ∈ c.extension.toList ↔ '/' ∈ c.outputExtension.toList := by
  rw [Config.extension, String.toList_ofList]
  constructor
  · intro h
    exact (List.dropWhile_sublist _).subset h
  · intro h
    rw [← List.takeWhile_append_dropWhile (p := (· == '.')) (l := c.outputExtension.toList),
      List.mem_append] at h
    rcases h with h | h
    · have hdot := List.mem_takeWhile_imp h
      simp at hdot
    · exact h

theorem withExtension?_eq_none_iff {p : TreePath} {extension : String} :
    p.withExtension? extension = none ↔ '/' ∈ extension.toList := by
  rw [TreePath.withExtension?]
  split
  · rename_i h
    simpa using h
  · rename_i h
    simpa using h

end Extension

section Outcome

variable {t : FileTree} {cwd : Location} {input : TreePath} {c : Config} {translator : Translator}

theorem translate_of_slash (hinput : t.isFile cwd input = true)
    (hload : Context.load t cwd = .ok ⟨c, translator⟩)
    (hslash : input.withExtension? c.extension = none) :
    (Command.translate t cwd input .beside).1 = .aborted := by
  rw [Command.translate, if_pos hinput, hload]
  simp only [hslash]

theorem translateTo_ends (t : FileTree) (cwd : Location) (translator : Translator)
    (input output : TreePath) :
    (∃ report, (translateTo t cwd translator input output).1 = .report report) ∨
      ∃ fault,
        (translateTo t cwd translator input output).1 = .error (.unwritable output fault) := by
  rw [translateTo]
  split
  · exact .inl ⟨_, rfl⟩
  · split
    · exact .inl ⟨_, rfl⟩
    · split
      · exact .inr ⟨_, rfl⟩
      · exact .inl ⟨_, rfl⟩

end Outcome

/-- With a configuration that has passed all checks and an input that exists, a translation beside
its input is aborted exactly if the extension has a slash. Otherwise it ends with a report or, where
the output cannot be written, with an error. -/
theorem translate_aborts_iff {t : FileTree} {cwd : Location} {input : TreePath} {c : Config}
    {path : Option TreePath} {rules : RuleTable} (hconfig : loadConfig t cwd = .ok (c, path))
    (hrules : c.ruleTable = .ok rules) (hinput : t.isFile cwd input = true) :
    ((Command.translate t cwd input .beside).1 = .aborted ↔ '/' ∈ c.outputExtension.toList) ∧
      ('/' ∉ c.outputExtension.toList →
        ∃ output, input.withExtension? c.extension = some output ∧
          ((∃ report, (Command.translate t cwd input .beside).1 = .report report) ∨
            ∃ fault, (Command.translate t cwd input .beside).1 =
              .error (.unwritable output fault))) := by
  obtain ⟨translator, hload⟩ := exists_load hconfig hrules
  rw [← mem_extension_iff, ← withExtension?_eq_none_iff (p := input)]
  cases houtput : input.withExtension? c.extension with
  | none => simp [translate_of_slash hinput hload houtput]
  | some output =>
      have hpath : outputPath? ⟨c, translator⟩ input .beside = some output := houtput
      have hends := translateTo_ends t cwd translator input output
      rw [← translate_of_output hinput hload hpath] at hends
      refine ⟨iff_of_false ?_ (by simp), fun _ => ⟨output, rfl, hends⟩⟩
      rcases hends with ⟨report, hreport⟩ | ⟨fault, herror⟩
      · simp [hreport]
      · simp [herror]

/-- A project with a configured extension and one file to translate. -/
def project (extension : String) : FileTree where
  nodes :=
    [([Config.fileName],
      .file (String.ofList ({ outputExtension := extension } : Config).toText).toUTF8),
     (["main.vox"], .file "imprimir(1)\n".toUTF8)]
  nodup := by simp [Config.fileName]

theorem loadConfig_project {extension : String}
    (h : ({ outputExtension := extension } : Config).fault? = none) :
    loadConfig (project extension) [] =
      .ok ({ outputExtension := extension }, some ⟨"/.voxrc.json"⟩) := by
  have harrives := arrives_child (arrives_root (project extension) []) isEntry_fileName ⟨rfl, rfl⟩
    (by simp [project, FileTree.get?]) (by decide +kernel)
  have hresolve := resolve_eq_ok_iff.mpr ⟨harrives, by simp [project, FileTree.get?]⟩
  refine loadConfig_of_text h rfl (read_eq_ok_iff.mpr ⟨_, hresolve, rfl, ?_⟩)
  exact textAt_eq_ok_iff.mpr (.inl rfl)

theorem translate_aborts_iff_luau :
    (Command.translate (project ".luau") [] ⟨"main.vox"⟩ .beside).1 ≠ .aborted := by
  have hinput : (project ".luau").isFile [] ⟨"main.vox"⟩ = true := by decide +kernel
  rw [Ne, (translate_aborts_iff (loadConfig_project (by decide)) rfl hinput).1]
  decide

/-- An extension with a slash passes all checks and aborts the translation. -/
theorem translate_aborts_slash :
    let c : Config := { outputExtension := "a/b" }
    c.fault? = none ∧ c.ruleTable = .ok .default ∧
      (project "a/b").isFile [] ⟨"main.vox"⟩ = true ∧
        (Command.translate (project "a/b") [] ⟨"main.vox"⟩ .beside).1 = .aborted := by
  intro c
  have hfault : c.fault? = none := by decide
  have hrules : c.ruleTable = .ok .default := rfl
  have hinput : (project "a/b").isFile [] ⟨"main.vox"⟩ = true := by decide +kernel
  obtain ⟨translator, hload⟩ := exists_load (loadConfig_project hfault) hrules
  exact ⟨hfault, hrules, hinput, translate_of_slash hinput hload (by decide)⟩

end SpanishLua.Proofs.Aborting
