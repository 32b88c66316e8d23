import SpanishLua.Command.Run
import SpanishLua.Proofs.Walking

namespace SpanishLua.Proofs.Commands

open SpanishLua.Files
open SpanishLua.Command
open SpanishLua.Proofs.Trees
open SpanishLua.Proofs.Walking

/-- A command ends well: it tells neither a failure nor an error. -/
def Succeeds : Outcome → Prop
  | .report (.failed _) => False
  | .report (.checked _ failures) => failures = []
  | .report _ => True
  | .error _ => False
  | .aborted => False

/-- The bytes of a text. -/
def encoded (text : List Char) : ByteArray :=
  (String.ofList text).toUTF8

theorem write_of_target {t : FileTree} {cwd l : Location} {p : TreePath}
    (h : t.target cwd p = .ok l) (text : List Char) :
    t.write cwd p (String.ofList text) =
      ((t.cut l (encoded text)).1, t.store l (t.cut l (encoded text)).2) := by
  rw [FileTree.write, h, encoded]

/-- The path that a translation is written to. -/
def outputPath? (context : Context) (input : TreePath) : Destination → Option TreePath
  | .beside => input.withExtension? context.config.extension
  | .file output => some output
  | .stdout => none

/-- A translation has all that it takes to write the text `lua` to the location `l` of `output`. -/
structure Produces (t : FileTree) (cwd : Location) (input : TreePath) (destination : Destination)
    (output : TreePath) (l : Location) (lua : List Char) : Prop where
  isFile : t.isFile cwd input = true
  translated : ∃ context source, Context.load t cwd = .ok context ∧
    outputPath? context input destination = some output ∧ t.read cwd input = .ok source ∧
      context.translator.translate source.toList input.text = .ok lua
  apart : output.same input = false
  target : t.target cwd output = .ok l

/-- How a translation ends that has opened its output. -/
def translatedOr (input output : TreePath) : Option FileFault → Outcome
  | none => .report (.translated input output)
  | some fault => .error (.unwritable output fault)

section Translate

variable {t : FileTree} {cwd l : Location} {input output : TreePath} {destination : Destination}
  {translator : Translator} {lua : List Char}

theorem translateFile_eq_ok_iff {label : String} :
    translateFile t cwd translator input label = .ok lua ↔
      ∃ source, t.read cwd input = .ok source ∧
        translator.translate source.toList label = .ok lua := by
  rw [translateFile]
  cases t.read cwd input with
  | error fault => simp
  | ok source =>
      simp only [Except.ok.injEq, exists_eq_left']
      cases translator.translate source.toList label <;> simp

theorem translateTo_of_target (hapart : output.same input = false)
    (hlua : translateFile t cwd translator input input.text = .ok lua)
    (htarget : t.target cwd output = .ok l) :
    translateTo t cwd translator input output =
      (translatedOr input output (t.cut l (encoded lua)).1,
        t.store l (t.cut l (encoded lua)).2) := by
  rw [translateTo, if_neg (by simp [hapart]), hlua]
  simp only [write_of_target htarget]
  cases (t.cut l (encoded lua)).1 <;> rfl

theorem translateTo_cases (t : FileTree) (cwd : Location) (translator : Translator)
    (input output : TreePath) :
    (∃ l lua, translateFile t cwd translator input input.text = .ok lua ∧
        output.same input = false ∧ t.target cwd output = .ok l) ∨
      ((translateTo t cwd translator input output).2 = t ∧
        ¬ Succeeds (translateTo t cwd translator input output).1) := by
  rw [translateTo]
  split
  · exact .inr ⟨rfl, id⟩
  · rename_i hsame
    split
    · exact .inr ⟨rfl, id⟩
    · rename_i lua hlua
      rw [FileTree.write]
      cases htarget : t.target cwd output with
      | error fault => exact .inr ⟨rfl, id⟩
      | ok l => exact .inl ⟨l, lua, hlua, by simpa using hsame, rfl⟩

section Output

variable {context : Context} (hfile : t.isFile cwd input = true)
  (hcontext : Context.load t cwd = .ok context)
include hfile hcontext

theorem translate_of_output (houtput : outputPath? context input destination = some output) :
    Command.translate t cwd input destination =
      translateTo t cwd context.translator input output := by
  rw [Command.translate, if_pos hfile, hcontext]
  cases destination with
  | stdout => simp [outputPath?] at houtput
  | file output' =>
      obtain rfl := Option.some.inj houtput
      rfl
  | beside =>
      rw [outputPath?] at houtput
      simp only [houtput]

theorem translate_of_no_output (houtput : outputPath? context input destination = none) :
    (Command.translate t cwd input destination).2 = t ∧
      (Succeeds (Command.translate t cwd input destination).1 → destination = .stdout) := by
  rw [Command.translate, if_pos hfile, hcontext]
  cases destination with
  | stdout => exact ⟨rfl, fun _ => rfl⟩
  | file output' => simp [outputPath?] at houtput
  | beside =>
      rw [outputPath?] at houtput
      simp [houtput, Succeeds]

end Output

theorem Produces.translate_eq (h : Produces t cwd input destination output l lua) :
    Command.translate t cwd input destination =
      (translatedOr input output (t.cut l (encoded lua)).1,
        t.store l (t.cut l (encoded lua)).2) := by
  obtain ⟨context, source, hcontext, houtput, hsource, hlua⟩ := h.translated
  rw [translate_of_output h.isFile hcontext houtput]
  exact translateTo_of_target h.apart (translateFile_eq_ok_iff.mpr ⟨source, hsource, hlua⟩) h.target

/-- A translation writes what it has produced, or leaves the tree as it was. -/
theorem translate_cases (t : FileTree) (cwd : Location) (input : TreePath)
    (destination : Destination) :
    (∃ output l lua, Produces t cwd input destination output l lua) ∨
      ((Command.translate t cwd input destination).2 = t ∧
        (Succeeds (Command.translate t cwd input destination).1 → destination = .stdout)) := by
  by_cases hfile : t.isFile cwd input = true
  · cases hcontext : Context.load t cwd with
    | error e =>
        rw [Command.translate, if_pos hfile, hcontext]
        exact .inr ⟨rfl, False.elim⟩
    | ok context =>
        cases houtput : outputPath? context input destination with
        | none => exact .inr (translate_of_no_output hfile hcontext houtput)
        | some output =>
            rw [translate_of_output hfile hcontext houtput]
            rcases translateTo_cases t cwd context.translator input output with
              ⟨l, lua, hlua, hapart, htarget⟩ | ⟨hsame, hfails⟩
            · obtain ⟨source, hsource, hlua⟩ := translateFile_eq_ok_iff.mp hlua
              exact .inl ⟨output, l, lua, hfile,
                ⟨context, source, hcontext, houtput, hsource, hlua⟩, hapart, htarget⟩
            · exact .inr ⟨hsame, fun h => absurd h hfails⟩
  · rw [Command.translate, if_neg hfile]
    exact .inr ⟨rfl, False.elim⟩

end Translate

/-- Nothing stands where a configuration is to be created, and its place can be opened. -/
structure Creates (t : FileTree) (cwd l : Location) : Prop where
  missing : t.stands cwd ⟨Config.fileName⟩ = false
  target : t.target cwd ⟨Config.fileName⟩ = .ok l

/-- How the creation of a configuration ends that has opened its place. -/
def createdOr : Option FileFault → Outcome
  | none => .report (.created ⟨Config.fileName⟩)
  | some fault => .error (.uncreated fault)

section Create

variable {t : FileTree} {cwd l : Location}

theorem Creates.create_eq (h : Creates t cwd l) :
    create t cwd =
      (createdOr (t.cut l (encoded ({} : Config).toText)).1,
        t.store l (t.cut l (encoded ({} : Config).toText)).2) := by
  rw [create, h.missing]
  simp only [Bool.false_eq_true, if_false, write_of_target h.target]
  cases (t.cut l (encoded ({} : Config).toText)).1 <;> rfl

theorem create_cases (t : FileTree) (cwd : Location) :
    (∃ l, Creates t cwd l) ∨ ((create t cwd).2 = t ∧ ¬ Succeeds (create t cwd).1) := by
  rw [create]
  split
  · exact .inr ⟨rfl, id⟩
  · rename_i hmissing
    rw [FileTree.write]
    cases htarget : t.target cwd ⟨Config.fileName⟩ with
    | error fault => exact .inr ⟨rfl, id⟩
    | ok l => exact .inl ⟨l, by simpa using hmissing, htarget⟩

end Create

end SpanishLua.Proofs.Commands
