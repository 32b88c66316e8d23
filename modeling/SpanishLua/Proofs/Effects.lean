import SpanishLua.Proofs.Commands
import SpanishLua.Proofs.Loading

namespace SpanishLua.Proofs.Effects

open SpanishLua.Files
open SpanishLua.Command
open SpanishLua.Proofs.Trees
open SpanishLua.Proofs.Commands
open SpanishLua.Proofs.Loading

/-- A command that has nothing to write. -/
def IsQuiet : Invocation → Prop
  | .overview => True
  | .check _ _ => True
  | .translate _ .stdout _ => True
  | _ => False

/-- A command has all that it takes to write a text to a path, and has opened the location that the
path leads to. By the fault of the write, `tell` is how the command ends. -/
inductive Writes (t : FileTree) (cwd : Location) :
    Invocation → TreePath → Location → List Char → (Option FileFault → Outcome) → Prop
  | create {l : Location} :
      Creates t cwd l → Writes t cwd .init ⟨Config.fileName⟩ l ({} : Config).toText createdOr
  | translate {input output : TreePath} {destination : Destination} {verbose : Bool}
      {l : Location} {lua : List Char} :
      Produces t cwd input destination output l lua →
        Writes t cwd (.translate input destination verbose) output l lua (translatedOr input output)

section Steps

variable {t : FileTree} {cwd l : Location} {output : TreePath} {invocation : Invocation}
  {text : List Char} {tell : Option FileFault → Outcome}

theorem Writes.target (h : Writes t cwd invocation output l text tell) :
    Target t cwd output l := by
  cases h with
  | create hcreates => exact target_eq_ok_iff.mp hcreates.target
  | translate hproduces => exact target_eq_ok_iff.mp hproduces.target

theorem Writes.run_eq (h : Writes t cwd invocation output l text tell) :
    invocation.run t cwd =
      (tell (t.cut l (encoded text)).1, t.store l (t.cut l (encoded text)).2) := by
  cases h with
  | create hcreates => exact hcreates.create_eq
  | translate hproduces => exact hproduces.translate_eq

/-- A command writes, or it leaves the tree as it was and ends well only if it has nothing to
write. -/
theorem run_cases (t : FileTree) (cwd : Location) (invocation : Invocation) :
    (∃ output l text tell, Writes t cwd invocation output l text tell) ∨
      ((invocation.run t cwd).2 = t ∧
        (Succeeds (invocation.run t cwd).1 → IsQuiet invocation)) := by
  cases invocation with
  | overview => exact .inr ⟨rfl, fun _ => trivial⟩
  | check roots verbose => exact .inr ⟨rfl, fun _ => trivial⟩
  | init =>
      rcases create_cases t cwd with ⟨l, hcreates⟩ | ⟨hsame, hfails⟩
      · exact .inl ⟨_, _, _, _, .create hcreates⟩
      · exact .inr ⟨hsame, fun hsucceeds => absurd hsucceeds hfails⟩
  | translate input destination verbose =>
      rcases translate_cases t cwd input destination with
        ⟨output, l, lua, hproduces⟩ | ⟨hsame, hstdout⟩
      · exact .inl ⟨_, _, _, _, .translate hproduces⟩
      · refine .inr ⟨hsame, fun hsucceeds => ?_⟩
        obtain rfl := hstdout hsucceeds
        trivial

end Steps

section Exceptions

end Exceptions

end SpanishLua.Proofs.Effects
