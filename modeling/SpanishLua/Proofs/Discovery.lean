import Mathlib.Data.List.Infix
import SpanishLua.Proofs.Walking

namespace SpanishLua.Proofs.Discovery

open SpanishLua.Files
open SpanishLua.Text
open SpanishLua.Config
open SpanishLua.Proofs.Documents
open SpanishLua.Proofs.Trees
open SpanishLua.Proofs.Walking

section Search

variable {t : FileTree} {cwd : Location} {paths : List TreePath} {d : TreePath}

end Search

section Ancestors

variable {p : TreePath} {name : String} {first : List Char}

end Ancestors

section Directories

variable {t : FileTree} {cwd l d : Location} {name : String}

end Directories

end SpanishLua.Proofs.Discovery
