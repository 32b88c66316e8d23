import SpanishLua.Config
import SpanishLua.Files.FileTree

namespace SpanishLua.Config

open Files

/-- The name of a configuration file. -/
def fileName : String := ".voxrc.json"

/-- The name of the entry that marks the top of a repository. -/
def repositoryMark : String := ".git"

/-- The first of some paths to directories that has a configuration file. The search ends at the top
of a repository. -/
def home? (t : FileTree) (cwd : Location) : List TreePath → Option TreePath
  | [] => none
  | p :: above =>
      if t.stands cwd (p.child fileName) then some p
      else if t.stands cwd (p.child repositoryMark) then none
      else home? t cwd above

/-- The path of the configuration file of the directory with the given path. -/
def discover (t : FileTree) (cwd : Location) (start : TreePath) : Option TreePath :=
  (home? t cwd start.ancestors).map (·.child fileName)

end SpanishLua.Config
