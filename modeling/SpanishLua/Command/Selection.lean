import SpanishLua.Files.PathPattern
import SpanishLua.Files.FileTree

namespace SpanishLua.Command

open Files

/-- The files that roots stand for, in the order of paths, and the roots that stand for nothing. -/
structure Selection where
  files : List TreePath := []
  missing : List TreePath := []

/-- Which files below a directory count, by their path from it. -/
structure FileFilter where
  includes : List PathPattern
  ignores : List PathPattern

/-- A path matches a pattern to include, and no pattern to ignore. -/
def FileFilter.accepts (f : FileFilter) (names : Location) : Bool :=
  let path := ("/".intercalate names).toList
  f.includes.any (·.isMatch path) && !f.ignores.any (·.isMatch path)

namespace Selection

/-- A walk from a root comes upon the entry with the given names on the way to it. Every directory
on the way is opened by its path, and what is in one that cannot be listed is passed over. -/
def reaches (t : FileTree) (cwd : Location) (root : TreePath) (l names : Location) : Bool :=
  (t.refusal? .list (l ++ names)).isNone &&
    (List.range names.length).all fun n => t.lists cwd (root.descend (names.take n))

/-- The files below a directory that count, by the names on the way from it. Links are not
followed. -/
def found (t : FileTree) (cwd : Location) (f : FileFilter) (root : TreePath) (l : Location) :
    List Location :=
  (t.filesBelow l).filter fun names => f.accepts names && reaches t cwd root l names

/-- The paths of the files below a directory that count. -/
def below (t : FileTree) (cwd : Location) (f : FileFilter) (root : TreePath) (l : Location) :
    List TreePath :=
  (found t cwd f root l).map root.descend

/-- Adds paths to the files. Of two with the same components the first stays. -/
def withFiles (s : Selection) (paths : List TreePath) : Selection :=
  { s with files := paths.foldl (fun files p => p.insertInto files) s.files }

/-- Adds what a root stands for: a file itself, whether or not it counts, and of a directory the
files that count. -/
def add (t : FileTree) (cwd : Location) (f : FileFilter) (s : Selection) (root : TreePath) :
    Selection :=
  match t.resolve cwd root with
  | .error _ => { s with missing := s.missing ++ [root] }
  | .ok l =>
      match t.get? l with
      | some (.file _) => s.withFiles [root]
      | some .directory => s.withFiles (below t cwd f root l)
      | _ => { s with missing := s.missing ++ [root] }

/-- What roots stand for. -/
def ofRoots (t : FileTree) (cwd : Location) (f : FileFilter) (roots : List TreePath) : Selection :=
  roots.foldl (add t cwd f) {}

end Selection

end SpanishLua.Command
