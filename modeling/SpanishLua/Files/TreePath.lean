import SpanishLua.Text.Lines

namespace SpanishLua.Files

/-- A path as it is spelt. -/
structure TreePath where
  text : String
deriving DecidableEq, Repr

/-- A step of a path. -/
inductive Component where
  | root
  | here
  | parent
  | name (name : List Char)
deriving DecidableEq, Repr

namespace Component

/-- The step that a piece between slashes stands for. An empty piece and a dot stand for none. -/
def ofPiece? : List Char → Option Component
  | [] | ['.'] => none
  | ['.', '.'] => some .parent
  | piece => some (.name piece)

/-- The place of a kind of component in the order of components. -/
def rank : Component → Nat
  | root => 0
  | here => 1
  | parent => 2
  | name _ => 3

/-- `a` comes before `b`: by kind, and names by their characters. -/
def precedes (a b : Component) : Bool :=
  match a, b with
  | name m, name n => m < n
  | a, b => a.rank < b.rank

end Component

namespace TreePath

/-- The components of a path. Empty pieces do not count, nor does a dot that is not the start of a
relative path. -/
def components (p : TreePath) : List Component :=
  match Text.splitOn '/' p.text.toList with
  | [] => []
  | [] :: [] => []
  | [] :: pieces => .root :: pieces.filterMap Component.ofPiece?
  | ['.'] :: pieces => .here :: pieces.filterMap Component.ofPiece?
  | pieces => pieces.filterMap Component.ofPiece?

/-- Two paths have the same components. -/
def same (p q : TreePath) : Bool :=
  p.components == q.components

/-- Components in lexicographic order. -/
def precedesComponents : List Component → List Component → Bool
  | _, [] => false
  | [], _ :: _ => true
  | a :: as, b :: bs => a.precedes b || (a == b && precedesComponents as bs)

/-- `p` comes before `q` in the order of their components. -/
def precedes (p q : TreePath) : Bool :=
  precedesComponents p.components q.components

/-- Adds a path to ascending paths, unless one with the same components is there. -/
def insertInto (p : TreePath) : List TreePath → List TreePath
  | [] => [p]
  | q :: rest =>
      if p.same q then q :: rest
      else if p.precedes q then p :: q :: rest
      else q :: insertInto p rest

/-- The path of an entry of a directory. -/
def child (p : TreePath) (name : String) : TreePath where
  text :=
    if p.text == "" || p.text.toList.getLast? == some '/' then p.text ++ name
    else p.text ++ "/" ++ name

/-- The path of what stands below a directory, by the names on the way to it. -/
def descend (p : TreePath) (names : List String) : TreePath :=
  names.foldl child p

/-- The paths above a directory, from a path to it upwards. The path has the piece `first` and then
those of the list, the last one first. -/
def upward (first : List Char) : List (List Char) → List TreePath
  | [] => if first.isEmpty then [⟨"/"⟩] else [⟨String.ofList first⟩, ⟨""⟩]
  | piece :: above =>
      if (Component.ofPiece? piece).isNone then upward first above
      else
        let pieces := first :: (piece :: above).reverse
        ⟨String.ofList (['/'].intercalate pieces)⟩ :: upward first above

/-- A path and what is left of it when one step after the other is taken off its end. -/
def ancestors (p : TreePath) : List TreePath :=
  match Text.splitOn '/' p.text.toList with
  | [] => [p]
  | first :: rest => p :: (upward first rest.reverse).tail

/-- What stands after the last slash, if it names a file. -/
def fileName? (p : TreePath) : Option (List Char) :=
  match (Text.splitOn '/' p.text.toList).getLast? with
  | none | some [] | some ['.'] | some ['.', '.'] => none
  | name => name

/-- What a file name has before its last dot and after it. A dot at the start divides nothing. -/
def splitName (name : List Char) : List Char × Option (List Char) :=
  let after := (name.reverse.takeWhile (· != '.')).reverse
  match (name.reverse.dropWhile (· != '.')).reverse.dropLast with
  | [] => (name, none)
  | before => (before, some after)

/-- The text of a path with an extension put after the stem of its file name. A path that names no
file stays as it is. -/
def putExtension (s : List Char) (extension : List Char) : List Char :=
  match fileName? ⟨String.ofList s⟩ with
  | none => s
  | some name =>
      s.take (s.length - name.length) ++ (splitName name).1 ++
        if extension.isEmpty then [] else '.' :: extension

/-- The path with another extension. The extension that was there is cut off before the new one is
put. An extension with a slash is no extension. -/
def withExtension? (p : TreePath) (extension : String) : Option TreePath :=
  if extension.toList.contains '/' then none
  else
    let s := p.text.toList
    let base := match (fileName? p).bind fun name => (splitName name).2 with
      | some old => s.take (s.length - old.length)
      | none => s
    some ⟨String.ofList (putExtension base extension.toList)⟩

/-- The path in reports: without a dot at its start, and with slashes for backslashes. -/
def display (p : TreePath) : String :=
  let s := match Text.splitOn '/' p.text.toList with
    | ['.'] :: pieces => ['/'].intercalate (pieces.dropWhile fun q => q == [] || q == ['.'])
    | _ => p.text.toList
  String.ofList (s.map fun c => if c = '\\' then '/' else c)

end TreePath

end SpanishLua.Files
