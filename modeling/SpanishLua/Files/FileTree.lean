import SpanishLua.Files.TreePath

/-!
A tree of files as a value: what stands where, how a path leads to it, and what the system allows
there.
-/

namespace SpanishLua.Files

/-- The names on the way from the root of a tree. -/
abbrev Location := List String

/-- What stands at a location. A device has something to read and keeps nothing that is written to
it. A link stands for what its path leads to. -/
inductive Node where
  | directory
  | file (content : ByteArray)
  | device (content : ByteArray)
  | link (path : TreePath)

/-- Nodes are the same if they are of one kind, with the same bytes or the same path. -/
instance : DecidableEq Node
  | .directory, .directory => isTrue rfl
  | .file content, .file content' =>
      match ByteArray.instDecidableEq content content' with
      | isTrue h => isTrue (congrArg Node.file h)
      | isFalse h => isFalse fun e => h (Node.file.inj e)
  | .device content, .device content' =>
      match ByteArray.instDecidableEq content content' with
      | isTrue h => isTrue (congrArg Node.device h)
      | isFalse h => isFalse fun e => h (Node.device.inj e)
  | .link path, .link path' =>
      match instDecidableEqTreePath path path' with
      | isTrue h => isTrue (congrArg Node.link h)
      | isFalse h => isFalse fun e => h (Node.link.inj e)
  | .directory, .file _ | .directory, .device _ | .directory, .link _ => isFalse Node.noConfusion
  | .file _, .directory | .file _, .device _ | .file _, .link _ => isFalse Node.noConfusion
  | .device _, .directory | .device _, .file _ | .device _, .link _ => isFalse Node.noConfusion
  | .link _, .directory | .link _, .file _ | .link _, .device _ => isFalse Node.noConfusion

/-- What a system may refuse at a location: to look up a name in a directory, to tell an entry and
what is in it, to read and to write. -/
inductive Access where
  | search
  | list
  | read
  | write
deriving DecidableEq, Repr

/-- Why an operation on files fails. -/
inductive FileFault where
  | missing
  | notDirectory
  | isDirectory
  | nameTooLong
  | tooManyLinks
  | nulInName
  | notText
  | system (code : Nat) (text : String)
deriving DecidableEq, Repr

/-- The wording of a file fault. -/
def FileFault.message : FileFault → String
  | missing => "No such file or directory (os error 2)"
  | notDirectory => "Not a directory (os error 20)"
  | isDirectory => "Is a directory (os error 21)"
  | nameTooLong => "File name too long (os error 36)"
  | tooManyLinks => "Too many levels of symbolic links (os error 40)"
  | nulInName => "file name contained an unexpected NUL byte"
  | notText => "stream did not contain valid UTF-8"
  | system code text => s!"{text} (os error {code})"

/-- A tree of files: what stands at each location below the root, which is a directory. No location
is listed twice. The system may refuse access to a location, and it may take no more than so many
bytes at once there, whatever the reason. -/
structure FileTree where
  nodes : List (Location × Node) := []
  nodup : (nodes.map Prod.fst).Nodup := by simp
  refusal? : Access → Location → Option FileFault := fun _ _ => none
  limit? : Location → Option (Nat × FileFault) := fun _ => none

namespace FileTree

/-- What stands at a location. -/
def get? (t : FileTree) (l : Location) : Option Node :=
  if l = [] then some .directory else t.nodes.lookup l

/-- Puts a node at a location, in place of the one that was there. -/
def put (t : FileTree) (l : Location) (node : Node) : FileTree where
  nodes := (l, node) :: t.nodes.filter (·.1 != l)
  nodup := by
    rw [List.map_cons, List.nodup_cons]
    constructor
    · simp
    · exact t.nodup.sublist (List.filter_sublist.map Prod.fst)
  refusal? := t.refusal?
  limit? := t.limit?

/-- The tree with the directories that `names` lead through from a location. -/
def withDirectories (t : FileTree) (l : Location) : List String → FileTree
  | [] => t
  | name :: names =>
      let t := if (t.get? (l ++ [name])).isNone then t.put (l ++ [name]) .directory else t
      t.withDirectories (l ++ [name]) names

/-- The tree with a file and the directories above it. -/
def withFile (t : FileTree) (l : Location) (content : ByteArray) : FileTree :=
  (t.withDirectories [] l.dropLast).put l (.file content)

/-- A file name may have this many bytes. -/
def maxNameLength : Nat := 255

/-- A path must have less than this many bytes. -/
def maxPathLength : Nat := 4096

/-- A path may lead through this many links. -/
def maxLinks : Nat := 40

/-- A path that no file can have. -/
def pathFault? (p : TreePath) : Option FileFault :=
  if p.text == "" then some .missing
  else if p.text.toList.any (·.toNat == 0) then some .nulInName
  else if maxPathLength ≤ p.text.utf8ByteSize then some .nameTooLong
  else none

/-- The pieces of a path between slashes. -/
def pieces (p : TreePath) : List String :=
  (Text.splitOn '/' p.text.toList).map String.ofList

/-- Where a path starts: at the root, or at the directory that it is read in. -/
def start (l : Location) (p : TreePath) : Location :=
  if p.text.toList.head? == some '/' then [] else l

/-- Follows pieces of a path from a location to the one that they lead to, where nothing needs to
stand. Each piece, also an empty one, needs a directory to start from. No slash may come after the
name of a file that is to be written. `jump` goes on from a link. -/
def walk (t : FileTree) (writing : Bool)
    (jump : Location → List String → Except FileFault Location) :
    Location → List String → Except FileFault Location
  | l, [] => .ok l
  | l, piece :: rest =>
      match t.get? l with
      | none => .error .missing
      | some .directory =>
          if piece == "" then t.walk writing jump l rest
          else
            match t.refusal? .search l with
            | some fault => .error fault
            | none =>
                if piece == "." then t.walk writing jump l rest
                else if piece == ".." then t.walk writing jump l.dropLast rest
                else if writing && !rest.isEmpty && rest.all (· == "") then .error .isDirectory
                else if maxNameLength < piece.utf8ByteSize then .error .nameTooLong
                else
                  match t.get? (l ++ [piece]) with
                  | some (.link p) => jump (start l p) (pieces p ++ rest)
                  | _ => t.walk writing jump (l ++ [piece]) rest
      | some _ => .error .notDirectory

/-- Follows pieces of a path through so many links at most. -/
def follow (t : FileTree) (writing : Bool) :
    Nat → Location → List String → Except FileFault Location
  | 0 => t.walk writing fun _ _ => .error .tooManyLinks
  | n + 1 => t.walk writing (t.follow writing n)

/-- The location that a path leads to, where nothing needs to stand. -/
def lead (t : FileTree) (writing : Bool) (cwd : Location) (p : TreePath) :
    Except FileFault Location :=
  match pathFault? p with
  | some fault => .error fault
  | none => t.follow writing maxLinks (start cwd p) (pieces p)

/-- The location of what a path leads to. -/
def resolve (t : FileTree) (cwd : Location) (p : TreePath) : Except FileFault Location :=
  match t.lead false cwd p with
  | .error fault => .error fault
  | .ok l => if (t.get? l).isSome then .ok l else .error .missing

/-- What a path leads to. -/
def node? (t : FileTree) (cwd : Location) (p : TreePath) : Option Node :=
  match t.resolve cwd p with
  | .error _ => none
  | .ok l => t.get? l

/-- A path leads to something. -/
def stands (t : FileTree) (cwd : Location) (p : TreePath) : Bool :=
  (t.node? cwd p).isSome

/-- A path leads to a file. -/
def isFile (t : FileTree) (cwd : Location) (p : TreePath) : Bool :=
  match t.node? cwd p with
  | some (.file _) => true
  | _ => false

/-- A path leads to a directory. -/
def isDirectory (t : FileTree) (cwd : Location) (p : TreePath) : Bool :=
  match t.node? cwd p with
  | some .directory => true
  | _ => false

/-- A path leads to a directory that can be listed. -/
def lists (t : FileTree) (cwd : Location) (p : TreePath) : Bool :=
  match t.resolve cwd p with
  | .error _ => false
  | .ok l =>
      match t.get? l with
      | some .directory => (t.refusal? .list l).isNone
      | _ => false

/-- The text of the node at a location. -/
def textAt (t : FileTree) (l : Location) : Except FileFault String :=
  match t.get? l with
  | none | some (.link _) => .error .missing
  | some .directory => .error .isDirectory
  | some (.file content) | some (.device content) =>
      match String.fromUTF8? content with
      | none => .error .notText
      | some s => .ok s

/-- The text of what a path leads to. -/
def read (t : FileTree) (cwd : Location) (p : TreePath) : Except FileFault String :=
  match t.resolve cwd p with
  | .error fault => .error fault
  | .ok l =>
      match t.refusal? .read l with
      | some fault => .error fault
      | none => t.textAt l

/-- The location that is opened to write to a path. -/
def target (t : FileTree) (cwd : Location) (p : TreePath) : Except FileFault Location :=
  match t.lead true cwd p with
  | .error fault => .error fault
  | .ok l =>
      match t.get? l with
      | some .directory => .error .isDirectory
      | some (.link _) => .error .missing
      | _ =>
          match t.refusal? .write l with
          | some fault => .error fault
          | none => .ok l

/-- What is left of bytes that are written to a location, and the fault if these are not all. -/
def cut (t : FileTree) (l : Location) (content : ByteArray) : Option FileFault × ByteArray :=
  match t.limit? l with
  | none => (none, content)
  | some (n, fault) =>
      if n < content.size then (some fault, content.extract 0 n) else (none, content)

/-- The tree with a file of the given content at a location, unless there is a device. -/
def store (t : FileTree) (l : Location) (content : ByteArray) : FileTree :=
  match t.get? l with
  | some (.device _) => t
  | _ => t.put l (.file content)

/-- Writes a text to a path. What is opened is emptied first, and a fault may come after that. -/
def write (t : FileTree) (cwd : Location) (p : TreePath) (s : String) :
    Option FileFault × FileTree :=
  match t.target cwd p with
  | .error fault => (some fault, t)
  | .ok l => ((t.cut l s.toUTF8).1, t.store l (t.cut l s.toUTF8).2)

/-- The files below a location, each by the names on the way to it. -/
def filesBelow (t : FileTree) (l : Location) : List Location :=
  t.nodes.filterMap fun (m, node) =>
    match node, l.isPrefixOf? m with
    | .file _, some (name :: names) => some (name :: names)
    | _, _ => none

end FileTree

/-- The path of a location. -/
def Location.path (l : Location) : TreePath :=
  TreePath.descend ⟨"/"⟩ l

end SpanishLua.Files
