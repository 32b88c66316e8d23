import Mathlib.Data.List.Induction
import SpanishLua.Config.Discovery
import SpanishLua.Proofs.Trees

namespace SpanishLua.Proofs.Walking

open SpanishLua.Files
open SpanishLua.Text
open SpanishLua.Proofs.Documents
open SpanishLua.Proofs.Trees

/-- The name of an entry as a directory may have it. -/
structure IsEntry (name : String) : Prop extends IsName name where
  noSlash : '/' ∉ name.toList
  noNul : ∀ c ∈ name.toList, c.toNat ≠ 0

theorem isEntry_of_all {name : String} (hname : IsName name)
    (h : name.toList.all (fun c => c != '/' && c.toNat != 0) = true) : IsEntry name := by
  rw [List.all_eq_true] at h
  refine ⟨hname, ?_, ?_⟩
  · intro hslash
    simpa using h '/' hslash
  · intro c hc
    have hboth := h c hc
    rw [Bool.and_eq_true] at hboth
    simpa using hboth.2

theorem isEntry_fileName : IsEntry Config.fileName :=
  isEntry_of_all ⟨by decide, by decide, by decide, by decide⟩ (by decide)

section Components

variable {p : TreePath} {first : List Char} {rest : List (List Char)}

/-- The step that the first piece of a path stands for. -/
def opening : List Char → List Component
  | [] => [.root]
  | ['.'] => [.here]
  | piece => (Component.ofPiece? piece).toList

theorem splitOn_eq_singleton_nil {s : List Char} (h : splitOn '/' s = [[]]) : s = [] := by
  rcases splitOn_last '/' s with ⟨-, hsplit⟩ | ⟨start, piece, -, -, hsplit⟩
  · simpa [hsplit] using h
  · rw [hsplit] at h
    have hlength := congrArg List.length h
    simp [splitOn_ne_nil] at hlength

theorem components_eq (hne : p.text ≠ "") (hsplit : splitOn '/' p.text.toList = first :: rest) :
    p.components = opening first ++ rest.filterMap Component.ofPiece? := by
  rw [TreePath.components, hsplit]
  split
  · simp at *
  · next hnil =>
      rw [hnil] at hsplit
      exact absurd (String.toList_eq_nil_iff.mp (splitOn_eq_singleton_nil hsplit)) hne
  · next hroot =>
      obtain ⟨rfl, rfl⟩ := List.cons.inj hroot
      rfl
  · next hhere =>
      obtain ⟨rfl, rfl⟩ := List.cons.inj hhere
      rfl
  · next hroot hhere =>
      have hopening : opening first = (Component.ofPiece? first).toList := by
        unfold opening
        split
        · exact (hroot rest rfl).elim
        · exact (hhere rest rfl).elim
        · rfl
      rw [hopening]
      cases hpiece : Component.ofPiece? first <;> simp [hpiece]

theorem child_text_ne (p : TreePath) {name : String} (hname : name ≠ "") :
    (p.child name).text ≠ "" := by
  rw [TreePath.child]
  split <;> simp [hname]

theorem splitOn_child (hne : p.text ≠ "") {name : String} (hname : '/' ∉ name.toList) :
    ∃ first rest last, splitOn '/' p.text.toList = first :: (rest ++ last) ∧
      (last = [] ∨ last = [[]]) ∧
      splitOn '/' (p.child name).text.toList = first :: (rest ++ [name.toList]) := by
  by_cases hslash : p.text.toList.getLast? = some '/'
  · obtain ⟨start, hstart⟩ := List.getLast?_eq_some_iff.mp hslash
    obtain ⟨first, rest, hsplit⟩ := List.exists_cons_of_ne_nil (splitOn_ne_nil '/' start)
    refine ⟨first, rest, [[]], ?_, .inr rfl, ?_⟩
    · rw [hstart, splitOn_append_separator, hsplit]
      rfl
    · have htext : (p.child name).text.toList = start ++ '/' :: name.toList := by
        simp [TreePath.child, hstart]
      rw [htext, splitOn_append_separator, hsplit, splitOn_of_notMem hname]
      rfl
  · have htext : (p.child name).text.toList = p.text.toList ++ '/' :: name.toList := by
      simp [TreePath.child, hslash, hne]
    obtain ⟨first, rest, hsplit⟩ := List.exists_cons_of_ne_nil (splitOn_ne_nil '/' p.text.toList)
    refine ⟨first, rest, [], by rw [hsplit, List.append_nil], .inl rfl, ?_⟩
    rw [htext, splitOn_append_separator, hsplit, splitOn_of_notMem hname]
    rfl

theorem ofPiece?_name {name : String} (hname : IsName name) :
    Component.ofPiece? name.toList = some (.name name.toList) := by
  unfold Component.ofPiece?
  split
  · next h => exact absurd (String.toList_inj.mp h) hname.ne_empty
  · next h => exact absurd (String.toList_inj.mp h) hname.ne_here
  · next h => exact absurd (String.toList_inj.mp h) hname.ne_parent
  · rfl

theorem components_child (hne : p.text ≠ "") {name : String} (hname : IsEntry name) :
    (p.child name).components = p.components ++ [.name name.toList] := by
  obtain ⟨first, rest, last, hsplit, hlast, hchild⟩ := splitOn_child hne hname.noSlash
  have hdropped : last.filterMap Component.ofPiece? = [] := by
    rcases hlast with rfl | rfl <;> rfl
  have hpiece : Component.ofPiece? name.toList = some (.name name.toList) :=
    ofPiece?_name hname.toIsName
  rw [components_eq hne hsplit, components_eq (child_text_ne p hname.ne_empty) hchild]
  simp [List.filterMap_append, hdropped, hpiece]

theorem components_descend (hne : p.text ≠ "") {names : List String}
    (hnames : ∀ name ∈ names, IsEntry name) :
    (p.descend names).components = p.components ++ names.map (fun name => .name name.toList) := by
  induction names generalizing p with
  | nil => simp [TreePath.descend]
  | cons name names ih =>
      rw [List.forall_mem_cons] at hnames
      have hrest := ih (child_text_ne p hnames.1.ne_empty) hnames.2
      rw [components_child hne hnames.1] at hrest
      simpa [TreePath.descend] using hrest

end Components

section Location

/-- Where a component leads. -/
def step (l : Location) : Component → Location
  | .root => []
  | .here => l
  | .parent => l.dropLast
  | .name name => l ++ [String.ofList name]

/-- Where components lead. -/
def place (cwd : Location) (components : List Component) : Location :=
  components.foldl step cwd

theorem place_names (cwd : Location) (components : List Component) (names : List (List Char)) :
    place cwd (components ++ names.map .name) =
      place cwd components ++ names.map String.ofList := by
  rw [place, List.foldl_append]
  show (names.map Component.name).foldl step (place cwd components) = _
  generalize place cwd components = l
  induction names generalizing l with
  | nil => simp
  | cons name names ih => simp [ih, step]

/-- No link stands anywhere in the tree. -/
def Linkless (t : FileTree) : Prop :=
  ∀ l p, t.get? l ≠ some (.link p)

variable {t : FileTree} {cwd l m : Location} {p : TreePath}

theorem place_of_leads {piece : List Char} (h : Leads t l (String.ofList piece) m) :
    place l (Component.ofPiece? piece).toList = m := by
  generalize hpiece : String.ofList piece = name at h
  obtain rfl : piece = name.toList := by rw [← hpiece, String.toList_ofList]
  cases h with
  | empty => rfl
  | here => rfl
  | parent => rfl
  | child _ hname =>
      rw [ofPiece?_name hname]
      simp [place, step]

theorem place_of_follows (hlinkless : Linkless t) {n : Nat} {pieces : List (List Char)}
    (h : Follows t n l (pieces.map String.ofList) m) :
    place l (pieces.filterMap Component.ofPiece?) = m := by
  generalize hnames : pieces.map String.ofList = names at h
  induction h generalizing pieces with
  | done =>
      obtain rfl := List.map_eq_nil_iff.mp hnames
      rfl
  | step hleads _ ih =>
      obtain ⟨piece, pieces, rfl, rfl, hrest⟩ := List.map_eq_cons_iff.mp hnames
      rw [← ih hrest, ← place_of_leads hleads, place, place, place, ← List.foldl_append]
      cases hpiece : Component.ofPiece? piece <;> simp [hpiece]
  | link hlink => exact absurd hlink.link (hlinkless _ _)

theorem text_ne_of_arrives (h : Arrives t cwd p l) : p.text ≠ "" := by
  intro hempty
  have hfault := h.noFault
  simp [FileTree.pathFault?, hempty] at hfault

theorem start_eq {first : List Char} {rest : List (List Char)} (hne : p.text ≠ "")
    (hsplit : splitOn '/' p.text.toList = first :: rest) :
    FileTree.start cwd p = if first = [] then [] else cwd := by
  have hslash : p.text.toList.head? = some '/' ↔ first = [] := by
    rw [head?_eq_slash_iff, hsplit]
    cases rest with
    | nil =>
        have hfirst : first ≠ [] := by
          rintro rfl
          exact hne (String.toList_eq_nil_iff.mp (splitOn_eq_singleton_nil hsplit))
        simp [hfirst]
    | cons piece rest => simp
  simp only [FileTree.start, beq_iff_eq, hslash]

/-- Without links the components of a path tell where it leads, if it leads anywhere. -/
theorem place_of_arrives (hlinkless : Linkless t) (h : Arrives t cwd p l) :
    place cwd p.components = l := by
  obtain ⟨first, rest, hsplit⟩ := List.exists_cons_of_ne_nil (splitOn_ne_nil '/' p.text.toList)
  have hne := text_ne_of_arrives h
  have hplace := place_of_follows hlinkless h.follows
  rw [hsplit, start_eq hne hsplit] at hplace
  rw [components_eq hne hsplit, ← hplace]
  unfold opening
  split
  · rfl
  · rfl
  · next hroot _ =>
      rw [if_neg hroot]
      cases hpiece : Component.ofPiece? first <;> simp [hpiece]

end Location

section Descent

/-- The names of entries are proper, and what stands above an entry is a directory. -/
structure IsFileSystem (t : FileTree) : Prop where
  isEntry : ∀ entry ∈ t.nodes, ∀ name ∈ entry.1, IsEntry name
  above : ∀ entry ∈ t.nodes, t.get? entry.1.dropLast = some .directory

variable {t : FileTree} {cwd l : Location} {p : TreePath} {name : String} {names : List String}

theorem IsFileSystem.isEntry_of_get? (h : IsFileSystem t) (hsome : t.get? l ≠ none) :
    ∀ name ∈ l, IsEntry name := by
  by_cases hl : l = []
  · simp [hl]
  · obtain ⟨node, hnode⟩ := Option.ne_none_iff_exists'.mp hsome
    exact h.isEntry _ ((get?_eq_some_iff_mem hl).mp hnode)

theorem IsFileSystem.above_append (h : IsFileSystem t) (hsome : t.get? (l ++ names) ≠ none)
    (hnames : names ≠ []) : t.get? l = some .directory := by
  induction names using List.reverseRecOn with
  | nil => exact absurd rfl hnames
  | append_singleton names name ih =>
      obtain ⟨node, hnode⟩ := Option.ne_none_iff_exists'.mp hsome
      have habove := h.above _ ((get?_eq_some_iff_mem (by simp)).mp hnode)
      rw [← List.append_assoc, List.dropLast_concat] at habove
      by_cases hnil : names = []
      · simpa [hnil] using habove
      · exact ih (by simp [habove]) hnil

theorem pathFault?_eq_none_iff :
    FileTree.pathFault? p = none ↔ p.text ≠ "" ∧ (∀ c ∈ p.text.toList, c.toNat ≠ 0) ∧
      p.text.utf8ByteSize < FileTree.maxPathLength := by
  have hnul : p.text.toList.any (·.toNat == 0) = true ↔ ¬ ∀ c ∈ p.text.toList, c.toNat ≠ 0 := by
    simp
  rw [FileTree.pathFault?]
  split
  · next hempty => simp [beq_iff_eq.mp hempty]
  · next hempty =>
      have hne : p.text ≠ "" := by simpa using hempty
      split
      · next hany => exact iff_of_false (by simp) fun h => hnul.mp hany h.2.1
      · next hany =>
          have hall : ∀ c ∈ p.text.toList, c.toNat ≠ 0 := by
            rw [hnul, not_not] at hany
            exact hany
          split
          · next hlong => exact iff_of_false (by simp) fun h => Nat.not_lt.mpr hlong h.2.2
          · next hshort => exact iff_of_true rfl ⟨hne, hall, Nat.lt_of_not_le hshort⟩

theorem pathFault?_of_long (hnul : ∀ c ∈ p.text.toList, c.toNat ≠ 0)
    (hlong : FileTree.maxPathLength ≤ p.text.utf8ByteSize) :
    FileTree.pathFault? p = some .nameTooLong := by
  have hne : p.text ≠ "" := by
    intro hempty
    simp [hempty, FileTree.maxPathLength] at hlong
  have hany : ¬ p.text.toList.any (·.toNat == 0) = true := by simpa using hnul
  rw [FileTree.pathFault?, if_neg (by simpa using hne), if_neg hany, if_pos hlong]

theorem start_child (hne : p.text ≠ "") (hname : IsEntry name) :
    FileTree.start cwd (p.child name) = FileTree.start cwd p := by
  obtain ⟨first, rest, last, hsplit, -, hchild⟩ := splitOn_child hne hname.noSlash
  rw [start_eq hne hsplit, start_eq (child_text_ne p hname.ne_empty) hchild]

theorem mem_child {c : Char} (h : c ∈ (p.child name).text.toList) :
    c ∈ p.text.toList ∨ c = '/' ∨ c ∈ name.toList := by
  rw [TreePath.child] at h
  split at h
  · rw [String.toList_append, List.mem_append] at h
    exact h.imp_right .inr
  · simpa [or_assoc] using h

theorem noNul_child (hnul : ∀ c ∈ p.text.toList, c.toNat ≠ 0) (hname : IsEntry name) :
    ∀ c ∈ (p.child name).text.toList, c.toNat ≠ 0 := by
  intro c hc
  rcases mem_child hc with hc | rfl | hc
  · exact hnul c hc
  · decide
  · exact hname.noNul c hc

theorem follows_child (hne : p.text ≠ "") (hname : IsEntry name) {n : Nat} {start : Location}
    (hfollows : Follows t n start (FileTree.pieces p) l) (hsearch : Searchable t l)
    (hplain : ∀ q, t.get? (l ++ [name]) ≠ some (.link q)) :
    Follows t n start (FileTree.pieces (p.child name)) (l ++ [name]) := by
  obtain ⟨first, rest, last, hsplit, hlast, hchild⟩ := splitOn_child hne hname.noSlash
  have habove : Follows t n start ((first :: rest).map String.ofList) l := by
    rw [FileTree.pieces, hsplit, ← List.cons_append, List.map_append] at hfollows
    rcases hlast with rfl | rfl
    · simpa using hfollows
    · exact hfollows.of_concat_empty.1
  rw [FileTree.pieces, hchild, ← List.cons_append, List.map_append, List.map_singleton,
    String.ofList_toList]
  exact habove.concat (.child hsearch hname.toIsName hplain)

theorem arrives_child (h : Arrives t cwd p l) (hname : IsEntry name) (hsearch : Searchable t l)
    (hplain : ∀ q, t.get? (l ++ [name]) ≠ some (.link q))
    (hsize : (p.child name).text.utf8ByteSize < FileTree.maxPathLength) :
    Arrives t cwd (p.child name) (l ++ [name]) := by
  have hne := text_ne_of_arrives h
  refine ⟨pathFault?_eq_none_iff.mpr ⟨child_text_ne p hname.ne_empty, ?_, hsize⟩, ?_⟩
  · exact noNul_child (pathFault?_eq_none_iff.mp h.noFault).2.1 hname
  · rw [start_child hne hname]
    exact follows_child hne hname h.follows hsearch hplain

theorem utf8ByteSize_descend (p : TreePath) (names : List String) :
    p.text.utf8ByteSize ≤ (p.descend names).text.utf8ByteSize := by
  induction names generalizing p with
  | nil => exact le_rfl
  | cons name names ih =>
      refine le_trans ?_ (ih (p.child name))
      rw [TreePath.child]
      split
      · simp
      · simp [Nat.add_assoc]

theorem arrives_root (t : FileTree) (cwd : Location) : Arrives t cwd ⟨"/"⟩ [] := by
  have hpieces : FileTree.pieces ⟨"/"⟩ = ["", ""] := by decide +kernel
  refine ⟨by decide +kernel, ?_⟩
  rw [hpieces, FileTree.start, if_pos (by decide +kernel)]
  exact .step (.empty rfl) (.step (.empty rfl) .done)

/-- A walk gets to every entry with a path that is not too long, if it may look up the names on the
way. -/
theorem arrives_descend (h : Arrives t cwd p l) (hsystem : IsFileSystem t)
    (hentry : t.get? (l ++ names) ≠ none) (hplain : ∀ q, t.get? (l ++ names) ≠ some (.link q))
    (hsearch : ∀ k < names.length, t.refusal? .search (l ++ names.take k) = none)
    (hsize : (p.descend names).text.utf8ByteSize < FileTree.maxPathLength) :
    Arrives t cwd (p.descend names) (l ++ names) := by
  induction names generalizing p l with
  | nil => simpa [TreePath.descend] using h
  | cons name names ih =>
      have hname : IsEntry name := hsystem.isEntry_of_get? hentry name (by simp)
      have hl : Searchable t l :=
        ⟨hsystem.above_append hentry (by simp), by simpa using hsearch 0 (by simp)⟩
      rw [List.append_cons] at hentry hplain ⊢
      have hchild : ∀ q, t.get? (l ++ [name]) ≠ some (.link q) := by
        intro q
        by_cases hnames : names = []
        · simpa [hnames] using hplain q
        · simp [hsystem.above_append hentry hnames]
      have hshort : (p.child name).text.utf8ByteSize < FileTree.maxPathLength :=
        (utf8ByteSize_descend (p.child name) names).trans_lt hsize
      refine ih (arrives_child h hname hl hchild hshort) hentry hplain ?_ hsize
      intro k hk
      simpa using hsearch (k + 1) (by simpa using hk)

theorem noNul_descend (hnul : ∀ c ∈ p.text.toList, c.toNat ≠ 0)
    (hnames : ∀ name ∈ names, IsEntry name) :
    ∀ c ∈ (p.descend names).text.toList, c.toNat ≠ 0 := by
  induction names generalizing p with
  | nil => exact hnul
  | cons name names ih =>
      exact ih (noNul_child hnul (hnames name (by simp))) fun other hother =>
        hnames other (List.mem_cons_of_mem name hother)

theorem resolve_descend_of_long (h : Arrives t cwd p l)
    (hnames : ∀ name ∈ names, IsEntry name)
    (hlong : FileTree.maxPathLength ≤ (p.descend names).text.utf8ByteSize) :
    t.resolve cwd (p.descend names) = .error .nameTooLong := by
  have hnul := noNul_descend (pathFault?_eq_none_iff.mp h.noFault).2.1 hnames
  rw [FileTree.resolve, FileTree.lead, pathFault?_of_long hnul hlong]

end Descent

end SpanishLua.Proofs.Walking
