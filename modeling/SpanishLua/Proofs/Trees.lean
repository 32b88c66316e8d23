import SpanishLua.Files.FileTree
import SpanishLua.Proofs.Documents

namespace SpanishLua.Proofs.Trees

open SpanishLua.Files
open SpanishLua.Text
open SpanishLua.Proofs.Documents

section Nodes

variable {t : FileTree} {l m : Location} {node : Node}

theorem lookup_filter_of_ne (h : m ≠ l) (nodes : List (Location × Node)) :
    (nodes.filter (·.1 != l)).lookup m = nodes.lookup m := by
  induction nodes with
  | nil => rfl
  | cons entry nodes ih =>
      obtain ⟨k, node⟩ := entry
      by_cases hk : k = l
      · subst hk
        simp [List.lookup_cons, ih, beq_false_of_ne h]
      · simp [List.lookup_cons, ih, hk]

theorem lookup_eq_some_iff_mem {nodes : List (Location × Node)}
    (hnodup : (nodes.map Prod.fst).Nodup) :
    nodes.lookup l = some node ↔ (l, node) ∈ nodes := by
  induction nodes with
  | nil => simp
  | cons entry nodes ih =>
      obtain ⟨m, other⟩ := entry
      rw [List.map_cons, List.nodup_cons] at hnodup
      by_cases hm : l = m
      · subst hm
        have hfree : (l, node) ∉ nodes := by
          intro h
          exact hnodup.1 (List.mem_map.mpr ⟨_, h, rfl⟩)
        simp [hfree, eq_comm]
      · simp [List.lookup_cons, beq_false_of_ne hm, ih hnodup.2, hm]

theorem get?_eq_some_iff_mem (hl : l ≠ []) :
    t.get? l = some node ↔ (l, node) ∈ t.nodes := by
  rw [FileTree.get?, if_neg hl, lookup_eq_some_iff_mem t.nodup]

theorem get?_put_self (hl : l ≠ []) : (t.put l node).get? l = some node := by
  simp [FileTree.get?, FileTree.put, hl]

theorem get?_put_of_ne (h : m ≠ l) : (t.put l node).get? m = t.get? m := by
  simp only [FileTree.get?, FileTree.put, List.lookup_cons, beq_false_of_ne h,
    lookup_filter_of_ne h]

theorem fromUTF8?_eq_some_iff {content : ByteArray} {s : String} :
    String.fromUTF8? content = some s ↔ content = s.toUTF8 := by
  constructor
  · intro h
    rw [String.fromUTF8?] at h
    split at h
    · obtain rfl := Option.some.inj h
      rfl
    · simp at h
  · rintro rfl
    exact dif_pos s.isValidUTF8

theorem textAt_eq_ok_iff {s : String} :
    t.textAt l = .ok s ↔
      t.get? l = some (.file s.toUTF8) ∨ t.get? l = some (.device s.toUTF8) := by
  rw [FileTree.textAt]
  cases t.get? l with
  | none => simp
  | some node =>
      cases node with
      | directory => simp
      | link path => simp
      | file content =>
          simp only [Option.some.injEq, Node.file.injEq, reduceCtorEq, or_false,
            ← fromUTF8?_eq_some_iff]
          cases h : String.fromUTF8? content <;> simp
      | device content =>
          simp only [Option.some.injEq, Node.device.injEq, reduceCtorEq, false_or,
            ← fromUTF8?_eq_some_iff]
          cases h : String.fromUTF8? content <;> simp

end Nodes

section Following

variable {t : FileTree} {n : Nat} {l m : Location} {piece : String} {rest : List String}
  {writing : Bool}

/-- A piece of a path that is the name of an entry. -/
structure IsName (piece : String) : Prop where
  ne_empty : piece ≠ ""
  ne_here : piece ≠ "."
  ne_parent : piece ≠ ".."
  short : piece.utf8ByteSize ≤ FileTree.maxNameLength

/-- A directory in which names can be looked up. -/
structure Searchable (t : FileTree) (l : Location) : Prop where
  isDirectory : t.get? l = some .directory
  allowed : t.refusal? .search l = none

/-- Where a piece of a path leads from a directory, if not through a link. -/
inductive Leads (t : FileTree) (l : Location) : String → Location → Prop
  | empty : t.get? l = some .directory → Leads t l "" l
  | here : Searchable t l → Leads t l "." l
  | parent : Searchable t l → Leads t l ".." l.dropLast
  | child {name : String} : Searchable t l → IsName name →
      (∀ p, t.get? (l ++ [name]) ≠ some (.link p)) → Leads t l name (l ++ [name])

/-- A piece of a path that is the name of a link. -/
structure IsLink (t : FileTree) (l : Location) (name : String) (p : TreePath) : Prop where
  searchable : Searchable t l
  isName : IsName name
  link : t.get? (l ++ [name]) = some (.link p)

/-- Where pieces of a path lead from a location through at most `n` links. -/
inductive Follows (t : FileTree) : Nat → Location → List String → Location → Prop
  | done {n : Nat} {l : Location} : Follows t n l [] l
  | step {n : Nat} {l next m : Location} {piece : String} {rest : List String} :
      Leads t l piece next → Follows t n next rest m → Follows t n l (piece :: rest) m
  | link {n : Nat} {l m : Location} {name : String} {p : TreePath} {rest : List String} :
      IsLink t l name p → Follows t n (FileTree.start l p) (FileTree.pieces p ++ rest) m →
        Follows t (n + 1) l (name :: rest) m

/-- Nothing but slashes comes after the name of a file to be written. -/
def Slashed (writing : Bool) (rest : List String) : Prop :=
  writing = true ∧ rest ≠ [] ∧ ∀ piece ∈ rest, piece = ""

theorem slashed_iff :
    (writing && !rest.isEmpty && rest.all (· == "")) = true ↔ Slashed writing rest := by
  simp [Slashed, and_assoc]

section Walk

variable {jump : Location → List String → Except FileFault Location}

/-- A walk that gets through has taken its first piece as a step, or has jumped from a link. -/
theorem walk_cons_cases (h : t.walk writing jump l (piece :: rest) = .ok m) :
    (∃ next, Leads t l piece next ∧ (IsName piece → ¬ Slashed writing rest) ∧
      t.walk writing jump next rest = .ok m) ∨
    ∃ p, IsLink t l piece p ∧ ¬ Slashed writing rest ∧
      jump (FileTree.start l p) (FileTree.pieces p ++ rest) = .ok m := by
  -- one case for each test that the walk makes, in the order of the tests
  rw [FileTree.walk] at h
  split at h
  · simp at h
  · rename_i hdirectory
    split at h
    · rename_i hempty
      obtain rfl : piece = "" := by simpa using hempty
      exact .inl ⟨l, .empty hdirectory, fun hname => absurd rfl hname.ne_empty, h⟩
    · rename_i hempty
      split at h
      · simp at h
      · rename_i hallowed
        have hsearch : Searchable t l := ⟨hdirectory, hallowed⟩
        split at h
        · rename_i hhere
          obtain rfl : piece = "." := by simpa using hhere
          exact .inl ⟨l, .here hsearch, fun hname => absurd rfl hname.ne_here, h⟩
        · rename_i hhere
          split at h
          · rename_i hparent
            obtain rfl : piece = ".." := by simpa using hparent
            exact .inl ⟨l.dropLast, .parent hsearch, fun hname => absurd rfl hname.ne_parent, h⟩
          · rename_i hparent
            split at h
            · simp at h
            · rename_i hslashed
              rw [slashed_iff] at hslashed
              split at h
              · simp at h
              · rename_i hshort
                have hname : IsName piece := {
                  ne_empty := by simpa using hempty
                  ne_here := by simpa using hhere
                  ne_parent := by simpa using hparent
                  short := Nat.le_of_not_lt hshort }
                split at h
                · rename_i p hlink
                  exact .inr ⟨p, ⟨hsearch, hname, hlink⟩, hslashed, h⟩
                · rename_i hlink
                  exact .inl ⟨l ++ [piece], .child hsearch hname hlink, fun _ => hslashed, h⟩
  · simp at h

theorem walk_name_eq_ok (hsearch : Searchable t l) (hname : IsName piece)
    (hslashed : ¬ Slashed writing rest)
    (hjump : ∀ p, t.get? (l ++ [piece]) = some (.link p) →
      jump (FileTree.start l p) (FileTree.pieces p ++ rest) = .ok m)
    (hchild : (∀ p, t.get? (l ++ [piece]) ≠ some (.link p)) →
      t.walk writing jump (l ++ [piece]) rest = .ok m) :
    t.walk writing jump l (piece :: rest) = .ok m := by
  rw [FileTree.walk, hsearch.isDirectory]
  simp only [hsearch.allowed]
  rw [if_neg (by simpa using hname.ne_empty), if_neg (by simpa using hname.ne_here),
    if_neg (by simpa using hname.ne_parent), if_neg (by rwa [slashed_iff]),
    if_neg (Nat.not_lt.mpr hname.short)]
  split
  · next p hlink => exact hjump p hlink
  · next hplain => exact hchild hplain

theorem walk_cons_eq_ok_iff :
    t.walk writing jump l (piece :: rest) = .ok m ↔
      (∃ next, Leads t l piece next ∧ (IsName piece → ¬ Slashed writing rest) ∧
        t.walk writing jump next rest = .ok m) ∨
      ∃ p, IsLink t l piece p ∧ ¬ Slashed writing rest ∧
        jump (FileTree.start l p) (FileTree.pieces p ++ rest) = .ok m := by
  refine ⟨walk_cons_cases, ?_⟩
  rintro (⟨next, hleads, hslashed, h⟩ | ⟨p, hlink, hslashed, h⟩)
  · cases hleads with
    | empty hdirectory => simpa [FileTree.walk, hdirectory] using h
    | here hsearch => simpa [FileTree.walk, hsearch.isDirectory, hsearch.allowed] using h
    | parent hsearch => simpa [FileTree.walk, hsearch.isDirectory, hsearch.allowed] using h
    | child hsearch hname hplain =>
        exact walk_name_eq_ok hsearch hname (hslashed hname) (fun p hp => absurd hp (hplain p))
          fun _ => h
  · refine walk_name_eq_ok hlink.searchable hlink.isName hslashed (fun q hq => ?_)
      fun hplain => absurd hlink.link (hplain p)
    obtain rfl : p = q := by simpa [hlink.link] using hq
    exact h

end Walk

theorem follow_nil : t.follow writing n l [] = .ok l := by
  cases n <;> rfl

theorem follow_cons_eq_ok_iff :
    t.follow writing n l (piece :: rest) = .ok m ↔
      (∃ next, Leads t l piece next ∧ (IsName piece → ¬ Slashed writing rest) ∧
        t.follow writing n next rest = .ok m) ∨
      ∃ k p, n = k + 1 ∧ IsLink t l piece p ∧ ¬ Slashed writing rest ∧
        t.follow writing k (FileTree.start l p) (FileTree.pieces p ++ rest) = .ok m := by
  cases n with
  | zero =>
      simp only [FileTree.follow, walk_cons_eq_ok_iff]
      simp
  | succ n =>
      simp only [FileTree.follow, walk_cons_eq_ok_iff]
      simp

theorem follows_of_follow {pieces : List String} (h : t.follow writing n l pieces = .ok m) :
    Follows t n l pieces m := by
  -- the number of links goes down at a link, and the number of pieces does otherwise
  induction n using Nat.strongRecOn generalizing l pieces with
  | ind n ih =>
      induction pieces generalizing l with
      | nil =>
          rw [follow_nil] at h
          obtain rfl := Except.ok.inj h
          exact .done
      | cons piece rest ihrest =>
          rcases follow_cons_eq_ok_iff.mp h with ⟨next, hleads, -, hrest⟩ |
            ⟨k, p, rfl, hlink, -, hrest⟩
          · exact .step hleads (ihrest hrest)
          · exact .link hlink (ih k (Nat.lt_succ_self k) hrest)

theorem eq_of_leads_empty (h : Leads t l "" m) : m = l ∧ t.get? l = some .directory := by
  generalize hpiece : "" = piece at h
  cases h with
  | empty hdirectory => exact ⟨rfl, hdirectory⟩
  | here => exact absurd hpiece (by decide)
  | parent => exact absurd hpiece (by decide)
  | child _ hname => exact absurd hpiece.symm hname.ne_empty

theorem eq_of_leads_name (hname : IsName piece) (h : Leads t l piece m) : m = l ++ [piece] := by
  cases h with
  | empty => exact absurd rfl hname.ne_empty
  | here => exact absurd rfl hname.ne_here
  | parent => exact absurd rfl hname.ne_parent
  | child => rfl

theorem Follows.of_name (hname : IsName piece) (h : Follows t n l [piece] m) :
    m = l ++ [piece] ∨ ∃ p, t.get? (l ++ [piece]) = some (.link p) := by
  cases h with
  | step hleads hdone =>
      cases hdone
      exact .inl (eq_of_leads_name hname hleads)
  | link hlink => exact .inr ⟨_, hlink.link⟩

theorem Follows.split {above below : List String} (h : Follows t n l (above ++ below) m) :
    ∃ k next, Follows t n l above next ∧ Follows t k next below m := by
  generalize hpieces : above ++ below = pieces at h
  induction h generalizing above with
  | @done n l =>
      obtain ⟨rfl, rfl⟩ := List.append_eq_nil_iff.mp hpieces
      exact ⟨n, l, .done, .done⟩
  | @step n l next m piece rest hleads hrest ih =>
      rcases List.append_eq_cons_iff.mp hpieces with ⟨rfl, rfl⟩ | ⟨above, rfl, rfl⟩
      · exact ⟨n, l, .done, .step hleads hrest⟩
      · obtain ⟨k, place, habove, hbelow⟩ := ih rfl
        exact ⟨k, place, .step hleads habove, hbelow⟩
  | @link n l m name p rest hlink hrest ih =>
      rcases List.append_eq_cons_iff.mp hpieces with ⟨rfl, rfl⟩ | ⟨above, rfl, rfl⟩
      · exact ⟨n + 1, l, .done, .link hlink hrest⟩
      · obtain ⟨k, place, habove, hbelow⟩ := ih (List.append_assoc _ above below)
        exact ⟨k, place, .link hlink habove, hbelow⟩

theorem Follows.concat {above : List String} {next : Location} (h : Follows t n l above next)
    (hlast : Leads t next piece m) : Follows t n l (above ++ [piece]) m := by
  induction h with
  | done => exact .step hlast .done
  | step hleads _ ih => exact .step hleads (ih hlast)
  | link hlink _ ih =>
      have hrest := ih hlast
      rw [List.append_assoc] at hrest
      exact .link hlink hrest

theorem Follows.of_concat_empty {above : List String} (h : Follows t n l (above ++ [""]) m) :
    Follows t n l above m ∧ t.get? m = some .directory := by
  obtain ⟨k, next, habove, hlast⟩ := h.split
  cases hlast with
  | step hleads hdone =>
      cases hdone
      obtain ⟨rfl, hdirectory⟩ := eq_of_leads_empty hleads
      exact ⟨habove, hdirectory⟩
  | link hlink => exact absurd rfl hlink.isName.ne_empty

theorem Follows.isDirectory_of_slashed {above : List String}
    (h : Follows t n l (above ++ rest) m) (hslashed : Slashed writing rest) :
    t.get? m = some .directory := by
  obtain ⟨-, hne, hempty⟩ := hslashed
  have hlast : rest = rest.dropLast ++ [""] := by
    rw [← hempty (rest.getLast hne) (List.getLast_mem hne), List.dropLast_append_getLast hne]
  rw [hlast, ← List.append_assoc] at h
  exact h.of_concat_empty.2

theorem Follows.follow_eq {pieces : List String} (h : Follows t n l pieces m)
    (hwriting : writing = true → t.get? m ≠ some .directory) :
    t.follow writing n l pieces = .ok m := by
  have hslashed {k : Nat} {start : Location} {above rest : List String}
      (hfollows : Follows t k start (above ++ rest) m) : ¬ Slashed writing rest := fun hslashed =>
    hwriting hslashed.1 (hfollows.isDirectory_of_slashed hslashed)
  induction h with
  | done => exact follow_nil
  | @step n l next m piece rest hleads hrest ih =>
      refine follow_cons_eq_ok_iff.mpr (.inl ⟨next, hleads, fun _ => ?_, ih hwriting hslashed⟩)
      exact hslashed (List.nil_append rest ▸ hrest)
  | @link n l m name p rest hlink hrest ih =>
      exact follow_cons_eq_ok_iff.mpr
        (.inr ⟨n, p, rfl, hlink, hslashed hrest, ih hwriting hslashed⟩)

theorem Follows.unique {pieces : List String} {m' : Location} (h : Follows t n l pieces m)
    (h' : Follows t n l pieces m') : m = m' := by
  have hfollow : t.follow false n l pieces = .ok m := h.follow_eq (by simp)
  have hfollow' : t.follow false n l pieces = .ok m' := h'.follow_eq (by simp)
  exact Except.ok.inj (hfollow.symm.trans hfollow')

section Put

variable {place : Location} {content : ByteArray}
  (hplace : t.get? place ≠ some .directory) (hplain : ∀ p, t.get? place ≠ some (.link p))

include hplace in
theorem get?_put_of_directory (h : t.get? l = some .directory) :
    (t.put place (.file content)).get? l = some .directory := by
  rw [get?_put_of_ne, h]
  rintro rfl
  exact hplace h

include hplace in
theorem Searchable.put (h : Searchable t l) : Searchable (t.put place (.file content)) l :=
  ⟨get?_put_of_directory hplace h.isDirectory, h.allowed⟩

theorem get?_put_ne_link {p : TreePath} (h : t.get? l ≠ some (.link p)) :
    (t.put place (.file content)).get? l ≠ some (.link p) := by
  by_cases hl : l = []
  · simp [FileTree.get?, hl]
  · by_cases heq : l = place
    · rw [← heq, get?_put_self hl]
      simp
    · rwa [get?_put_of_ne heq]

include hplace in
theorem Leads.put (h : Leads t l piece m) : Leads (t.put place (.file content)) l piece m := by
  cases h with
  | empty hdirectory => exact .empty (get?_put_of_directory hplace hdirectory)
  | here hsearch => exact .here (hsearch.put hplace)
  | parent hsearch => exact .parent (hsearch.put hplace)
  | child hsearch hname hlink =>
      exact .child (hsearch.put hplace) hname fun p => get?_put_ne_link (hlink p)

include hplace hplain in
theorem IsLink.put {p : TreePath} (h : IsLink t l piece p) :
    IsLink (t.put place (.file content)) l piece p := by
  refine ⟨h.searchable.put hplace, h.isName, ?_⟩
  rw [get?_put_of_ne, h.link]
  intro heq
  exact hplain p (heq ▸ h.link)

include hplace hplain in
/-- A file that is put where neither a directory nor a link stood bars no way. -/
theorem Follows.put {pieces : List String} (h : Follows t n l pieces m) :
    Follows (t.put place (.file content)) n l pieces m := by
  induction h with
  | done => exact .done
  | step hleads _ ih => exact .step (hleads.put hplace) ih
  | link hlink _ ih => exact .link (hlink.put hplace hplain) ih

end Put

end Following

section Pieces

theorem splitOn_last (separator : Char) (s : List Char) :
    (separator ∉ s ∧ splitOn separator s = [s]) ∨
      ∃ start piece, s = start ++ separator :: piece ∧ separator ∉ piece ∧
        splitOn separator s = splitOn separator start ++ [piece] := by
  by_cases hmem : separator ∈ s
  · obtain ⟨piece, start, hsplit, hpiece⟩ :=
      List.eq_append_cons_of_mem (List.mem_reverse.mpr hmem)
    obtain rfl : s = start.reverse ++ separator :: piece.reverse := by
      rw [← List.reverse_reverse s, hsplit]
      simp
    rw [← List.mem_reverse] at hpiece
    refine .inr ⟨start.reverse, piece.reverse, rfl, hpiece, ?_⟩
    rw [splitOn_append_separator, splitOn_of_notMem hpiece]
  · exact .inl ⟨hmem, splitOn_of_notMem hmem⟩

theorem head?_eq_slash_iff (s : List Char) :
    s.head? = some '/' ↔ (splitOn '/' s).dropLast.head? = some [] := by
  cases s with
  | nil => simp [splitOn]
  | cons c s =>
      rw [splitOn_cons]
      cases hs : splitOn '/' s with
      | nil => exact absurd hs (splitOn_ne_nil '/' s)
      | cons piece pieces =>
          split
          · rename_i hc
            simp [hc]
          · rename_i hc
            cases pieces <;> simp [hc]

end Pieces

section Paths

variable {t : FileTree} {cwd l : Location} {p : TreePath}

/-- A path leads to a location, where nothing needs to stand. -/
structure Arrives (t : FileTree) (cwd : Location) (p : TreePath) (l : Location) : Prop where
  noFault : FileTree.pathFault? p = none
  follows : Follows t FileTree.maxLinks (FileTree.start cwd p) (FileTree.pieces p) l

theorem arrives_of_lead {writing : Bool} (h : t.lead writing cwd p = .ok l) :
    Arrives t cwd p l := by
  rw [FileTree.lead] at h
  split at h
  · simp at h
  · rename_i hfault
    exact ⟨hfault, follows_of_follow h⟩

theorem Arrives.lead_eq {writing : Bool} (h : Arrives t cwd p l)
    (hwriting : writing = true → t.get? l ≠ some .directory) : t.lead writing cwd p = .ok l := by
  rw [FileTree.lead, h.noFault]
  exact h.follows.follow_eq hwriting

theorem Arrives.unique {m : Location} (h : Arrives t cwd p l) (h' : Arrives t cwd p m) : l = m :=
  h.follows.unique h'.follows

theorem resolve_eq_ok_iff :
    t.resolve cwd p = .ok l ↔ Arrives t cwd p l ∧ t.get? l ≠ none := by
  rw [FileTree.resolve]
  constructor
  · intro h
    split at h
    · simp at h
    · rename_i m hlead
      split at h
      · rename_i hsome
        obtain rfl := Except.ok.inj h
        exact ⟨arrives_of_lead hlead, Option.isSome_iff_ne_none.mp hsome⟩
      · simp at h
  · rintro ⟨harrives, hsome⟩
    rw [harrives.lead_eq (by simp)]
    exact if_pos (Option.isSome_iff_ne_none.mpr hsome)

theorem node?_eq_some_iff {node : Node} :
    t.node? cwd p = some node ↔ ∃ l, Arrives t cwd p l ∧ t.get? l = some node := by
  constructor
  · intro h
    rw [FileTree.node?] at h
    split at h
    · simp at h
    · rename_i l hresolve
      exact ⟨l, (resolve_eq_ok_iff.mp hresolve).1, h⟩
  · rintro ⟨l, harrives, hnode⟩
    rw [FileTree.node?, resolve_eq_ok_iff.mpr ⟨harrives, by simp [hnode]⟩]
    exact hnode

theorem stands_iff : t.stands cwd p = true ↔ ∃ l, Arrives t cwd p l ∧ t.get? l ≠ none := by
  rw [FileTree.stands, Option.isSome_iff_exists]
  constructor
  · rintro ⟨node, hnode⟩
    obtain ⟨l, harrives, hl⟩ := node?_eq_some_iff.mp hnode
    exact ⟨l, harrives, by simp [hl]⟩
  · rintro ⟨l, harrives, hsome⟩
    obtain ⟨node, hnode⟩ := Option.ne_none_iff_exists'.mp hsome
    exact ⟨node, node?_eq_some_iff.mpr ⟨l, harrives, hnode⟩⟩

theorem isFile_iff :
    t.isFile cwd p = true ↔ ∃ l content, Arrives t cwd p l ∧ t.get? l = some (.file content) := by
  rw [FileTree.isFile]
  constructor
  · intro h
    split at h
    · rename_i content hnode
      obtain ⟨l, harrives, hl⟩ := node?_eq_some_iff.mp hnode
      exact ⟨l, content, harrives, hl⟩
    · simp at h
  · rintro ⟨l, content, harrives, hl⟩
    rw [node?_eq_some_iff.mpr ⟨l, harrives, hl⟩]

theorem lists_iff :
    t.lists cwd p = true ↔
      ∃ l, Arrives t cwd p l ∧ t.get? l = some .directory ∧ t.refusal? .list l = none := by
  rw [FileTree.lists]
  constructor
  · intro h
    split at h
    · simp at h
    · rename_i l hresolve
      split at h
      · rename_i hdirectory
        exact ⟨l, (resolve_eq_ok_iff.mp hresolve).1, hdirectory, by simpa using h⟩
      · simp at h
  · rintro ⟨l, harrives, hdirectory, hallowed⟩
    rw [resolve_eq_ok_iff.mpr ⟨harrives, by simp [hdirectory]⟩]
    simp [hdirectory, hallowed]

theorem read_eq_ok_iff {s : String} :
    t.read cwd p = .ok s ↔
      ∃ l, t.resolve cwd p = .ok l ∧ t.refusal? .read l = none ∧ t.textAt l = .ok s := by
  rw [FileTree.read]
  cases t.resolve cwd p with
  | error fault => simp
  | ok l => cases hrefusal : t.refusal? .read l <;> simp [hrefusal]

/-- Writing to a path opens a location: no directory and no link stands there, and the system does
not refuse it. -/
structure Target (t : FileTree) (cwd : Location) (p : TreePath) (l : Location) : Prop where
  arrives : Arrives t cwd p l
  notDirectory : t.get? l ≠ some .directory
  notLink : ∀ q, t.get? l ≠ some (.link q)
  allowed : t.refusal? .write l = none

theorem target_eq_ok_iff : t.target cwd p = .ok l ↔ Target t cwd p l := by
  rw [FileTree.target]
  constructor
  · intro h
    split at h
    · simp at h
    · rename_i m hlead
      split at h
      · simp at h
      · simp at h
      · rename_i hdirectory hlink
        split at h
        · simp at h
        · rename_i hallowed
          obtain rfl := Except.ok.inj h
          exact ⟨arrives_of_lead hlead, hdirectory, hlink, hallowed⟩
  · rintro ⟨harrives, hdirectory, hlink, hallowed⟩
    rw [harrives.lead_eq fun _ => hdirectory]
    simp only [hallowed]

section Written

variable (h : Target t cwd p l)
include h

theorem Target.ne_nil : l ≠ [] := by
  rintro rfl
  exact h.notDirectory rfl

theorem Target.arrives_put {q : TreePath} {m : Location} (content : ByteArray)
    (hq : Arrives t cwd q m) : Arrives (t.put l (.file content)) cwd q m :=
  ⟨hq.noFault, hq.follows.put h.notDirectory h.notLink⟩

end Written

end Paths

end SpanishLua.Proofs.Trees
