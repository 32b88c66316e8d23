import Mathlib.Data.Char
import Mathlib.Data.List.Lex
import Mathlib.Data.Prod.Lex
import SpanishLua.Command.Selection
import SpanishLua.Proofs.Loading
import SpanishLua.Proofs.Wildcards

namespace SpanishLua.Proofs.Selecting

open SpanishLua.Files
open SpanishLua.Command
open SpanishLua.Proofs.Loading
open SpanishLua.Proofs.Scanning
open SpanishLua.Proofs.Trees
open SpanishLua.Proofs.Wildcards

section Order

/-- The place of a component among all components. -/
def key : Component → ℕ ×ₗ List Char
  | .name name => toLex (3, name)
  | c => toLex (c.rank, [])

theorem key_injective : Function.Injective key := by
  intro a b h
  cases a <;> cases b <;> simp_all [key, Component.rank]

theorem component_precedes_iff {a b : Component} : a.precedes b = true ↔ key a < key b := by
  cases a <;> cases b <;> simp [Component.precedes, key, Component.rank, Prod.Lex.toLex_lt_toLex]

/-- The place of a path among all paths. -/
def rank (p : TreePath) : List (ℕ ×ₗ List Char) :=
  p.components.map key

theorem precedesComponents_iff {as bs : List Component} :
    TreePath.precedesComponents as bs = true ↔ as.map key < bs.map key := by
  induction as generalizing bs with
  | nil => cases bs <;> simp [TreePath.precedesComponents]
  | cons a as ih =>
      cases bs with
      | nil => simp [TreePath.precedesComponents]
      | cons b bs =>
          simp [TreePath.precedesComponents, ih, component_precedes_iff, List.cons_lt_cons_iff,
            key_injective.eq_iff]

theorem precedes_iff {p q : TreePath} : p.precedes q = true ↔ rank p < rank q :=
  precedesComponents_iff

theorem same_iff {p q : TreePath} : p.same q = true ↔ rank p = rank q := by
  rw [TreePath.same, beq_iff_eq, rank, rank, key_injective.list_map.eq_iff]

end Order

section Files

variable {t : FileTree} {l : Location}

theorem mem_filesBelow_iff {names : Location} :
    names ∈ t.filesBelow l ↔
      names ≠ [] ∧ ∃ content, t.get? (l ++ names) = some (.file content) := by
  rw [FileTree.filesBelow, List.mem_filterMap]
  constructor
  · rintro ⟨⟨m, node⟩, hmem, h⟩
    dsimp only at h
    split at h
    · next content name rest hsplit =>
        obtain rfl := Option.some.inj h
        obtain rfl := isPrefixOf?_eq_some_iff.mp hsplit
        exact ⟨by simp, content, (get?_eq_some_iff_mem (by simp)).mpr hmem⟩
    · simp at h
  · rintro ⟨hne, content, hfile⟩
    cases names with
    | nil => exact absurd rfl hne
    | cons name names =>
        have hmem := (get?_eq_some_iff_mem (by simp)).mp hfile
        refine ⟨_, hmem, ?_⟩
        have hsplit : l.isPrefixOf? (l ++ name :: names) = some (name :: names) :=
          isPrefixOf?_eq_some_iff.mpr rfl
        simp only [hsplit]

end Files

section Representatives

/-- Ascending paths, one for all those with a property that have the same components. -/
structure Represents (paths : List TreePath) (P : TreePath → Prop) : Prop where
  ascending : paths.Pairwise fun p q => p.precedes q = true
  sound : ∀ p ∈ paths, P p
  complete : ∀ p, P p → ∃ q ∈ paths, q.components = p.components

variable {paths files : List TreePath} {P Q : TreePath → Prop}

theorem Represents.congr (h : Represents paths P) (heq : ∀ p, P p ↔ Q p) : Represents paths Q where
  ascending := h.ascending
  sound := fun p hp => (heq p).mp (h.sound p hp)
  complete := fun p hp => h.complete p ((heq p).mpr hp)

theorem Represents.nodup_components (h : Represents paths P) :
    (paths.map TreePath.components).Nodup := by
  rw [List.Nodup, List.pairwise_map]
  refine h.ascending.imp ?_
  intro p q hprecedes hcomponents
  rw [precedes_iff, rank, rank, hcomponents] at hprecedes
  exact lt_irrefl _ hprecedes

theorem mem_of_mem_insertInto {p q : TreePath} (h : q ∈ p.insertInto files) :
    q = p ∨ q ∈ files := by
  induction files with
  | nil => simpa [TreePath.insertInto] using h
  | cons file files ih =>
      rw [TreePath.insertInto] at h
      split at h
      · exact .inr h
      · split at h
        · exact List.mem_cons.mp h
        · rcases List.mem_cons.mp h with rfl | h
          · exact .inr List.mem_cons_self
          · exact (ih h).imp_right (List.mem_cons_of_mem file)

theorem mem_insertInto_of_mem {q : TreePath} (p : TreePath) (h : q ∈ files) :
    q ∈ p.insertInto files := by
  induction files with
  | nil => simp at h
  | cons file files ih =>
      rw [TreePath.insertInto]
      split
      · exact h
      · split
        · exact List.mem_cons_of_mem p h
        · rcases List.mem_cons.mp h with rfl | h
          · exact List.mem_cons_self
          · exact List.mem_cons_of_mem file (ih h)

theorem exists_mem_insertInto (p : TreePath) (files : List TreePath) :
    ∃ q ∈ p.insertInto files, q.components = p.components := by
  induction files with
  | nil => exact ⟨p, by simp [TreePath.insertInto], rfl⟩
  | cons file files ih =>
      rw [TreePath.insertInto]
      split
      · next hsame =>
          have hcomponents : p.components = file.components := by
            simpa [TreePath.same] using hsame
          exact ⟨file, List.mem_cons_self, hcomponents.symm⟩
      · split
        · exact ⟨p, List.mem_cons_self, rfl⟩
        · obtain ⟨q, hq, hcomponents⟩ := ih
          exact ⟨q, List.mem_cons_of_mem file hq, hcomponents⟩

theorem ascending_insertInto (p : TreePath) (h : files.Pairwise fun p q => p.precedes q = true) :
    (p.insertInto files).Pairwise fun p q => p.precedes q = true := by
  induction files with
  | nil => simp [TreePath.insertInto]
  | cons file files ih =>
      obtain ⟨hfile, hfiles⟩ := List.pairwise_cons.mp h
      rw [TreePath.insertInto]
      split
      · exact h
      · next hsame =>
          split
          · next hbefore =>
              refine List.pairwise_cons.mpr ⟨?_, h⟩
              intro q hq
              rcases List.mem_cons.mp hq with rfl | hq
              · exact hbefore
              · rw [precedes_iff] at hbefore ⊢
                exact hbefore.trans (precedes_iff.mp (hfile q hq))
          · next hbefore =>
              refine List.pairwise_cons.mpr ⟨?_, ih hfiles⟩
              intro q hq
              rcases mem_of_mem_insertInto hq with rfl | hq
              · rw [precedes_iff] at hbefore ⊢
                rw [same_iff] at hsame
                exact lt_of_le_of_ne (not_lt.mp hbefore) (Ne.symm hsame)
              · exact hfile q hq

theorem Represents.insertInto (h : Represents files P) (p : TreePath) :
    Represents (p.insertInto files) fun q => P q ∨ q = p where
  ascending := ascending_insertInto p h.ascending
  sound := fun q hq => (mem_of_mem_insertInto hq).symm.imp_left (h.sound q)
  complete := by
    rintro q (hq | rfl)
    · obtain ⟨file, hfile, hcomponents⟩ := h.complete q hq
      exact ⟨file, mem_insertInto_of_mem p hfile, hcomponents⟩
    · exact exists_mem_insertInto q files

theorem Represents.insertAll (h : Represents files P) (paths : List TreePath) :
    Represents (paths.foldl (fun files p => p.insertInto files) files) fun q =>
      P q ∨ q ∈ paths := by
  induction paths generalizing files P with
  | nil => simpa using h
  | cons p paths ih =>
      refine (ih (h.insertInto p)).congr ?_
      intro q
      rw [List.mem_cons, or_assoc]

end Representatives

section Roots

variable {t : FileTree} {cwd : Location} {c : Config} {f : FileFilter}

/-- Patterns of the configuration count a file in that has these names on the way to it. -/
def Counts (c : Config) (names : Location) : Prop :=
  (∃ text ∈ c.includes, ∃ p, PathPattern.parse text.toList = .ok p ∧
    Matches p.tokens ("/".intercalate names).toList) ∧
  ∀ text ∈ c.ignores, ∀ p, PathPattern.parse text.toList = .ok p →
    ¬ Matches p.tokens ("/".intercalate names).toList

/-- A filter has the patterns of a configuration. -/
structure Filters (c : Config) (f : FileFilter) : Prop where
  mem_includes : ∀ p, p ∈ f.includes ↔ ∃ text ∈ c.includes, PathPattern.parse text.toList = .ok p
  mem_ignores : ∀ p, p ∈ f.ignores ↔ ∃ text ∈ c.ignores, PathPattern.parse text.toList = .ok p

theorem accepts_iff (h : Filters c f) {names : Location} :
    f.accepts names = true ↔ Counts c names := by
  have hincludes : (∃ p ∈ f.includes, p.isMatch ("/".intercalate names).toList = true) ↔
      ∃ text ∈ c.includes, ∃ p, PathPattern.parse text.toList = .ok p ∧
        Matches p.tokens ("/".intercalate names).toList := by
    constructor
    · rintro ⟨p, hp, hmatch⟩
      obtain ⟨text, htext, hparse⟩ := (h.mem_includes p).mp hp
      exact ⟨text, htext, p, hparse, (isMatch_iff hparse).mp hmatch⟩
    · rintro ⟨text, htext, p, hparse, hmatches⟩
      exact ⟨p, (h.mem_includes p).mpr ⟨text, htext, hparse⟩, (isMatch_iff hparse).mpr hmatches⟩
  have hignores : (∀ p ∈ f.ignores, ¬ p.isMatch ("/".intercalate names).toList = true) ↔
      ∀ text ∈ c.ignores, ∀ p, PathPattern.parse text.toList = .ok p →
        ¬ Matches p.tokens ("/".intercalate names).toList := by
    constructor
    · intro hall text htext p hparse hmatches
      apply hall p ((h.mem_ignores p).mpr ⟨text, htext, hparse⟩)
      exact (isMatch_iff hparse).mpr hmatches
    · intro hall p hp hmatch
      obtain ⟨text, htext, hparse⟩ := (h.mem_ignores p).mp hp
      exact hall text htext p hparse ((isMatch_iff hparse).mp hmatch)
  rw [FileFilter.accepts, Counts, ← hincludes, ← hignores, Bool.and_eq_true, List.any_eq_true,
    Bool.not_eq_true', List.any_eq_false]

/-- A walk from a root at `l` comes upon the entry with these names on the way to it: each directory
on the way can be opened by its path and listed, and so can the entry be told. -/
structure Reached (t : FileTree) (cwd : Location) (root : TreePath) (l names : Location) :
    Prop where
  opened : ∀ k < names.length, ∃ m, Arrives t cwd (root.descend (names.take k)) m ∧
    t.get? m = some .directory ∧ t.refusal? .list m = none
  told : t.refusal? .list (l ++ names) = none

theorem reaches_iff {root : TreePath} {l names : Location} :
    Selection.reaches t cwd root l names = true ↔ Reached t cwd root l names := by
  simp only [Selection.reaches, Bool.and_eq_true, Option.isNone_iff_eq_none, List.all_eq_true,
    List.mem_range, lists_iff]
  exact ⟨fun h => ⟨h.2, h.1⟩, fun h => ⟨h.told, h.opened⟩⟩

/-- A root stands for a path of the file at a location: for itself, or for the path of a file below
it that counts, if a walk comes upon that file. -/
inductive StandsFor (t : FileTree) (cwd : Location) (c : Config) (root : TreePath) :
    TreePath → Location → Prop
  | itself {l : Location} {content : ByteArray} :
      t.resolve cwd root = .ok l → t.get? l = some (.file content) → StandsFor t cwd c root root l
  | below {l names : Location} {content : ByteArray} :
      t.resolve cwd root = .ok l → t.get? l = some .directory → names ≠ [] →
        t.get? (l ++ names) = some (.file content) → Counts c names →
        Reached t cwd root l names → StandsFor t cwd c root (root.descend names) (l ++ names)

/-- One of the roots stands for a path of the file at a location. -/
def Selects (t : FileTree) (cwd : Location) (c : Config) (roots : List TreePath) (p : TreePath)
    (l : Location) : Prop :=
  ∃ root ∈ roots, StandsFor t cwd c root p l

/-- A root that is neither a file nor a directory. -/
def isStray (t : FileTree) (cwd : Location) (root : TreePath) : Bool :=
  !t.isFile cwd root && !t.isDirectory cwd root

theorem mem_below_iff {root p : TreePath} {l : Location} :
    p ∈ Selection.below t cwd f root l ↔
      ∃ names, names ≠ [] ∧ (∃ content, t.get? (l ++ names) = some (.file content)) ∧
        f.accepts names = true ∧ Reached t cwd root l names ∧ root.descend names = p := by
  simp only [Selection.below, Selection.found, List.mem_map, List.mem_filter, mem_filesBelow_iff,
    Bool.and_eq_true, reaches_iff, and_assoc]

theorem standsFor_iff {root p : TreePath} {l m : Location} (hresolve : t.resolve cwd root = .ok l) :
    StandsFor t cwd c root p m ↔
      (p = root ∧ m = l ∧ ∃ content, t.get? l = some (.file content)) ∨
      t.get? l = some .directory ∧ ∃ names, names ≠ [] ∧
        (∃ content, t.get? (l ++ names) = some (.file content)) ∧ Counts c names ∧
        Reached t cwd root l names ∧ root.descend names = p ∧ m = l ++ names := by
  constructor
  · intro h
    cases h with
    | itself hl hfile =>
        obtain rfl := Except.ok.inj (hresolve.symm.trans hl)
        exact .inl ⟨rfl, rfl, _, hfile⟩
    | below hl hdirectory hne hfile hcounts hreached =>
        obtain rfl := Except.ok.inj (hresolve.symm.trans hl)
        exact .inr ⟨hdirectory, _, hne, ⟨_, hfile⟩, hcounts, hreached, rfl, rfl⟩
  · rintro (⟨rfl, rfl, content, hfile⟩ | ⟨hdirectory, names, hne, ⟨content, hfile⟩, hcounts,
      hreached, rfl, rfl⟩)
    · exact .itself hresolve hfile
    · exact .below hresolve hdirectory hne hfile hcounts hreached

/-- What stands at the location of a root decides what the root stands for. -/
theorem add_cases (h : Filters c f) (s : Selection) (root : TreePath) :
    ∃ paths, (∀ p, p ∈ paths ↔ ∃ m, StandsFor t cwd c root p m) ∧
      Selection.add t cwd f s root =
        { s.withFiles paths with missing := s.missing ++ [root].filter (isStray t cwd) } := by
  rw [Selection.add]
  cases hresolve : t.resolve cwd root with
  | error fault =>
      have hnone : ∀ p m, ¬ StandsFor t cwd c root p m := by
        intro p m hstands
        cases hstands with
        | itself hl => simp [hresolve] at hl
        | below hl => simp [hresolve] at hl
      refine ⟨[], by simp [hnone], ?_⟩
      simp [isStray, FileTree.isFile, FileTree.isDirectory, FileTree.node?, hresolve,
        Selection.withFiles]
  | ok l =>
      simp only [standsFor_iff hresolve]
      cases hnode : t.get? l with
      | none => exact absurd hnode (resolve_eq_ok_iff.mp hresolve).2
      | some node =>
          cases node with
          | file content =>
              refine ⟨[root], by simp, ?_⟩
              simp [isStray, FileTree.isFile, FileTree.node?, hresolve, hnode, Selection.withFiles]
          | directory =>
              refine ⟨Selection.below t cwd f root l, ?_, ?_⟩
              · intro p
                simp only [mem_below_iff, accepts_iff h]
                simp
              · simp [isStray, FileTree.isDirectory, FileTree.node?, hresolve, hnode,
                  Selection.withFiles]
          | device content =>
              refine ⟨[], by simp, ?_⟩
              simp [isStray, FileTree.isFile, FileTree.isDirectory, FileTree.node?, hresolve, hnode,
                Selection.withFiles]
          | link path =>
              refine ⟨[], by simp, ?_⟩
              simp [isStray, FileTree.isFile, FileTree.isDirectory, FileTree.node?, hresolve, hnode,
                Selection.withFiles]

theorem represents_add (h : Filters c f) {s : Selection} {P : TreePath → Prop}
    (hs : Represents s.files P) (root : TreePath) :
    Represents (Selection.add t cwd f s root).files fun p =>
      P p ∨ ∃ m, StandsFor t cwd c root p m := by
  obtain ⟨paths, hpaths, hadd⟩ := add_cases h s root
  rw [hadd]
  refine (hs.insertAll paths).congr ?_
  intro p
  rw [hpaths]

theorem represents_foldl_add (h : Filters c f) (roots : List TreePath) {s : Selection}
    {P : TreePath → Prop} (hs : Represents s.files P) :
    Represents (roots.foldl (Selection.add t cwd f) s).files fun p =>
      P p ∨ ∃ m, Selects t cwd c roots p m := by
  induction roots generalizing s P with
  | nil => simpa [Selects] using hs
  | cons root roots ih =>
      refine (ih (represents_add h hs root)).congr ?_
      intro p
      simp only [Selects, List.mem_cons, exists_eq_or_imp, exists_or, or_assoc]

/-- The files of roots are the selected ones. -/
theorem represents_ofRoots (h : Filters c f) (roots : List TreePath) :
    Represents (Selection.ofRoots t cwd f roots).files fun p => ∃ l, Selects t cwd c roots p l := by
  have hnone : Represents ({} : Selection).files fun _ => False :=
    ⟨List.Pairwise.nil, by simp, by simp⟩
  refine (represents_foldl_add h roots hnone).congr ?_
  intro p
  rw [false_or]

theorem missing_foldl_add (h : Filters c f) (roots : List TreePath) (s : Selection) :
    (roots.foldl (Selection.add t cwd f) s).missing =
      s.missing ++ roots.filter (isStray t cwd) := by
  induction roots generalizing s with
  | nil => simp
  | cons root roots ih =>
      obtain ⟨paths, -, hadd⟩ := @add_cases t cwd c f h s root
      rw [List.foldl_cons, ih, hadd, List.append_assoc, ← List.filter_append,
        List.singleton_append]

theorem missing_ofRoots (h : Filters c f) (roots : List TreePath) :
    (Selection.ofRoots t cwd f roots).missing = roots.filter (isStray t cwd) :=
  missing_foldl_add h roots {}

end Roots

end SpanishLua.Proofs.Selecting
