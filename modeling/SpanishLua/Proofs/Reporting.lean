import Mathlib.Data.String.Basic
import SpanishLua.Proofs.ByteOrder
import SpanishLua.Proofs.Selecting
import SpanishLua.Proofs.Walking

namespace SpanishLua.Proofs.Reporting

open SpanishLua.Files
open SpanishLua.Command
open SpanishLua.Proofs.ByteOrder
open SpanishLua.Proofs.Documents
open SpanishLua.Proofs.Trees
open SpanishLua.Proofs.Loading
open SpanishLua.Proofs.Selecting
open SpanishLua.Proofs.Walking
open SpanishLua.Proofs.Wildcards

section Failures

variable {t : FileTree} {cwd : Location} {translator : Translator} {p : TreePath} {f : Failure}

/-- A path is of no file with a text that can be translated, and the failure tells why. -/
inductive Fails (t : FileTree) (cwd : Location) (translator : Translator) (p : TreePath) :
    Failure → Prop
  | unreadable {fault : FileFault} :
      t.read cwd p = .error fault → Fails t cwd translator p (.unreadable p.display fault)
  | document {s : String} {e : DocumentError} :
      t.read cwd p = .ok s → translator.translate s.toList p.display = .error e →
        Fails t cwd translator p (.ofDocument p.display s.toList e)

theorem failure?_eq_some_iff :
    failure? t cwd translator p = some f ↔ Fails t cwd translator p f := by
  rw [failure?, translateFile]
  cases hread : t.read cwd p with
  | error fault =>
      constructor
      · intro h
        obtain rfl := Option.some.inj h
        exact .unreadable hread
      · intro h
        cases h with
        | unreadable h =>
            obtain rfl := Except.error.inj (hread.symm.trans h)
            rfl
        | document h => simp [hread] at h
  | ok s =>
      cases htranslate : translator.translate s.toList p.display with
      | error e =>
          simp only [htranslate]
          constructor
          · intro h
            obtain rfl := Option.some.inj h
            exact .document hread htranslate
          · intro h
            cases h with
            | unreadable h => simp [hread] at h
            | document h he =>
                obtain rfl := Except.ok.inj (hread.symm.trans h)
                obtain rfl := Except.error.inj (htranslate.symm.trans he)
                rfl
      | ok lua =>
          simp only [htranslate]
          constructor
          · simp
          · intro h
            cases h with
            | unreadable h => simp [hread] at h
            | document h he =>
                obtain rfl := Except.ok.inj (hread.symm.trans h)
                simp [htranslate] at he

end Failures

section Order

theorem failure_le_iff {f g : Failure} :
    f.le g = true ↔ f.path < g.path ∨ f.path = g.path ∧ f.line ≤ g.line := by
  simp [Failure.le]

theorem failure_le_trans (f g h : Failure) (hfg : f.le g = true) (hgh : g.le h = true) :
    f.le h = true := by
  rw [failure_le_iff] at hfg hgh ⊢
  rcases hfg with hfg | ⟨hfg, hline⟩ <;> rcases hgh with hgh | ⟨hgh, hline'⟩
  · exact .inl (hfg.trans hgh)
  · exact .inl (hgh ▸ hfg)
  · exact .inl (hfg ▸ hgh)
  · exact .inr ⟨hfg.trans hgh, hline.trans hline'⟩

theorem failure_le_total (f g : Failure) : (f.le g || g.le f) = true := by
  rw [Bool.or_eq_true, failure_le_iff, failure_le_iff]
  rcases lt_trichotomy f.path g.path with hlt | heq | hgt
  · exact .inl (.inl hlt)
  · rcases Nat.le_total f.line g.line with hle | hle
    · exact .inl (.inr ⟨heq, hle⟩)
    · exact .inr (.inr ⟨heq.symm, hle⟩)
  · exact .inr (.inl hgt)

theorem arrange_perm (missing : List TreePath) (ofFiles : List Failure) :
    (arrange missing ofFiles).Perm
      (missing.map (fun root => Failure.usage root.text "path not found") ++ ofFiles) :=
  List.mergeSort_perm _ _

theorem arrange_sorted (missing : List TreePath) (ofFiles : List Failure) :
    (arrange missing ofFiles).Pairwise fun f g =>
      bytes f.path < bytes g.path ∨ f.path = g.path ∧ f.line ≤ g.line := by
  have hsorted : (arrange missing ofFiles).Pairwise fun f g => f.le g = true :=
    List.pairwise_mergeSort failure_le_trans failure_le_total _
  refine hsorted.imp ?_
  intro f g hle
  exact (failure_le_iff.mp hle).imp_left bytes_lt_bytes

end Order

section Status

theorem le_foldl_worse (l : List ExitStatus) (start : ExitStatus) :
    start.code ≤ (l.foldl .worse start).code ∧ ∀ s ∈ l, s.code ≤ (l.foldl .worse start).code := by
  induction l generalizing start with
  | nil => simp
  | cons s l ih =>
      obtain ⟨hstart, hall⟩ := ih (start.worse s)
      have hworse : start.code ≤ (start.worse s).code ∧ s.code ≤ (start.worse s).code := by
        rw [ExitStatus.worse]
        split <;> omega
      refine ⟨hworse.1.trans hstart, ?_⟩
      intro r hr
      rcases List.mem_cons.mp hr with rfl | hr
      · exact hworse.2.trans hstart
      · exact hall r hr

theorem foldl_worse_mem (l : List ExitStatus) (start : ExitStatus) :
    l.foldl .worse start = start ∨ l.foldl .worse start ∈ l := by
  induction l generalizing start with
  | nil => exact .inl rfl
  | cons s l ih =>
      rw [List.foldl_cons]
      rcases ih (start.worse s) with heq | hmem
      · rw [heq, ExitStatus.worse]
        split
        · exact .inr List.mem_cons_self
        · exact .inl rfl
      · exact .inr (List.mem_cons_of_mem s hmem)

theorem status_code_pos (kind : FailureKind) : 0 < kind.status.code := by
  cases kind <;> simp [FailureKind.status, ExitStatus.code]

theorem worst_of_ne_nil {failures : List Failure} (h : failures ≠ []) :
    ∃ f ∈ failures, ExitStatus.worst (failures.map (·.kind.status)) = f.kind.status ∧
      ∀ g ∈ failures, g.kind.status.code ≤ f.kind.status.code := by
  have hall : ∀ g ∈ failures,
      g.kind.status.code ≤ (ExitStatus.worst (failures.map (·.kind.status))).code := by
    intro g hg
    exact (le_foldl_worse _ .success).2 g.kind.status (List.mem_map.mpr ⟨g, hg, rfl⟩)
  have hmem : ExitStatus.worst (failures.map (·.kind.status)) ∈ failures.map (·.kind.status) := by
    refine (foldl_worse_mem _ .success).resolve_left ?_
    intro hsuccess
    obtain ⟨f, hf⟩ := List.exists_mem_of_ne_nil failures h
    have hle := (status_code_pos f.kind).trans_le (hall f hf)
    rw [ExitStatus.worst, hsuccess] at hle
    simp [ExitStatus.code] at hle
  obtain ⟨f, hf, heq⟩ := List.mem_map.mp hmem
  rw [← heq] at hall ⊢
  exact ⟨f, hf, rfl, hall⟩

theorem worst_eq_success_iff {failures : List Failure} :
    ExitStatus.worst (failures.map (·.kind.status)) = .success ↔ failures = [] := by
  constructor
  · intro hsuccess
    by_contra hne
    obtain ⟨f, -, hworst, -⟩ := worst_of_ne_nil hne
    have hpos := status_code_pos f.kind
    rw [← hworst, hsuccess] at hpos
    simp [ExitStatus.code] at hpos
  · rintro rfl
    rfl

end Status

section Check

variable {t : FileTree} {cwd : Location} {context : Context}

/-- The roots of a check: those that are given, or the working directory. -/
def rootsOf (roots : List TreePath) : List TreePath :=
  if roots.isEmpty then defaultRoots else roots

/-- Failures account for roots and for the paths that stand for their files: they are in order,
there is one for each root that is neither a file nor a directory and one for each path that fails,
and the gravest decides the status. -/
structure Accounts (t : FileTree) (cwd : Location) (translator : Translator)
    (roots paths : List TreePath) (failures : List Failure) : Prop where
  sorted : failures.Pairwise fun f g =>
    bytes f.path < bytes g.path ∨ f.path = g.path ∧ f.line ≤ g.line
  perm : ∃ pairs : List (TreePath × Failure), pairs.Nodup ∧
    (∀ p f, (p, f) ∈ pairs ↔ p ∈ paths ∧ Fails t cwd translator p f) ∧
    failures.Perm
      ((roots.filter (isStray t cwd)).map (fun root => .usage root.text "path not found") ++
        pairs.map Prod.snd)
  success_iff : (Report.checked paths.length failures).status = .success ↔ failures = []
  gravest : failures ≠ [] →
    ∃ f ∈ failures, (Report.checked paths.length failures).status = f.kind.status ∧
      ∀ g ∈ failures, g.kind.status.code ≤ f.kind.status.code

theorem exists_check (h : Context.load t cwd = .ok context) (roots : List TreePath) :
    ∃ paths, Represents paths (fun p => ∃ l, Selects t cwd context.config (rootsOf roots) p l) ∧
      check t cwd roots = .report (.checked paths.length
        (arrange ((rootsOf roots).filter (isStray t cwd))
          (paths.filterMap (failure? t cwd context.translator)))) := by
  obtain ⟨path, hconfig⟩ := exists_loadConfig h
  obtain ⟨includes, ignores, hpatterns, hincludes, hignores⟩ :=
    exists_patterns (fault?_of_loadConfig hconfig)
  have hfilters : Filters context.config ⟨includes, ignores⟩ := ⟨hincludes, hignores⟩
  refine ⟨_, represents_ofRoots hfilters (rootsOf roots), ?_⟩
  rw [check, h]
  simp only [hpatterns, failures, ← missing_ofRoots hfilters]
  rfl

theorem exists_pairs (t : FileTree) (cwd : Location) (translator : Translator)
    {paths finished : List TreePath} (hnodup : paths.Nodup) (hperm : finished.Perm paths) :
    ∃ pairs : List (TreePath × Failure), pairs.Nodup ∧
      (∀ p f, (p, f) ∈ pairs ↔ p ∈ paths ∧ Fails t cwd translator p f) ∧
      (finished.filterMap (failure? t cwd translator)).Perm (pairs.map Prod.snd) := by
  refine ⟨paths.filterMap fun p => (failure? t cwd translator p).map (p, ·), ?_, ?_, ?_⟩
  · refine hnodup.filterMap ?_
    intro p q pair hp hq
    obtain ⟨f, -, rfl⟩ := Option.map_eq_some_iff.mp hp
    obtain ⟨g, -, heq⟩ := Option.map_eq_some_iff.mp hq
    exact (Prod.mk.inj heq).1.symm
  · intro p f
    simp only [List.mem_filterMap, Option.map_eq_some_iff, failure?_eq_some_iff, Prod.mk.injEq]
    constructor
    · rintro ⟨q, hq, g, hfails, rfl, rfl⟩
      exact ⟨hq, hfails⟩
    · rintro ⟨hp, hfails⟩
      exact ⟨p, hp, f, hfails, rfl, rfl⟩
  · rw [List.map_filterMap]
    have hsnd : (fun p => ((failure? t cwd translator p).map (p, ·)).map Prod.snd) =
        failure? t cwd translator := by
      funext p
      simp
    rw [hsnd]
    exact hperm.filterMap _

/-- The system refuses nothing that a walk needs on its way from `l` down to an entry. -/
structure Unbarred (t : FileTree) (l names : Location) : Prop where
  search : ∀ k, k + 1 < names.length → t.refusal? .search (l ++ names.take k) = none
  list : ∀ k ≤ names.length, t.refusal? .list (l ++ names.take k) = none

theorem utf8ByteSize_descend_take (root : TreePath) {names : Location} {k : Nat}
    (hk : k < names.length) :
    (root.descend (names.take k)).text.utf8ByteSize ≤
      (root.descend names.dropLast).text.utf8ByteSize := by
  have hsplit : names.dropLast = names.take k ++ names.dropLast.drop k := by
    have htake : names.dropLast.take k = names.take k := by
      rw [List.dropLast_eq_take, List.take_take, Nat.min_eq_left (by omega)]
    rw [← htake, List.take_append_drop]
  rw [hsplit, TreePath.descend, TreePath.descend, List.foldl_append]
  exact utf8ByteSize_descend _ _

/-- A walk comes upon every entry that it is not barred from, if the directory of the entry has not
too long a path. -/
theorem reached_of_unbarred (hsystem : IsFileSystem t) {root : TreePath} {l names : Location}
    (hroot : Arrives t cwd root l) (hentry : t.get? (l ++ names) ≠ none)
    (hunbarred : Unbarred t l names)
    (hshort : (root.descend names.dropLast).text.utf8ByteSize < FileTree.maxPathLength) :
    Reached t cwd root l names := by
  refine ⟨fun k hk => ⟨l ++ names.take k, ?_⟩, by simpa using hunbarred.list names.length le_rfl⟩
  have hdirectory : t.get? (l ++ names.take k) = some .directory := by
    rw [← List.take_append_drop k names, ← List.append_assoc] at hentry
    exact hsystem.above_append hentry (by simpa using hk)
  refine ⟨?_, hdirectory, hunbarred.list k hk.le⟩
  refine arrives_descend hroot hsystem (by simp [hdirectory]) (by simp [hdirectory]) ?_ ?_
  · intro j hj
    rw [List.length_take, Nat.min_eq_left hk.le] at hj
    rw [List.take_take, Nat.min_eq_left hj.le]
    exact hunbarred.search j (by omega)
  · exact (utf8ByteSize_descend_take root hk).trans_lt hshort

/-- A check misses nothing and invents nothing, but for what a walk cannot come upon. It counts the
paths that its roots select, one for all those with the same components, and its failures account
for them in whatever order they are finished. In a file system all files below a root that count are
selected, unless the system bars the way to them or their directory has too long a path. -/
theorem check_accounts {t : FileTree} {cwd : Location} {context : Context}
    (hload : Context.load t cwd = .ok context) (roots : List TreePath) :
    ∃ paths : List TreePath,
      Represents paths (fun p => ∃ l, Selects t cwd context.config (rootsOf roots) p l) ∧
      (∀ finished : List TreePath, finished.Perm paths →
        Accounts t cwd context.translator (rootsOf roots) paths
          (arrange ((rootsOf roots).filter (isStray t cwd))
            (finished.filterMap (failure? t cwd context.translator)))) ∧
      check t cwd roots = .report (.checked paths.length
        (arrange ((rootsOf roots).filter (isStray t cwd))
          (paths.filterMap (failure? t cwd context.translator)))) ∧
      (IsFileSystem t → ∀ root ∈ rootsOf roots, ∀ l names content,
        t.resolve cwd root = .ok l → names ≠ [] → t.get? (l ++ names) = some (.file content) →
        Counts context.config names → Unbarred t l names →
        (root.descend names.dropLast).text.utf8ByteSize < FileTree.maxPathLength →
        ∃ p ∈ paths, p.components = (root.descend names).components) := by
  obtain ⟨paths, hpaths, hcheck⟩ := exists_check hload roots
  refine ⟨paths, hpaths, ?_, hcheck, ?_⟩
  · intro finished hfinished
    obtain ⟨pairs, hnodup, hmem, hperm⟩ :=
      exists_pairs t cwd context.translator hpaths.nodup_components.of_map hfinished
    exact {
      sorted := arrange_sorted _ _
      perm := ⟨pairs, hnodup, hmem, (arrange_perm _ _).trans (hperm.append_left _)⟩
      success_iff := worst_eq_success_iff
      gravest := worst_of_ne_nil }
  · intro hsystem root hroot l names content hresolve hnames hfile hcounts hunbarred hshort
    have hentry : t.get? (l ++ names) ≠ none := by simp [hfile]
    have hl : t.get? l = some .directory := hsystem.above_append hentry hnames
    have hreached := reached_of_unbarred hsystem (resolve_eq_ok_iff.mp hresolve).1 hentry hunbarred
      hshort
    exact hpaths.complete _
      ⟨_, root, hroot, .below hresolve hl hnames hfile hcounts hreached⟩

/-- A directory with a file that can be translated, one that cannot and one that does not count. -/
def mixed : FileTree where
  nodes :=
    [(["src"], .directory),
     (["src", "bien.vox"], .file "imprimir(1)\n".toUTF8),
     (["src", "mal.vox"], .file "debug\n".toUTF8),
     (["src", "nota.txt"], .file "debug\n".toUTF8)]

/-- The pattern that the files of a check match by default. -/
def voxPattern : PathPattern where
  tokens := [.anyComponents, .anySequence, .char '.', .char 'v', .char 'o', .char 'x']

theorem patterns_default : ({} : Config).patterns = .ok ([voxPattern], []) := by
  rfl

theorem check_mixed :
    check mixed [] [⟨"src"⟩, ⟨"nada"⟩] = .report (.checked 2
      [.usage "nada" "path not found",
       .ofDocument "src/mal.vox" "debug\n".toList
         (.forbidden ⟨"debug", 1, 1, "src/mal.vox"⟩)]) := by
  have hfiles : (Selection.ofRoots mixed [] ⟨[voxPattern], []⟩ [⟨"src"⟩, ⟨"nada"⟩]).files =
      [⟨"src/bien.vox"⟩, ⟨"src/mal.vox"⟩] := by decide +kernel
  have hmissing : (Selection.ofRoots mixed [] ⟨[voxPattern], []⟩ [⟨"src"⟩, ⟨"nada"⟩]).missing =
      [⟨"nada"⟩] := by decide +kernel
  have hgood : failure? mixed [] defaultTranslator ⟨"src/bien.vox"⟩ = none := by
    have hread : mixed.read [] ⟨"src/bien.vox"⟩ = .ok "imprimir(1)\n" := by decide +kernel
    rw [failure?, translateFile, hread]
    simp only [translate_imprimir]
  have hbad : failure? mixed [] defaultTranslator ⟨"src/mal.vox"⟩ = some
      (.ofDocument "src/mal.vox" "debug\n".toList
        (.forbidden ⟨"debug", 1, 1, "src/mal.vox"⟩)) :=
    failure?_eq_some_iff.mpr (.document (by decide +kernel) (translate_debug "src/mal.vox"))
  rw [check, load_default rfl]
  simp only [patterns_default, List.isEmpty_cons, Bool.false_eq_true, if_false, failures, hfiles,
    hmissing, List.filterMap_cons_none hgood, List.filterMap_cons_some hbad, List.filterMap_nil]
  rw [arrange, List.map_singleton, List.singleton_append, List.mergeSort_of_pairwise]
  · rfl
  · exact List.pairwise_pair.mpr (by decide +kernel)

theorem check_accounts_mixed :
    ∃ paths failures,
      check mixed [] [⟨"src"⟩, ⟨"nada"⟩] = .report (.checked paths.length failures) ∧
        paths.length = 2 ∧ failures.map Failure.path = ["nada", "src/mal.vox"] ∧
          Accounts mixed [] defaultTranslator [⟨"src"⟩, ⟨"nada"⟩] paths failures := by
  obtain ⟨paths, -, haccounts, hcheck, -⟩ :=
    check_accounts (t := mixed) (load_default rfl) [⟨"src"⟩, ⟨"nada"⟩]
  have hreport := hcheck.symm.trans check_mixed
  simp only [Outcome.report.injEq, Report.checked.injEq] at hreport
  refine ⟨paths, _, hcheck, hreport.1, ?_, haccounts paths (.refl paths)⟩
  rw [hreport.2]
  rfl

end Check

section Dots

/-- A path to the working directory, with so many dots. -/
def dots : Nat → String
  | 0 => ""
  | n + 1 => "./" ++ dots n

theorem utf8ByteSize_dots (n : Nat) : (dots n).utf8ByteSize = 2 * n := by
  induction n with
  | zero => rfl
  | succ n ih =>
      rw [dots, String.utf8ByteSize_append, ih]
      show 2 + 2 * n = _
      omega

theorem splitOn_dots (n : Nat) :
    Text.splitOn '/' (dots n).toList = List.replicate n ['.'] ++ [[]] := by
  induction n with
  | zero => rfl
  | succ n ih =>
      have htext : (dots (n + 1)).toList = ['.'] ++ '/' :: (dots n).toList := by
        rw [dots, String.toList_append]
        rfl
      rw [htext, splitOn_append_separator, ih]
      rfl

theorem getLast?_dots (n : Nat) : (dots (n + 1)).toList.getLast? = some '/' := by
  induction n with
  | zero => rfl
  | succ n ih =>
      rw [dots, String.toList_append, List.getLast?_append, ih]
      rfl

theorem forall_mem_dots (n : Nat) : ∀ c ∈ (dots n).toList, c = '.' ∨ c = '/' := by
  induction n with
  | zero => simp [dots]
  | succ n ih =>
      intro c hc
      rw [dots, String.toList_append, List.mem_append] at hc
      rcases hc with hc | hc
      · simpa using hc
      · exact ih c hc

theorem follows_dots {t : FileTree} {l : Location} (h : Searchable t l) (n k : Nat) :
    Follows t n l (List.replicate k "." ++ [""]) l := by
  induction k with
  | zero => exact .step (.empty h.isDirectory) .done
  | succ k ih => exact .step (.here h) ih

theorem arrives_dots {t : FileTree} {cwd : Location} (h : Searchable t cwd) {n : Nat}
    (hn : 2 * (n + 1) < FileTree.maxPathLength) : Arrives t cwd ⟨dots (n + 1)⟩ cwd := by
  have htext : (dots (n + 1)).toList = '.' :: '/' :: (dots n).toList := by
    rw [dots, String.toList_append]
    rfl
  have hempty : dots (n + 1) ≠ "" := by
    intro heq
    simp [heq] at htext
  have hnul : ∀ c ∈ (dots (n + 1)).toList, c.toNat ≠ 0 := by
    intro c hc
    rcases forall_mem_dots (n + 1) c hc with rfl | rfl <;> decide
  have hpieces : FileTree.pieces ⟨dots (n + 1)⟩ = List.replicate (n + 1) "." ++ [""] := by
    rw [FileTree.pieces, splitOn_dots, List.map_append, List.map_replicate]
    rfl
  have hstart : FileTree.start cwd ⟨dots (n + 1)⟩ = cwd := by
    simp [FileTree.start, htext]
  constructor
  · rw [pathFault?_eq_none_iff, utf8ByteSize_dots]
    exact ⟨hempty, hnul, hn⟩
  · rw [hstart, hpieces]
    exact follows_dots h _ (n + 1)

theorem utf8ByteSize_child_dots (n : Nat) (name : String) :
    (TreePath.child ⟨dots (n + 1)⟩ name).text.utf8ByteSize = 2 * (n + 1) + name.utf8ByteSize := by
  rw [TreePath.child, getLast?_dots, if_pos (by simp), String.utf8ByteSize_append,
    utf8ByteSize_dots]

theorem resolve_descend_dots {t : FileTree} {cwd : Location} (h : Searchable t cwd)
    {n : Nat} {name : String} {names : List String}
    (hshort : 2 * (n + 1) < FileTree.maxPathLength)
    (hlong : FileTree.maxPathLength ≤ 2 * (n + 1) + name.utf8ByteSize)
    (hnames : ∀ entry ∈ name :: names, IsEntry entry) :
    t.resolve cwd (TreePath.descend ⟨dots (n + 1)⟩ (name :: names)) = .error .nameTooLong := by
  refine resolve_descend_of_long (arrives_dots h hshort) hnames ?_
  rw [← utf8ByteSize_child_dots] at hlong
  exact hlong.trans (utf8ByteSize_descend _ names)

/-- A directory with a file in it that counts. -/
def nested : FileTree where
  nodes := [(["subdir"], .directory), (["subdir", "main.vox"], .file "imprimir(1)\n".toUTF8)]

/-- The same directory without any permission. -/
def locked : FileTree :=
  { nested with
    refusal? := fun _ l =>
      if l = ["subdir"] then some (.system 13 "Permission denied") else none }

theorem isFileSystem_nested : IsFileSystem nested := by
  have hsubdir : IsEntry "subdir" :=
    isEntry_of_all ⟨by decide, by decide, by decide, by decide⟩ (by decide)
  have hmain : IsEntry "main.vox" :=
    isEntry_of_all ⟨by decide, by decide, by decide, by decide⟩ (by decide)
  constructor
  · simp [nested, hsubdir, hmain]
  · simp [nested, FileTree.get?]

theorem names_of_file {names : Location} {content : ByteArray}
    (h : nested.get? names = some (.file content)) : names = ["subdir", "main.vox"] := by
  by_cases hnames : names = []
  · subst hnames
    simp [FileTree.get?] at h
  · have hmem := (get?_eq_some_iff_mem hnames).mp h
    simp only [nested, List.mem_cons, Prod.mk.injEq, reduceCtorEq, and_false, false_or,
      List.not_mem_nil, or_false] at hmem
    exact hmem.1

theorem check_of_not_reached {t : FileTree} {root : TreePath} (hget : t.get? = nested.get?)
    (hroot : t.resolve [] root = .ok [])
    (hreached : ¬ Reached t [] root [] ["subdir", "main.vox"]) :
    check t [] [root] = .report (.checked 0 []) := by
  have hdirectory : t.get? [] = some .directory := rfl
  have hstray : isStray t [] root = false := by
    simp [isStray, FileTree.isDirectory, FileTree.node?, hroot, hdirectory]
  obtain ⟨paths, hpaths, hcheck⟩ := exists_check (t := t) (load_default (by rw [hget]; rfl)) [root]
  have hnone : paths = [] := by
    rw [List.eq_nil_iff_forall_not_mem]
    intro p hp
    obtain ⟨l, root', hroot', hstands⟩ := hpaths.sound p hp
    obtain rfl := List.mem_singleton.mp hroot'
    rw [standsFor_iff hroot] at hstands
    rcases hstands with ⟨-, -, content, hfile⟩ | ⟨-, names, -, ⟨content, hfile⟩, -, hnames, -⟩
    · simp [hdirectory] at hfile
    · rw [hget] at hfile
      obtain rfl := names_of_file hfile
      exact hreached hnames
  rw [hcheck, hnone]
  simp [rootsOf, hstray, arrange]

theorem searchable_nested : Searchable nested [] :=
  ⟨rfl, rfl⟩

section Long

variable {n : Nat} (hshort : 2 * (n + 1) < FileTree.maxPathLength)
  (hlong : FileTree.maxPathLength ≤ 2 * (n + 1) + "subdir".utf8ByteSize)
include hshort

theorem resolve_dots : nested.resolve [] ⟨dots (n + 1)⟩ = .ok [] :=
  resolve_eq_ok_iff.mpr ⟨arrives_dots searchable_nested hshort, by simp [FileTree.get?]⟩

include hlong

theorem check_dots : check nested [] [⟨dots (n + 1)⟩] = .report (.checked 0 []) := by
  refine check_of_not_reached rfl (resolve_dots hshort) fun hreached => ?_
  obtain ⟨m, harrives, hdirectory, -⟩ := hreached.opened 1 (by decide)
  have hentry : ∀ name ∈ ["subdir"], IsEntry name :=
    isFileSystem_nested.isEntry_of_get? (by simp [nested, FileTree.get?])
  have hresolve : nested.resolve [] (TreePath.descend ⟨dots (n + 1)⟩ ["subdir"]) = .ok m :=
    resolve_eq_ok_iff.mpr ⟨harrives, by simp [hdirectory]⟩
  rw [resolve_descend_dots searchable_nested hshort hlong hentry] at hresolve
  simp at hresolve

theorem read_main_behind_dots :
    nested.read [] (TreePath.descend ⟨dots (n + 1)⟩ ["subdir", "main.vox"]) =
      .error .nameTooLong := by
  have hentries : ∀ name ∈ ["subdir", "main.vox"], IsEntry name :=
    isFileSystem_nested.isEntry_of_get? (by simp [nested, FileTree.get?])
  rw [FileTree.read, resolve_descend_dots searchable_nested hshort hlong hentries]

end Long

theorem check_locked : check locked [] [⟨"."⟩] = .report (.checked 0 []) := by
  have hlists : locked.lists [] (TreePath.descend ⟨"."⟩ ["subdir"]) = false := by decide +kernel
  refine check_of_not_reached rfl (by decide +kernel) fun hreached => ?_
  have hopened := lists_iff.mpr (hreached.opened 1 (by decide))
  rw [List.take_succ_cons, List.take_zero, hlists] at hopened
  simp at hopened

theorem counts_main : Counts {} ["subdir", "main.vox"] := by
  have hparse : PathPattern.parse "**/*.vox".toList = .ok voxPattern := rfl
  refine ⟨⟨_, List.mem_singleton_self _, _, hparse, ?_⟩, by simp⟩
  exact (isMatch_iff hparse).mp (by decide)

/-- A file that counts and cannot be read is passed over where its directory has too long a path,
and where its directory cannot be listed. -/
theorem check_misses_main :
    nested.get? ["subdir", "main.vox"] = some (.file "imprimir(1)\n".toUTF8) ∧
      Counts {} ["subdir", "main.vox"] ∧
      (nested.resolve [] ⟨dots 2046⟩ = .ok [] ∧ nested.get? [] = some .directory ∧
        nested.read [] (TreePath.descend ⟨dots 2046⟩ ["subdir", "main.vox"]) =
          .error .nameTooLong ∧
        check nested [] [⟨dots 2046⟩] = .report (.checked 0 [])) ∧
      locked.get? = nested.get? ∧ locked.resolve [] ⟨"."⟩ = .ok [] ∧
        locked.read [] (TreePath.descend ⟨"."⟩ ["subdir", "main.vox"]) =
          .error (.system 13 "Permission denied") ∧
        check locked [] [⟨"."⟩] = .report (.checked 0 []) := by
  have hshort : 2 * (2045 + 1) < FileTree.maxPathLength := by decide
  have hlong : FileTree.maxPathLength ≤ 2 * (2045 + 1) + "subdir".utf8ByteSize := by decide
  refine ⟨rfl, counts_main, ⟨resolve_dots hshort, rfl, read_main_behind_dots hshort hlong,
    check_dots hshort hlong⟩, rfl, by decide +kernel, by decide +kernel, check_locked⟩

end Dots

end SpanishLua.Proofs.Reporting
