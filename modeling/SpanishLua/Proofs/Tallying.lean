import Mathlib.Data.Set.Card
import SpanishLua.Proofs.Reporting

namespace SpanishLua.Proofs.Tallying

open SpanishLua.Files
open SpanishLua.Text
open SpanishLua.Command
open SpanishLua.Proofs.Documents
open SpanishLua.Proofs.Loading
open SpanishLua.Proofs.Trees
open SpanishLua.Proofs.Walking
open SpanishLua.Proofs.Selecting
open SpanishLua.Proofs.Reporting

section Locations

/-- The locations of the files that roots select. -/
def selected (t : FileTree) (cwd : Location) (c : Config) (roots : List TreePath) : Set Location :=
  {l | ∃ p, Selects t cwd c roots p l}

/-- No selected file is named by two paths with different components. -/
def NamedOnce (t : FileTree) (cwd : Location) (c : Config) (roots : List TreePath) : Prop :=
  ∀ p q l, Selects t cwd c roots p l → Selects t cwd c roots q l → p.components = q.components

/-- No two selected paths with different components are displayed alike. -/
def ToldApart (t : FileTree) (cwd : Location) (c : Config) (roots : List TreePath) : Prop :=
  ∀ p q l m, Selects t cwd c roots p l → Selects t cwd c roots q m → p.display = q.display →
    p.components = q.components

/-- The roots are spelt alike: they start with the same components and go on with names. -/
def SpeltAlike (lead : List Component) (roots : List TreePath) : Prop :=
  ∀ root ∈ roots, ∃ names : List (List Char), root.components = lead ++ names.map .name

variable {t : FileTree} {cwd l : Location} {c : Config} {root p q : TreePath}
  {roots paths : List TreePath} (hsystem : IsFileSystem t) (hlinkless : Linkless t)
include hsystem hlinkless

theorem exists_of_standsFor (h : StandsFor t cwd c root p l) :
    ∃ names : List (List Char), p.components = root.components ++ names.map .name ∧
      place cwd p.components = l := by
  cases h with
  | itself hresolve =>
      exact ⟨[], by simp, place_of_arrives hlinkless (resolve_eq_ok_iff.mp hresolve).1⟩
  | @below m names content hresolve _ _ hfile =>
      have harrives := (resolve_eq_ok_iff.mp hresolve).1
      have hentries : ∀ name ∈ names, IsEntry name := by
        intro name hname
        exact hsystem.isEntry_of_get? (by simp [hfile]) name (List.mem_append_right m hname)
      have hcomponents : (root.descend names).components =
          root.components ++ (names.map String.toList).map .name := by
        rw [components_descend (text_ne_of_arrives harrives) hentries, List.map_map]
        rfl
      refine ⟨names.map String.toList, hcomponents, ?_⟩
      rw [hcomponents, place_names, place_of_arrives hlinkless harrives, List.map_map]
      simp

theorem place_of_selects (h : Selects t cwd c roots p l) :
    place cwd p.components = l := by
  obtain ⟨root, -, hstands⟩ := h
  obtain ⟨names, -, hplace⟩ := exists_of_standsFor hsystem hlinkless hstands
  exact hplace

theorem selected_eq
    (hpaths : Represents paths fun p => ∃ l, Selects t cwd c roots p l) :
    selected t cwd c roots =
      ((paths.map fun p => place cwd p.components).toFinset : Set Location) := by
  ext l
  rw [selected, Set.mem_ofPred_eq, List.coe_toFinset, Set.mem_ofPred_eq, List.mem_map]
  constructor
  · rintro ⟨p, hselects⟩
    obtain ⟨q, hq, hcomponents⟩ := hpaths.complete p ⟨l, hselects⟩
    exact ⟨q, hq, by rw [hcomponents, place_of_selects hsystem hlinkless hselects]⟩
  · rintro ⟨p, hp, rfl⟩
    obtain ⟨l, hselects⟩ := hpaths.sound p hp
    exact ⟨p, by rwa [place_of_selects hsystem hlinkless hselects]⟩

theorem nodup_places_iff
    (hpaths : Represents paths fun p => ∃ l, Selects t cwd c roots p l) :
    (paths.map fun p => place cwd p.components).Nodup ↔ NamedOnce t cwd c roots := by
  constructor
  · intro hnodup p q l hp hq
    obtain ⟨p', hp', hpcomponents⟩ := hpaths.complete p ⟨l, hp⟩
    obtain ⟨q', hq', hqcomponents⟩ := hpaths.complete q ⟨l, hq⟩
    have hplace : place cwd p'.components = place cwd q'.components := by
      rw [hpcomponents, hqcomponents, place_of_selects hsystem hlinkless hp,
        place_of_selects hsystem hlinkless hq]
    have hsame : p' = q' := List.inj_on_of_nodup_map hnodup hp' hq' hplace
    rw [← hpcomponents, ← hqcomponents, hsame]
  · intro hunique
    refine List.Nodup.map_on ?_ hpaths.nodup_components.of_map
    intro p hp q hq hplace
    obtain ⟨l, hpselects⟩ := hpaths.sound p hp
    obtain ⟨m, hqselects⟩ := hpaths.sound q hq
    have hlm : l = m := by
      rw [← place_of_selects hsystem hlinkless hpselects,
        ← place_of_selects hsystem hlinkless hqselects, hplace]
    subst hlm
    have hcomponents := hunique p q l hpselects hqselects
    exact List.inj_on_of_nodup_map hpaths.nodup_components hp hq hcomponents

/-- There are as many selected files as paths for them, unless a file is named in two ways. -/
theorem ncard_selected
    (hpaths : Represents paths fun p => ∃ l, Selects t cwd c roots p l) :
    (selected t cwd c roots).ncard ≤ paths.length ∧
      ((selected t cwd c roots).ncard = paths.length ↔ NamedOnce t cwd c roots) := by
  have hlength : paths.length = (paths.map fun p => place cwd p.components).length := by
    rw [List.length_map]
  rw [selected_eq hsystem hlinkless hpaths, Set.ncard_coe_finset,
    ← nodup_places_iff hsystem hlinkless hpaths, hlength]
  refine ⟨List.toFinset_card_le _, ?_, List.toFinset_card_of_nodup⟩
  intro hcard
  exact Multiset.toFinset_card_eq_card_iff_nodup.mp hcard

theorem components_of_lead {lead : List Component}
    (hlead : SpeltAlike lead roots) (hp : Selects t cwd c roots p l) :
    ∃ names : List (List Char), p.components = lead ++ names.map .name ∧
      place cwd lead ++ names.map String.ofList = l := by
  obtain ⟨root, hroot, hstands⟩ := hp
  obtain ⟨above, habove⟩ := hlead root hroot
  obtain ⟨below, hbelow, hplace⟩ := exists_of_standsFor hsystem hlinkless hstands
  refine ⟨above ++ below, by rw [hbelow, habove, List.map_append, List.append_assoc], ?_⟩
  rw [hbelow, habove, List.append_assoc, ← List.map_append, place_names] at hplace
  exact hplace

end Locations

section Documents

variable {t : FileTree} {cwd : Location} {translator : Translator}

/-- The paths of the failures about files that can be read. -/
def documentPaths (failures : List Failure) : List String :=
  (failures.filter fun f => f.kind = .forbiddenWord ∨ f.kind = .semantic).map Failure.path

theorem path_of_fails {p : TreePath} {f : Failure} (h : Fails t cwd translator p f) :
    f.path = p.display := by
  cases h <;> rfl

theorem documentPaths_filterMap (t : FileTree) (cwd : Location) (translator : Translator)
    (paths : List TreePath) :
    ∃ failing : List TreePath, failing.Sublist paths ∧
      documentPaths (paths.filterMap (failure? t cwd translator)) =
        failing.map TreePath.display := by
  induction paths with
  | nil => exact ⟨[], .slnil, rfl⟩
  | cons p paths ih =>
      obtain ⟨failing, hsublist, hpaths⟩ := ih
      cases hfailure : failure? t cwd translator p with
      | none => exact ⟨failing, hsublist.cons p, by rw [List.filterMap_cons_none hfailure, hpaths]⟩
      | some f =>
          rw [List.filterMap_cons_some hfailure, documentPaths, List.filter_cons]
          split
          · refine ⟨p :: failing, hsublist.cons_cons p, ?_⟩
            rw [List.map_cons, ← documentPaths, hpaths, List.map_cons,
              path_of_fails (failure?_eq_some_iff.mp hfailure)]
          · exact ⟨failing, hsublist.cons p, hpaths⟩

theorem documentPaths_arrange (missing : List TreePath) (ofFiles : List Failure) :
    (documentPaths (arrange missing ofFiles)).Perm (documentPaths ofFiles) := by
  have husage : documentPaths
      (missing.map (fun root => Failure.usage root.text "path not found") ++ ofFiles) =
        documentPaths ofFiles := by
    simp [documentPaths, Failure.usage, List.filter_map, Function.comp_def]
  rw [← husage]
  exact ((arrange_perm missing ofFiles).filter _).map _

theorem nodup_documentPaths {c : Config} {roots paths : List TreePath}
    (hpaths : Represents paths fun p => ∃ l, Selects t cwd c roots p l)
    (hdisplay : ToldApart t cwd c roots) (translator : Translator) (missing : List TreePath) :
    (documentPaths (arrange missing (paths.filterMap (failure? t cwd translator)))).Nodup := by
  obtain ⟨failing, hsublist, hfailing⟩ := documentPaths_filterMap t cwd translator paths
  rw [(documentPaths_arrange _ _).nodup_iff, hfailing]
  refine List.Nodup.map_on ?_ (hpaths.nodup_components.of_map.sublist hsublist)
  intro p hp q hq h
  have hp := hsublist.subset hp
  have hq := hsublist.subset hq
  obtain ⟨l, hpselects⟩ := hpaths.sound p hp
  obtain ⟨m, hqselects⟩ := hpaths.sound q hq
  have hcomponents := hdisplay p q l m hpselects hqselects h
  exact List.inj_on_of_nodup_map hpaths.nodup_components hp hq hcomponents

end Documents

section Display

variable {p q : TreePath} {pieces : List (List Char)}

theorem head?_components_iff :
    p.components.head? = some .here ↔ ∃ pieces, splitOn '/' p.text.toList = ['.'] :: pieces := by
  have hpieces : ∀ pieces : List (List Char),
      (pieces.filterMap Component.ofPiece?).head? ≠ some .here := by
    intro pieces h
    obtain ⟨piece, -, hpiece⟩ := List.mem_filterMap.mp (List.mem_of_head? h)
    unfold Component.ofPiece? at hpiece
    split at hpiece <;> simp at hpiece
  rw [TreePath.components]
  split
  · next hsplit => simp [hsplit]
  · next hsplit => simp [hsplit]
  · next hsplit => simp [hsplit]
  · next hsplit => simp [hsplit]
  · next hhere =>
      constructor
      · intro h
        exact absurd h (hpieces _)
      · rintro ⟨pieces, h⟩
        exact (hhere pieces h).elim

theorem map_slash_of_notMem {s : List Char} (h : '\\' ∉ s) :
    (s.map fun c => if c = '\\' then '/' else c) = s := by
  rw [List.map_congr_left (g := id), List.map_id]
  intro c hc
  have hne : c ≠ '\\' := by
    rintro rfl
    exact h hc
  simp [hne]

theorem display_of_notMem (h : '\\' ∉ p.text.toList)
    (hhere : ¬ ∃ pieces, splitOn '/' p.text.toList = ['.'] :: pieces) : p.display = p.text := by
  rw [TreePath.display]
  split
  · next pieces hsplit => exact (hhere ⟨pieces, hsplit⟩).elim
  · rw [map_slash_of_notMem h, String.ofList_toList]

theorem notMem_intercalate {c separator : Char} (hc : c ≠ separator)
    (h : ∀ piece ∈ pieces, c ∉ piece) : c ∉ [separator].intercalate pieces := by
  induction pieces with
  | nil => simp
  | cons piece pieces ih =>
      rw [List.forall_mem_cons] at h
      cases pieces with
      | nil => simpa using h.1
      | cons next pieces =>
          have hrest := ih h.2
          rw [List.intercalate_cons_cons]
          simp [h.1, hc, hrest]

theorem notMem_of_splitOn {c separator : Char} {s piece : List Char} (h : c ∉ s)
    (hpiece : piece ∈ splitOn separator s) : c ∉ piece := by
  obtain ⟨first, rest, hsplit, hfirst, hrest⟩ := splitOn_pieces separator s
  rw [hsplit, List.mem_cons] at hpiece
  intro hc
  rcases hpiece with rfl | hpiece
  · exact h (hfirst.subset hc)
  · exact h ((hrest piece hpiece).subset hc)

theorem filterMap_dropWhile (pieces : List (List Char)) :
    (pieces.dropWhile fun piece => piece == [] || piece == ['.']).filterMap Component.ofPiece? =
      pieces.filterMap Component.ofPiece? := by
  induction pieces with
  | nil => rfl
  | cons piece pieces ih =>
      rw [List.dropWhile_cons]
      split
      · next hdropped =>
          have hnone : Component.ofPiece? piece = none := by
            rcases (by simpa using hdropped : piece = [] ∨ piece = ['.']) with rfl | rfl <;> rfl
          rw [ih, List.filterMap_cons_none hnone]
      · rfl

theorem components_of_here (h : '\\' ∉ p.text.toList)
    (hsplit : splitOn '/' p.text.toList = ['.'] :: pieces) :
    p.components = .here :: (splitOn '/' p.display.toList).filterMap Component.ofPiece? := by
  have hcomponents : p.components = .here :: pieces.filterMap Component.ofPiece? := by
    rw [TreePath.components, hsplit]
    rfl
  rw [hcomponents, ← filterMap_dropWhile pieces]
  have hkept : ∀ piece ∈ pieces.dropWhile fun piece => piece == [] || piece == ['.'],
      piece ∈ splitOn '/' p.text.toList := by
    intro piece hpiece
    rw [hsplit]
    exact List.mem_cons_of_mem _ ((List.dropWhile_sublist _).subset hpiece)
  have hdisplay : p.display.toList =
      ['/'].intercalate (pieces.dropWhile fun piece => piece == [] || piece == ['.']) := by
    rw [TreePath.display, hsplit, String.toList_ofList]
    apply map_slash_of_notMem
    apply notMem_intercalate (by decide)
    intro piece hpiece
    exact notMem_of_splitOn h (hkept piece hpiece)
  rw [hdisplay]
  generalize (pieces.dropWhile fun piece => piece == [] || piece == ['.']) = kept at hkept
  cases kept with
  | nil => rfl
  | cons piece kept =>
      rw [splitOn_intercalate (by simp)]
      intro piece hpiece
      exact notMem_of_mem_splitOn (hkept piece hpiece)

/-- Paths that both start with a dot, or both do not, have the same components if they are displayed
alike. -/
theorem components_of_display (hp : '\\' ∉ p.text.toList) (hq : '\\' ∉ q.text.toList)
    (hhere : p.components.head? = some .here ↔ q.components.head? = some .here)
    (h : p.display = q.display) : p.components = q.components := by
  rw [head?_components_iff, head?_components_iff] at hhere
  by_cases hdot : ∃ pieces, splitOn '/' p.text.toList = ['.'] :: pieces
  · obtain ⟨pieces, hsplit⟩ := hdot
    obtain ⟨pieces', hsplit'⟩ := hhere.mp ⟨pieces, hsplit⟩
    rw [components_of_here hp hsplit, components_of_here hq hsplit', h]
  · rw [display_of_notMem hp hdot, display_of_notMem hq (hhere.not.mp hdot)] at h
    rw [TreePath.components, TreePath.components, h]

end Display

section Spelling

variable {t : FileTree} {cwd : Location} {c : Config} {roots : List TreePath}
  {lead : List Component} (hsystem : IsFileSystem t) (hlinkless : Linkless t)
include hsystem hlinkless

theorem namedOnce_of_speltAlike (hlead : SpeltAlike lead roots) :
    NamedOnce t cwd c roots := by
  intro p q l hp hq
  obtain ⟨m, hpcomponents, hpl⟩ := components_of_lead hsystem hlinkless hlead hp
  obtain ⟨n, hqcomponents, hql⟩ := components_of_lead hsystem hlinkless hlead hq
  have hnames : m.map String.ofList = n.map String.ofList :=
    List.append_cancel_left (hpl.trans hql.symm)
  have hmn : m = n := List.map_injective_iff.mpr (fun _ _ => String.ofList_inj.mp) hnames
  rw [hpcomponents, hqcomponents, hmn]

theorem toldApart_of_speltAlike (hlead : SpeltAlike lead roots)
    (hslash : ∀ p l, Selects t cwd c roots p l → '\\' ∉ p.text.toList) :
    ToldApart t cwd c roots := by
  intro p q l m hp hq h
  apply components_of_display (hslash p l hp) (hslash q m hq) _ h
  obtain ⟨names, hpcomponents, -⟩ := components_of_lead hsystem hlinkless hlead hp
  obtain ⟨names', hqcomponents, -⟩ := components_of_lead hsystem hlinkless hlead hq
  rw [hpcomponents, hqcomponents]
  cases lead with
  | nil => cases names <;> cases names' <;> simp
  | cons component lead => rfl

end Spelling

/-- In a file system without links a check counts every file at least once, and no file twice
exactly if none is named by two paths with different components. It reports no two files that can be
read under one path if selected paths are told apart. Both hold if the roots are spelt alike, as a
single root is, and no path has a backslash. -/
theorem check_counts_once {t : FileTree} {cwd : Location} {context : Context}
    (hsystem : IsFileSystem t) (hlinkless : Linkless t) (hload : Context.load t cwd = .ok context)
    (roots : List TreePath) :
    ∃ n failures, check t cwd roots = .report (.checked n failures) ∧
      (selected t cwd context.config (rootsOf roots)).ncard ≤ n ∧
      ((selected t cwd context.config (rootsOf roots)).ncard = n ↔
        NamedOnce t cwd context.config (rootsOf roots)) ∧
      (ToldApart t cwd context.config (rootsOf roots) → (documentPaths failures).Nodup) ∧
      ∀ lead, SpeltAlike lead (rootsOf roots) →
        NamedOnce t cwd context.config (rootsOf roots) ∧
          ((∀ p l, Selects t cwd context.config (rootsOf roots) p l → '\\' ∉ p.text.toList) →
            ToldApart t cwd context.config (rootsOf roots)) := by
  obtain ⟨paths, hpaths, hcheck⟩ := exists_check hload roots
  obtain ⟨hle, heq⟩ := ncard_selected hsystem hlinkless hpaths
  refine ⟨_, _, hcheck, hle, heq, ?_, ?_⟩
  · intro hdisplay
    exact nodup_documentPaths hpaths hdisplay context.translator _
  · intro lead hlead
    exact ⟨namedOnce_of_speltAlike hsystem hlinkless hlead,
      toldApart_of_speltAlike hsystem hlinkless hlead⟩

theorem linkless_nested : Linkless nested := by
  intro l p h
  by_cases hl : l = []
  · simp [FileTree.get?, hl] at h
  · simpa [nested] using (get?_eq_some_iff_mem hl).mp h

theorem check_counts_once_nested :
    let roots : List TreePath := [⟨"."⟩, ⟨"./subdir"⟩]
    ∃ n failures, check nested [] roots = .report (.checked n failures) ∧
      (selected nested [] {} roots).ncard = n := by
  intro roots
  obtain ⟨n, failures, hcheck, -, heq, -, hspelt⟩ :=
    check_counts_once isFileSystem_nested linkless_nested (load_default rfl) roots
  have hlead : SpeltAlike [.here] roots := by
    rw [SpeltAlike, List.forall_mem_cons, List.forall_mem_singleton]
    exact ⟨⟨[], rfl⟩, ["subdir".toList], rfl⟩
  exact ⟨n, failures, hcheck, heq.mpr (hspelt [.here] hlead).1⟩

/-- A file that is given with a dot before its path and without one counts twice. -/
theorem check_counts_twice :
    let t : FileTree := { nodes := [(["main.vox"], .file "debug\n".toUTF8)] }
    ∃ f, f.kind = .forbiddenWord ∧
      check t [] [⟨"./main.vox"⟩, ⟨"main.vox"⟩] = .report (.checked 2 [f, f]) := by
  intro t
  have hfailure : ∀ p : TreePath, t.read [] p = .ok "debug\n" → p.display = "main.vox" →
      failure? t [] defaultTranslator p = some
        (.ofDocument "main.vox" "debug\n".toList (.forbidden ⟨"debug", 1, 1, "main.vox"⟩)) := by
    intro p hread hdisplay
    rw [failure?_eq_some_iff, ← hdisplay]
    exact .document hread (translate_debug p.display)
  refine ⟨.ofDocument "main.vox" "debug\n".toList (.forbidden ⟨"debug", 1, 1, "main.vox"⟩), rfl, ?_⟩
  have hfiles : (Selection.ofRoots t [] ⟨[voxPattern], []⟩
      [⟨"./main.vox"⟩, ⟨"main.vox"⟩]).files = [⟨"./main.vox"⟩, ⟨"main.vox"⟩] := by decide +kernel
  have hmissing : (Selection.ofRoots t [] ⟨[voxPattern], []⟩
      [⟨"./main.vox"⟩, ⟨"main.vox"⟩]).missing = [] := by decide +kernel
  have hdotted := hfailure ⟨"./main.vox"⟩ (by decide +kernel) rfl
  have hplain := hfailure ⟨"main.vox"⟩ (by decide +kernel) rfl
  rw [check, load_default rfl]
  simp only [patterns_default, List.isEmpty_cons, Bool.false_eq_true, if_false, failures, hfiles,
    hmissing, List.filterMap_cons_some hdotted, List.filterMap_cons_some hplain,
    List.filterMap_nil]
  rw [arrange, List.map_nil, List.nil_append, List.mergeSort_of_pairwise]
  · rfl
  · simp [Failure.le]

end SpanishLua.Proofs.Tallying
