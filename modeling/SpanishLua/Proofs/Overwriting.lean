import SpanishLua.Proofs.Commands
import SpanishLua.Proofs.Loading

namespace SpanishLua.Proofs.Overwriting

open SpanishLua.Files
open SpanishLua.Text
open SpanishLua.Command
open SpanishLua.Proofs.Documents
open SpanishLua.Proofs.Trees
open SpanishLua.Proofs.Commands
open SpanishLua.Proofs.Loading
open SpanishLua.Proofs.Walking

section Extension

theorem dropLast_splitOn_append {separator : Char} {s piece : List Char} (h : separator ∉ piece) :
    (splitOn separator (s ++ piece)).dropLast = (splitOn separator s).dropLast := by
  rcases splitOn_last separator s with ⟨hs, hsplit⟩ | ⟨start, last, rfl, hlast, hsplit⟩
  · rw [hsplit, splitOn_of_notMem (by simp [hs, h])]
    rfl
  · have hpiece : separator ∉ last ++ piece := by simp [hlast, h]
    rw [hsplit, List.append_assoc, List.cons_append, splitOn_append_separator,
      splitOn_of_notMem hpiece, List.dropLast_concat, List.dropLast_concat]

theorem suffix_of_getLast?_splitOn {separator : Char} {s piece : List Char}
    (h : (splitOn separator s).getLast? = some piece) : piece <:+ s ∧ separator ∉ piece := by
  rcases splitOn_last separator s with ⟨hs, hsplit⟩ | ⟨start, last, rfl, hlast, hsplit⟩
  · obtain rfl : s = piece := by simpa [hsplit] using h
    exact ⟨List.suffix_rfl, hs⟩
  · obtain rfl : last = piece := by simpa [hsplit] using h
    exact ⟨⟨start ++ [separator], by simp⟩, hlast⟩

theorem exists_of_fileName? {p : TreePath} {name : List Char} (h : p.fileName? = some name) :
    ∃ start, p.text.toList = start ++ name ∧ '/' ∉ name := by
  have hlast : (splitOn '/' p.text.toList).getLast? = some name := by
    rw [TreePath.fileName?] at h
    split at h
    · simp at h
    · simp at h
    · simp at h
    · simp at h
    · exact h
  obtain ⟨⟨start, hstart⟩, hslash⟩ := suffix_of_getLast?_splitOn hlast
  exact ⟨start, hstart.symm, hslash⟩

theorem subset_of_splitName (name : List Char) : (TreePath.splitName name).1 ⊆ name := by
  rw [TreePath.splitName]
  split
  · exact List.Subset.refl name
  · rename_i before hbefore
    intro c hc
    have hmem := (List.dropLast_subset _) hc
    exact List.mem_reverse.mp ((List.dropWhile_sublist _).subset (List.mem_reverse.mp hmem))

theorem suffix_of_splitName {name old : List Char} (h : (TreePath.splitName name).2 = some old) :
    old <:+ name := by
  rw [TreePath.splitName] at h
  split at h
  · simp at h
  · obtain rfl := Option.some.inj h
    rw [← List.reverse_prefix, List.reverse_reverse]
    exact List.takeWhile_prefix _

theorem take_append_of_length (start piece : List Char) :
    (start ++ piece).take ((start ++ piece).length - piece.length) = start := by
  simp

theorem dropLast_splitOn_putExtension {s extension : List Char} (h : '/' ∉ extension) :
    (splitOn '/' (TreePath.putExtension s extension)).dropLast = (splitOn '/' s).dropLast := by
  rw [TreePath.putExtension]
  cases hname : TreePath.fileName? ⟨String.ofList s⟩ with
  | none => rfl
  | some name =>
      obtain ⟨start, hstart, hslash⟩ := exists_of_fileName? hname
      obtain rfl : s = start ++ name := by simpa using hstart
      have hstem : '/' ∉ (TreePath.splitName name).1 :=
        fun hmem => hslash (subset_of_splitName name hmem)
      simp only [take_append_of_length]
      rw [List.append_assoc, dropLast_splitOn_append hslash, dropLast_splitOn_append]
      split <;> simp [hstem, h]

theorem dropLast_splitOn_withExtension? {p q : TreePath} {extension : String}
    (h : p.withExtension? extension = some q) :
    (splitOn '/' q.text.toList).dropLast = (splitOn '/' p.text.toList).dropLast := by
  rw [TreePath.withExtension?] at h
  split at h
  · simp at h
  · rename_i hextension
    obtain rfl := Option.some.inj h
    rw [String.toList_ofList, dropLast_splitOn_putExtension (by simpa using hextension)]
    split
    · rename_i old hold
      obtain ⟨name, hname, hsplit⟩ := Option.bind_eq_some_iff.mp hold
      obtain ⟨start, hstart, hslash⟩ := exists_of_fileName? hname
      obtain ⟨stem, rfl⟩ := suffix_of_splitName hsplit
      have hold : '/' ∉ old := fun hmem => hslash (List.mem_append_right stem hmem)
      rw [hstart, ← List.append_assoc, take_append_of_length, dropLast_splitOn_append hold]
    · rfl

end Extension

section Place

variable {t : FileTree} {cwd l directory : Location} {p q : TreePath}

theorem eq_of_leads {x y : String} (hx : Leads t directory x l) (hy : Leads t directory y l)
    (hl : t.get? l ≠ some .directory) : x = y := by
  cases hx with
  | empty hdirectory => exact absurd hdirectory hl
  | here hsearch => exact absurd hsearch.isDirectory hl
  | parent _ =>
      generalize hplace : directory.dropLast = place at hy hl
      cases hy with
      | empty hdirectory => exact absurd hdirectory hl
      | here hsearch => exact absurd hsearch.isDirectory hl
      | parent _ => rfl
      | child =>
          have hlength := congrArg List.length hplace
          simp at hlength
  | @child x _ _ _ =>
      generalize hplace : directory ++ [x] = place at hy hl
      cases hy with
      | empty hdirectory => exact absurd hdirectory hl
      | here hsearch => exact absurd hsearch.isDirectory hl
      | parent _ =>
          have hlength := congrArg List.length hplace
          simp at hlength
          omega
      | child => simpa using hplace

theorem exists_pieces (p : TreePath) : ∃ above name, FileTree.pieces p = above ++ [name] := by
  refine (List.eq_nil_or_concat' (FileTree.pieces p)).resolve_left ?_
  simp [FileTree.pieces, splitOn_ne_nil]

theorem leads_of_follows (hlinkless : Linkless t) {n : Nat} {name : String}
    (h : Follows t n directory [name] l) : Leads t directory name l := by
  cases h with
  | step hleads hdone =>
      cases hdone
      exact hleads
  | link hlink => exact absurd hlink.link (hlinkless _ _)

/-- Without links, two paths that agree but for their last pieces do not lead to one file, unless
the last pieces agree too. -/
theorem same_of_arrives (hlinkless : Linkless t)
    (hdirectory : (splitOn '/' q.text.toList).dropLast = (splitOn '/' p.text.toList).dropLast)
    (hq : Arrives t cwd q l) (hp : Arrives t cwd p l) (hl : t.get? l ≠ some .directory) :
    q.same p = true := by
  obtain ⟨above, name, hqpieces⟩ := exists_pieces q
  obtain ⟨above', name', hppieces⟩ := exists_pieces p
  have hstart : FileTree.start cwd p = FileTree.start cwd q := by
    simp only [FileTree.start, beq_iff_eq, head?_eq_slash_iff, hdirectory]
  have hpieces : (FileTree.pieces q).dropLast = (FileTree.pieces p).dropLast := by
    rw [FileTree.pieces, FileTree.pieces, ← List.map_dropLast, ← List.map_dropLast, hdirectory]
  obtain rfl : above = above' := by simpa [hqpieces, hppieces] using hpieces
  have hqfollows := hq.follows
  have hpfollows := hp.follows
  rw [hqpieces] at hqfollows
  rw [hppieces, hstart] at hpfollows
  obtain ⟨_, place, hqabove, hqlast⟩ := hqfollows.split
  obtain ⟨_, place', hpabove, hplast⟩ := hpfollows.split
  obtain rfl := hqabove.unique hpabove
  obtain rfl : name = name' :=
    eq_of_leads (leads_of_follows hlinkless hqlast) (leads_of_follows hlinkless hplast) hl
  have hsplit : splitOn '/' q.text.toList = splitOn '/' p.text.toList := by
    have hmap := hqpieces.trans hppieces.symm
    rw [FileTree.pieces, FileTree.pieces] at hmap
    exact List.map_injective_iff.mpr (fun _ _ => String.ofList_inj.mp) hmap
  simp [TreePath.same, TreePath.components, hsplit]

end Place

/-- A translation puts other bytes in the place of those of its own input: it goes to a path that
has other components and leads to the same place. -/
def Overwrites (t : FileTree) (cwd : Location) (input : TreePath) (destination : Destination) :
    Prop :=
  ∃ output l lua source, Produces t cwd input destination output l lua ∧
    t.resolve cwd input = .ok l ∧ t.get? l = some (.file source) ∧
      (t.cut l (encoded lua)).2 ≠ source

section Source

variable {t : FileTree} {cwd l : Location} {input output : TreePath} {destination : Destination}
  {lua : List Char}

theorem produces_unique {output' : TreePath} {l' : Location} {lua' : List Char}
    (h : Produces t cwd input destination output l lua)
    (h' : Produces t cwd input destination output' l' lua') : l = l' ∧ lua = lua' := by
  obtain ⟨context, source, hcontext, houtput, hsource, hlua⟩ := h.translated
  obtain ⟨context', source', hcontext', houtput', hsource', hlua'⟩ := h'.translated
  obtain rfl := Except.ok.inj (hcontext.symm.trans hcontext')
  obtain rfl := Option.some.inj (houtput.symm.trans houtput')
  obtain rfl := Except.ok.inj (hsource.symm.trans hsource')
  exact ⟨Except.ok.inj (h.target.symm.trans h'.target), Except.ok.inj (hlua.symm.trans hlua')⟩

theorem eq_file_of_produces (hlinkless : Linkless t)
    (h : Produces t cwd input destination output l lua) (hresolve : t.resolve cwd input = .ok l) :
    destination = .file output := by
  obtain ⟨context, source, -, houtput, -⟩ := h.translated
  cases destination with
  | stdout => simp [outputPath?] at houtput
  | file path => rw [Option.some.inj houtput]
  | beside =>
      have htarget := target_eq_ok_iff.mp h.target
      have hsame := same_of_arrives hlinkless (dropLast_splitOn_withExtension? houtput)
        htarget.arrives (resolve_eq_ok_iff.mp hresolve).1 htarget.notDirectory
      simp [h.apart] at hsame

theorem overwrites_iff_of_produces (h : Produces t cwd input destination output l lua)
    {m : Location} {source : ByteArray} (hm : t.resolve cwd input = .ok m)
    (hsource : t.get? m = some (.file source)) :
    Overwrites t cwd input destination ↔ m = l ∧ (t.cut l (encoded lua)).2 ≠ source := by
  constructor
  · rintro ⟨output', l', lua', source', h', hl', hsource', hne⟩
    obtain ⟨rfl, rfl⟩ := produces_unique h h'
    obtain rfl : m = l := Except.ok.inj (hm.symm.trans hl')
    obtain rfl := Node.file.inj (Option.some.inj (hsource.symm.trans hsource'))
    exact ⟨rfl, hne⟩
  · rintro ⟨rfl, hne⟩
    exact ⟨output, m, lua, source, h, hm, hsource, hne⟩

theorem node?_of_produces (h : Produces t cwd input destination output l lua)
    {m : Location} {source : ByteArray} (hm : Arrives t cwd input m)
    (hsource : t.get? m = some (.file source)) :
    (Command.translate t cwd input destination).2.node? cwd input =
      some (.file (if m = l then (t.cut l (encoded lua)).2 else source)) := by
  have htarget := target_eq_ok_iff.mp h.target
  rw [h.translate_eq, FileTree.store]
  split
  · rename_i content hdevice
    have hne : m ≠ l := by
      rintro rfl
      simp [hsource] at hdevice
    exact node?_eq_some_iff.mpr ⟨m, hm, by rw [if_neg hne, hsource]⟩
  · refine node?_eq_some_iff.mpr ⟨m, htarget.arrives_put _ hm, ?_⟩
    by_cases hplace : m = l
    · rw [if_pos hplace, hplace, get?_put_self htarget.ne_nil]
    · rw [if_neg hplace, get?_put_of_ne hplace, hsource]

end Source

/-- A translation leaves the file that it reads as it was, unless it puts other bytes there by
another path. Without links only a path that is given can lead there. -/
theorem translate_keeps_source_iff (t : FileTree) (cwd : Location) (input : TreePath)
    (destination : Destination) :
    ((Command.translate t cwd input destination).2.node? cwd input = t.node? cwd input ↔
        ¬ Overwrites t cwd input destination) ∧
      (Linkless t → Overwrites t cwd input destination →
        ∃ output, destination = .file output ∧ output.same input = false) := by
  constructor
  · rcases translate_cases t cwd input destination with ⟨output, l, lua, h⟩ | ⟨hsame, hstdout⟩
    · obtain ⟨m, source, hm, hsource⟩ := isFile_iff.mp h.isFile
      rw [node?_of_produces h hm hsource, node?_eq_some_iff.mpr ⟨m, hm, hsource⟩,
        overwrites_iff_of_produces h (resolve_eq_ok_iff.mpr ⟨hm, by simp [hsource]⟩) hsource]
      by_cases hplace : m = l
      · simp [hplace]
      · simp [hplace]
    · refine iff_of_true (by rw [hsame]) ?_
      rintro ⟨output, l, lua, source, h, hm, hsource, hne⟩
      have harrives := (resolve_eq_ok_iff.mp hm).1
      have hkept := node?_of_produces h harrives hsource
      rw [hsame, node?_eq_some_iff.mpr ⟨l, harrives, hsource⟩, if_pos rfl] at hkept
      exact hne (Node.file.inj (Option.some.inj hkept)).symm
  · rintro hlinkless ⟨output, l, lua, source, h, hm, -⟩
    exact ⟨output, eq_file_of_produces hlinkless h hm, h.apart⟩

/-- A dot before the path is enough to overwrite the input. -/
theorem translate_overwrites_main :
    let t : FileTree := { nodes := [(["main.vox"], .file "imprimir(1)\n".toUTF8)] }
    let after := (Command.translate t [] ⟨"main.vox"⟩ (.file ⟨"./main.vox"⟩)).2
    t.read [] ⟨"main.vox"⟩ = .ok "imprimir(1)\n" ∧
      after.read [] ⟨"main.vox"⟩ = .ok "print(1)\n" := by
  intro t after
  have hread : t.read [] ⟨"main.vox"⟩ = .ok "imprimir(1)\n" := by decide +kernel
  have hproduces : Produces t [] ⟨"main.vox"⟩ (.file ⟨"./main.vox"⟩) ⟨"./main.vox"⟩ ["main.vox"]
      "print(1)\n".toList :=
    ⟨by decide +kernel, ⟨_, _, load_default rfl, rfl, hread, translate_imprimir "main.vox"⟩,
      by decide +kernel, by decide +kernel⟩
  refine ⟨hread, ?_⟩
  have hafter : after = _ := congrArg Prod.snd hproduces.translate_eq
  rw [hafter]
  decide +kernel

end SpanishLua.Proofs.Overwriting
