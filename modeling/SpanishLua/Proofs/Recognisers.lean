import SpanishLua.Code.Pass
import SpanishLua.Proofs.Characters
import SpanishLua.Proofs.Scanning

namespace SpanishLua.Proofs.Recognisers

open SpanishLua.Code
open SpanishLua.Text
open SpanishLua.Proofs.Characters
open SpanishLua.Proofs.Scanning

/-- A non-empty text of word characters. -/
def WordRun (s : List Char) : Prop :=
  s ≠ [] ∧ ∀ c ∈ s, isWord c = true

instance (s : List Char) : Decidable (WordRun s) :=
  decidable_of_iff (s ≠ [] ∧ s.all isWord = true) (by simp [WordRun])

theorem headIsWord_append {s t : List Char} (hs : s ≠ []) :
    headIsWord (s ++ t) = headIsWord s := by
  obtain ⟨c, s, rfl⟩ := List.exists_cons_of_ne_nil hs
  rfl

theorem WordRun.reverse {s : List Char} (h : WordRun s) : WordRun s.reverse :=
  ⟨by simpa using h.1, fun c hc => h.2 c (by simpa using hc)⟩

theorem WordRun.append {s t : List Char} (hs : WordRun s) (ht : WordRun t) : WordRun (s ++ t) := by
  refine ⟨by simp [hs.1], fun c hc => ?_⟩
  rcases List.mem_append.mp hc with hc | hc
  · exact hs.2 c hc
  · exact ht.2 c hc

theorem WordRun.headIsWord_append {s : List Char} (h : WordRun s) (t : List Char) :
    headIsWord (s ++ t) = true := by
  obtain ⟨c, s, rfl⟩ := List.exists_cons_of_ne_nil h.1
  exact h.2 c (by simp)

theorem WordRun.head {s : List Char} (h : WordRun s) : headIsWord s = true := by
  simpa using h.headIsWord_append []

theorem headIsWord_of_gap {gap rest : List Char} {c : Char} (hgap : ∀ c ∈ gap, isBlank c = true)
    (hc : isWord c = false) : headIsWord (gap ++ c :: rest) = false := by
  rcases gap with _ | ⟨d, gap⟩
  · exact hc
  · exact isWord_of_isBlank (hgap d (by simp))

theorem takeWhile_of_head {s : List Char} (h : headIsWord s = false) : s.takeWhile isWord = [] := by
  rcases s with _ | ⟨c, s⟩
  · rfl
  · have hc : isWord c = false := h
    simp [hc]

theorem WordRun.takeWhile_append {s t : List Char} (hs : WordRun s) (ht : headIsWord t = false) :
    (s ++ t).takeWhile isWord = s := by
  rw [List.takeWhile_append_of_pos hs.2, takeWhile_of_head ht, List.append_nil]

theorem headIsWord_dropWhile (s : List Char) : headIsWord (s.dropWhile isWord) = false := by
  induction s with
  | nil => rfl
  | cons c s ih =>
      by_cases hc : isWord c = true
      · simpa [hc] using ih
      · simp [hc, headIsWord]

theorem atBoundary_of_head {before after : List Char} (h : headIsWord after = true) :
    atBoundary before after = true ↔ headIsWord before = false := by
  simp [atBoundary, h]

theorem endsAt_of_wordRun {before word rest : List Char} (h : WordRun word) :
    endsAt before word rest = true ↔ headIsWord rest = false := by
  simp [endsAt, atBoundary, h.reverse.headIsWord_append]

section Words

variable {words : List (List Char)} {before after : List Char} {hit : Hit}

theorem exists_of_wholeWord {text : List Char → List Char}
    (h : (if atBoundary before after then
      firstWord? words after fun word rest =>
        if endsAt before word rest then some { taken := word, text := text word } else none
      else none) = some hit) :
    ∃ word ∈ words, ∃ rest, after = word ++ rest ∧ atBoundary before after = true ∧
      endsAt before word rest = true ∧ hit = ⟨word, text word⟩ := by
  split at h
  · rename_i hboundary
    obtain ⟨word, hword, rest, hafter, haccept⟩ := exists_of_firstWord? h
    split at haccept
    · rename_i hends
      exact ⟨word, hword, rest, hafter, hboundary, hends, (Option.some.inj haccept).symm⟩
    · simp at haccept
  · simp at h

end Words

theorem wordRun_accessor : WordRun Service.accessor := by
  decide

theorem exists_of_lookup {before after : List Char} {hit : Hit}
    (h : Service.lookup before after = some hit) :
    ∃ rest, after = Service.accessor ++ rest ∧ atBoundary before after = true ∧
      endsAt before Service.accessor rest = true ∧
      hit = ⟨Service.accessor,
        (if inMemberPosition before then "GetService" else "game:GetService").toList⟩ := by
  obtain ⟨word, hword, rest, hclaim⟩ := exists_of_wholeWord h
  obtain rfl := List.mem_singleton.mp hword
  exact ⟨rest, hclaim⟩

theorem exists_of_constant {constants : Vocabulary} {before after : List Char} {hit : Hit}
    (h : Enumeration.constant constants before after = some hit) :
    ∃ word ∈ constants.words, ∃ rest, after = word ++ rest ∧ atBoundary before after = true ∧
      endsAt before word rest = true ∧
      hit = ⟨word, if inMemberPosition before then word
        else (constants.target? word).getD word⟩ :=
  exists_of_wholeWord h

theorem keyword_eq_constant : Keyword.keyword = Enumeration.constant :=
  rfl

theorem exists_of_method {methods : Vocabulary} {before after : List Char} {hit : Hit}
    (h : Call.method methods before after = some hit) :
    ∃ blanks, (∀ c ∈ blanks, isBlank c = true) ∧ ∃ word ∈ methods.words,
      ∃ gap, (∀ c ∈ gap, isBlank c = true) ∧ ∃ rest,
        hit.taken = ':' :: blanks ++ word ++ (gap ++ ['(']) ∧ after = hit.taken ++ rest ∧
        hit.text = match methods.target? word with
          | some target => ':' :: target ++ ['(']
          | none => hit.taken := by
  unfold Call.method at h
  split at h
  · rename_i rest
    obtain ⟨word, hword, tail, hdrop, haccept⟩ := exists_of_firstWord? h
    obtain ⟨⟨paren, rest'⟩, hopening, hhit⟩ := Option.map_eq_some_iff.mp haccept
    obtain ⟨gap, hgap, rfl, rfl⟩ := opening?_eq_some_iff.mp hopening
    subst hhit
    refine ⟨rest.takeWhile isBlank, fun c hc => List.mem_takeWhile_imp hc, word, hword, gap, hgap,
      rest', rfl, ?_, rfl⟩
    have hrest := (List.takeWhile_append_dropWhile (p := isBlank) (l := rest)).symm
    rw [hdrop] at hrest
    simp only [List.append_assoc, List.cons_append, List.nil_append]
    exact congrArg _ hrest
  · simp at h

theorem exists_of_instanceFactory {before after : List Char} {hit : Hit}
    (h : Call.instanceFactory before after = some hit) :
    atBoundary before after = true ∧ ∃ gap, (∀ c ∈ gap, isBlank c = true) ∧ ∃ rest,
      after = "instancia_nueva".toList ++ (gap ++ '(' :: rest) ∧
      hit = ⟨"instancia_nueva".toList ++ (gap ++ ['(']), "Instance.new(".toList⟩ := by
  rw [Call.instanceFactory] at h
  split at h
  · rename_i hboundary
    obtain ⟨word, hword, tail, hafter, haccept⟩ := exists_of_firstWord? h
    obtain rfl := List.mem_singleton.mp hword
    obtain ⟨⟨paren, rest⟩, hopening, hhit⟩ := Option.map_eq_some_iff.mp haccept
    obtain ⟨gap, hgap, rfl, rfl⟩ := opening?_eq_some_iff.mp hopening
    exact ⟨hboundary, gap, hgap, rest, hafter, hhit.symm⟩
  · simp at h

theorem wordRun_instanceFactory : WordRun "instancia_nueva".toList := by
  decide

theorem wordRun_constructorEnding : WordRun constructorEnding := by
  decide

theorem wordRun_brightEnding : WordRun Enumeration.brightEnding := by
  decide

/-- A constructor is claimed where a word run ends in the constructor ending and a parenthesis
opens; the run then ends with the ending. -/
theorem constructor_eq_some_iff {types : Vocabulary} {before after : List Char} {hit : Hit} :
    Call.constructor types before after = some hit ↔
      headIsWord before = false ∧ ∃ name, WordRun name ∧ ∃ gap, (∀ c ∈ gap, isBlank c = true) ∧
        ∃ rest, after = name ++ constructorEnding ++ (gap ++ '(' :: rest) ∧
          hit = ⟨name ++ constructorEnding ++ (gap ++ ['(']),
            (types.target? name).getD name ++ ".new(".toList⟩ := by
  have hending := wordRun_constructorEnding
  constructor
  · intro h
    rw [Call.constructor] at h
    split at h
    · rename_i hboundary
      obtain ⟨name, hstem, hmap⟩ := Option.bind_eq_some_iff.mp h
      obtain ⟨⟨paren, rest⟩, hopening, hhit⟩ := Option.map_eq_some_iff.mp hmap
      obtain ⟨hne, hrun⟩ := stemOf?_eq_some_iff.mp hstem
      obtain ⟨gap, hgap, rfl, hdrop⟩ := opening?_eq_some_iff.mp hopening
      have hword : ∀ c ∈ wordRun after, isWord c = true := fun c hc => List.mem_takeWhile_imp hc
      have hname : WordRun name := ⟨hne, fun c hc => hword c (by simp [hrun, hc])⟩
      have hafter : after = wordRun after ++ after.drop (wordRun after).length :=
        (List.prefix_iff_eq_append.mp (List.takeWhile_prefix isWord)).symm
      rw [hdrop, hrun] at hafter
      rw [hrun] at hhit
      refine ⟨?_, name, hname, gap, hgap, rest, hafter, hhit.symm⟩
      rwa [atBoundary_of_head] at hboundary
      rw [hafter]
      exact (hname.append hending).headIsWord_append _
    · simp at h
  · rintro ⟨hbefore, name, hname, gap, hgap, rest, rfl, rfl⟩
    have hwhole := hname.append hending
    have hstop : headIsWord (gap ++ '(' :: rest) = false := headIsWord_of_gap hgap (by decide)
    have hrun : wordRun (name ++ constructorEnding ++ (gap ++ '(' :: rest)) =
        name ++ constructorEnding := hwhole.takeWhile_append hstop
    have hboundary : atBoundary before (name ++ constructorEnding ++ (gap ++ '(' :: rest)) = true :=
      (atBoundary_of_head (hwhole.headIsWord_append _)).mpr hbefore
    have hstem : stemOf? constructorEnding (name ++ constructorEnding) = some name :=
      stemOf?_eq_some_iff.mpr ⟨hname.1, rfl⟩
    have hopening : opening? (gap ++ '(' :: rest) = some (gap ++ ['('], rest) :=
      opening?_eq_some_iff.mpr ⟨gap, hgap, rfl, rfl⟩
    simp only [Call.constructor, hboundary, ↓reduceIte, hrun, hstem, Option.bind_some,
      List.drop_left, hopening, Option.map_some]

theorem exists_of_property {properties : Vocabulary} {before after : List Char} {hit : Hit}
    (h : Member.property properties before after = some hit) :
    ∃ word ∈ properties.words, ∃ rest, after = '.' :: word ++ rest ∧
      endsAt before word rest = true ∧ hit.taken = '.' :: word ∧
      (hit.text = hit.taken ∨
        ∃ target, properties.target? word = some target ∧ hit.text = '.' :: target) := by
  unfold Member.property at h
  split at h
  · obtain ⟨word, hword, rest, rfl, haccept⟩ := exists_of_firstWord? h
    split at haccept
    · rename_i hends
      obtain rfl := Option.some.inj haccept
      refine ⟨word, hword, rest, rfl, hends, rfl, ?_⟩
      dsimp only
      split
      · exact .inl rfl
      · exact .inl rfl
      · rename_i target htarget _
        exact .inr ⟨target, htarget, rfl⟩
    · simp at haccept
  · simp at h

theorem exists_of_mathFunction {functions : Vocabulary} {before after : List Char} {hit : Hit}
    (h : Member.mathFunction functions before after = some hit) :
    ∃ word ∈ functions.words, ∃ rest, after = Member.mathLibrary ++ word ++ rest ∧
      atBoundary before after = true ∧ endsAt before word rest = true ∧
      hit = ⟨Member.mathLibrary ++ word,
        Member.mathLibrary ++ (functions.target? word).getD word⟩ := by
  rw [Member.mathFunction] at h
  split at h
  · rename_i hboundary
    obtain ⟨tail, hprefix, hbind⟩ := Option.bind_eq_some_iff.mp h
    obtain rfl := isPrefixOf?_eq_some_iff.mp hprefix
    obtain ⟨word, hword, rest, rfl, haccept⟩ := exists_of_firstWord? hbind
    split at haccept
    · rename_i hends
      exact ⟨word, hword, rest, by simp, hboundary, hends, (Option.some.inj haccept).symm⟩
    · simp at haccept
  · simp at h

theorem exists_of_itemName? {s name : List Char} (h : Enumeration.itemName? s = some name) :
    name ≠ [] ∧ (∀ c ∈ name, Enumeration.isItemChar c = true) ∧
      ∃ rest, s = name ++ rest ∧ endsAt [] name rest = true := by
  unfold Enumeration.itemName? at h
  split at h
  · simp at h
  · rename_i c tail
    split at h
    · obtain ⟨shorter, hshorter, haccept⟩ := List.exists_of_findSome?_eq_some h
      dsimp only at haccept
      split at haccept
      · rename_i hends
        obtain rfl := Option.some.inj haccept
        refine ⟨by simp, fun d hd => ?_, (c :: tail).drop (shorter + 1), by simp, hends⟩
        have hlength : shorter < ((c :: tail).takeWhile Enumeration.isItemChar).length := by
          simpa using hshorter
        have htake : (c :: tail).take (shorter + 1) =
            ((c :: tail).takeWhile Enumeration.isItemChar).take (shorter + 1) := by
          obtain ⟨rest, hrest⟩ := List.takeWhile_prefix (l := c :: tail) Enumeration.isItemChar
          conv_lhs => rw [← hrest]
          rw [List.take_append_of_le_length (by omega)]
        rw [htake] at hd
        exact List.mem_takeWhile_imp (List.mem_of_mem_take hd)
      · simp at haccept
    · simp at h

theorem isWord_of_isItemChar {c : Char} (hc : c.toNat < 128 ∨ c.toNat = 0x212A)
    (h : Enumeration.isItemChar c = true) : isWord c = true := by
  rcases hc with hascii | hkelvin
  · exact forall_ascii (p := fun c => Enumeration.isItemChar c = true → isWord c = true)
      (by decide +kernel) hascii h
  · have hword : isWord (Char.ofNat 0x212A) = true := by decide +kernel
    rwa [← hkelvin, Char.ofNat_toNat] at hword

theorem exists_of_item {families members : Vocabulary} {before after : List Char} {hit : Hit}
    (h : Enumeration.item families members before after = some hit) :
    ∃ family ∈ families.words, ∃ member rest, after = family ++ '.' :: (member ++ rest) ∧
      Enumeration.itemName? (member ++ rest) = some member ∧ atBoundary before after = true ∧
      hit.taken = family ++ '.' :: member ∧
      (hit.text = hit.taken ∨
        ∃ familyTarget memberTarget, families.target? family = some familyTarget ∧
          members.target? hit.taken = some memberTarget ∧
          hit.text = familyTarget ++ '.' :: memberTarget) := by
  rw [Enumeration.item] at h
  split at h
  · rename_i hboundary
    obtain ⟨family, hfamily, tail, rfl, haccept⟩ := exists_of_firstWord? h
    split at haccept
    · rename_i tail'
      obtain ⟨member, hmember, hhit⟩ := Option.map_eq_some_iff.mp haccept
      obtain ⟨-, -, rest, rfl, -⟩ := exists_of_itemName? hmember
      subst hhit
      refine ⟨family, hfamily, member, rest, rfl, hmember, hboundary, rfl, ?_⟩
      dsimp only
      split
      · rename_i familyTarget memberTarget _ hfamilyTarget hmemberTarget
        exact .inr ⟨familyTarget, memberTarget, hfamilyTarget, hmemberTarget, rfl⟩
      · exact .inl rfl
    · simp at haccept
  · simp at h

theorem exists_of_bright {before after : List Char} {hit : Hit}
    (h : Enumeration.bright before after = some hit) :
    atBoundary before after = true ∧ ∃ colour, WordRun colour ∧ ∃ rest,
      after = colour ++ Enumeration.brightEnding ++ rest ∧ headIsWord rest = false ∧
      hit = ⟨colour ++ Enumeration.brightEnding,
        "BrickColor.new(\"Bright ".toList ++ colour ++ "\")".toList⟩ := by
  rw [Enumeration.bright] at h
  split at h
  · rename_i hboundary
    obtain ⟨colour, hstem, hhit⟩ := Option.map_eq_some_iff.mp h
    obtain ⟨hne, hrun⟩ := stemOf?_eq_some_iff.mp hstem
    have hword : ∀ c ∈ wordRun after, isWord c = true := fun c hc => List.mem_takeWhile_imp hc
    refine ⟨hboundary, colour, ⟨hne, fun c hc => hword c (by simp [hrun, hc])⟩,
      after.dropWhile isWord, ?_, ?_, ?_⟩
    · rw [← hrun, wordRun, List.takeWhile_append_dropWhile]
    · exact headIsWord_dropWhile after
    · rw [← hhit, hrun]
  · simp at h

theorem exists_of_elseIf {before after : List Char} {hit : Hit}
    (h : Keyword.elseIf before after = some hit) :
    atBoundary before after = true ∧ ∃ gap, gap ≠ [] ∧ (∀ c ∈ gap, isBlank c = true) ∧ ∃ rest,
      after = "sino".toList ++ gap ++ "si".toList ++ rest ∧
      endsAt before ("sino".toList ++ gap ++ "si".toList) rest = true ∧
      hit = ⟨"sino".toList ++ gap ++ "si".toList, "elseif".toList⟩ := by
  rw [Keyword.elseIf] at h
  split at h
  · rename_i hboundary
    obtain ⟨tail, hprefix, hbind⟩ := Option.bind_eq_some_iff.mp h
    obtain rfl := isPrefixOf?_eq_some_iff.mp hprefix
    dsimp only at hbind
    split at hbind
    · simp at hbind
    · rename_i hgap
      obtain ⟨rest, hsi, haccept⟩ := Option.bind_eq_some_iff.mp hbind
      have htail := isPrefixOf?_eq_some_iff.mp hsi
      split at haccept
      · rename_i hends
        refine ⟨hboundary, tail.takeWhile isBlank, by simpa using hgap,
          fun c hc => List.mem_takeWhile_imp hc, rest, ?_, hends, (Option.some.inj haccept).symm⟩
        conv_lhs => rw [← List.takeWhile_append_dropWhile (p := isBlank) (l := tail), htail]
        simp
      · simp at haccept
  · simp at h

theorem exists_of_globalFunction {functions : Vocabulary} {before after : List Char} {hit : Hit}
    (h : Keyword.globalFunction functions before after = some hit) :
    ∃ word ∈ functions.words, ∃ gap, (∀ c ∈ gap, isBlank c = true) ∧ ∃ rest,
      after = word ++ (gap ++ '(' :: rest) ∧ atBoundary before after = true ∧
      endsAt before word (gap ++ '(' :: rest) = true ∧
      hit = ⟨word ++ (gap ++ ['(']),
        (if inMemberPosition before then word else (functions.target? word).getD word) ++
          (gap ++ ['('])⟩ := by
  rw [Keyword.globalFunction] at h
  split at h
  · rename_i hboundary
    obtain ⟨word, hword, tail, rfl, haccept⟩ := exists_of_firstWord? h
    split at haccept
    · rename_i hends
      obtain ⟨⟨paren, rest⟩, hopening, hhit⟩ := Option.map_eq_some_iff.mp haccept
      obtain ⟨gap, hgap, rfl, rfl⟩ := opening?_eq_some_iff.mp hopening
      exact ⟨word, hword, gap, hgap, rest, rfl, hboundary, hends, hhit.symm⟩
    · simp at haccept
  · simp at h

theorem lookup_sound : Sound Service.lookup := by
  intro before after hit h
  obtain ⟨rest, rfl, -, -, rfl⟩ := exists_of_lookup h
  exact ⟨wordRun_accessor.1, List.prefix_append _ _⟩

theorem method_sound (methods : Vocabulary) : Sound (Call.method methods) := by
  intro before after hit h
  obtain ⟨blanks, -, word, -, gap, -, rest, htaken, rfl, -⟩ := exists_of_method h
  exact ⟨by simp [htaken], List.prefix_append _ _⟩

theorem constructor_sound (types : Vocabulary) : Sound (Call.constructor types) := by
  intro before after hit h
  obtain ⟨-, name, hname, gap, -, rest, rfl, rfl⟩ := constructor_eq_some_iff.mp h
  exact ⟨by simp, rest, by simp⟩

theorem instanceFactory_sound : Sound Call.instanceFactory := by
  intro before after hit h
  obtain ⟨-, gap, -, rest, rfl, rfl⟩ := exists_of_instanceFactory h
  exact ⟨by simp, rest, by simp⟩

theorem property_sound (properties : Vocabulary) : Sound (Member.property properties) := by
  intro before after hit h
  obtain ⟨word, -, rest, rfl, -, htaken, -⟩ := exists_of_property h
  exact ⟨by simp [htaken], rest, by simp [htaken]⟩

theorem mathFunction_sound (functions : Vocabulary) : Sound (Member.mathFunction functions) := by
  intro before after hit h
  obtain ⟨word, -, rest, rfl, -, -, rfl⟩ := exists_of_mathFunction h
  exact ⟨by simp [Member.mathLibrary], List.prefix_append _ _⟩

theorem item_sound (families members : Vocabulary) : Sound (Enumeration.item families members) := by
  intro before after hit h
  obtain ⟨family, -, member, rest, rfl, -, -, htaken, -⟩ := exists_of_item h
  exact ⟨by simp [htaken], rest, by simp [htaken]⟩

theorem constant_sound {constants : Vocabulary} (hwords : ∀ w ∈ constants.words, w ≠ []) :
    Sound (Enumeration.constant constants) := by
  intro before after hit h
  obtain ⟨word, hword, rest, rfl, -, -, rfl⟩ := exists_of_constant h
  exact ⟨hwords word hword, List.prefix_append _ _⟩

theorem bright_sound : Sound Enumeration.bright := by
  intro before after hit h
  obtain ⟨-, colour, hcolour, rest, rfl, -, rfl⟩ := exists_of_bright h
  exact ⟨by simp [hcolour.1], List.prefix_append _ _⟩

theorem elseIf_sound : Sound Keyword.elseIf := by
  intro before after hit h
  obtain ⟨-, gap, -, -, rest, rfl, -, rfl⟩ := exists_of_elseIf h
  exact ⟨by simp, List.prefix_append _ _⟩

theorem globalFunction_sound (functions : Vocabulary) :
    Sound (Keyword.globalFunction functions) := by
  intro before after hit h
  obtain ⟨word, -, gap, -, rest, rfl, -, -, rfl⟩ := exists_of_globalFunction h
  exact ⟨by simp, rest, by simp⟩

end SpanishLua.Proofs.Recognisers
