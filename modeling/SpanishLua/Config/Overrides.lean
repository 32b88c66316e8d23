namespace SpanishLua

/-- Values under keys. The keys ascend, so that no key occurs twice and equal contents are equal. -/
structure Overrides (α : Type) where
  entries : List (String × α)
  ascending : entries.Pairwise fun a b => a.1 < b.1

namespace Overrides

variable {α : Type}

/-- No values. -/
def empty : Overrides α where
  entries := []
  ascending := .nil

instance : Inhabited (Overrides α) where
  default := empty

/-- Puts a value under a key into its place among ascending keys. -/
def place (key : String) (value : α) : List (String × α) → List (String × α)
  | [] => [(key, value)]
  | entry :: rest =>
      if key < entry.1 then (key, value) :: entry :: rest
      else if key = entry.1 then (key, value) :: rest
      else entry :: place key value rest

theorem mem_place {key : String} {value : α} {entries : List (String × α)} {entry : String × α}
    (h : entry ∈ place key value entries) : entry.1 = key ∨ entry ∈ entries := by
  induction entries with
  | nil =>
      rw [place, List.mem_singleton] at h
      exact .inl (by rw [h])
  | cons first rest ih =>
      rw [place] at h
      split at h
      · rcases List.mem_cons.1 h with h | h
        · exact .inl (by rw [h])
        · exact .inr h
      · split at h
        · rcases List.mem_cons.1 h with h | h
          · exact .inl (by rw [h])
          · exact .inr (List.mem_cons_of_mem _ h)
        · rcases List.mem_cons.1 h with h | h
          · exact .inr (h ▸ List.mem_cons_self)
          · exact (ih h).imp id (List.mem_cons_of_mem _)

theorem pairwise_place (key : String) (value : α) {entries : List (String × α)}
    (h : entries.Pairwise fun a b => a.1 < b.1) :
    (place key value entries).Pairwise fun a b => a.1 < b.1 := by
  induction entries with
  | nil => exact List.pairwise_singleton _ _
  | cons first rest ih =>
      rw [List.pairwise_cons] at h
      rw [place]
      split
      · rename_i hlt
        refine List.pairwise_cons.2 ⟨?_, List.pairwise_cons.2 h⟩
        intro entry hentry
        rcases List.mem_cons.1 hentry with rfl | hentry
        · exact hlt
        · exact String.lt_trans hlt (h.1 entry hentry)
      · split
        · rename_i heq
          exact List.pairwise_cons.2 ⟨fun entry hentry => heq ▸ h.1 entry hentry, h.2⟩
        · rename_i hlt hne
          refine List.pairwise_cons.2 ⟨fun entry hentry => ?_, ih h.2⟩
          rcases mem_place hentry with hkey | hentry
          · rw [hkey]
            rcases Std.lt_trichotomy key first.1 with hlt' | heq | hgt
            · exact absurd hlt' hlt
            · exact absurd heq hne
            · exact hgt
          · exact h.1 entry hentry

/-- Puts a value under a key, in place of the one that was there. -/
def insert (o : Overrides α) (key : String) (value : α) : Overrides α where
  entries := place key value o.entries
  ascending := pairwise_place key value o.ascending

/-- The values under keys of a list. Of values under one key the last one counts. -/
def ofList (entries : List (String × α)) : Overrides α :=
  entries.foldl (fun o (key, value) => o.insert key value) empty

end Overrides

end SpanishLua
