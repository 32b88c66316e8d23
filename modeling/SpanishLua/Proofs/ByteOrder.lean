import Mathlib.Data.List.Basic

namespace SpanishLua.Proofs.ByteOrder

/-- The bytes of a text in UTF-8. -/
def bytes (s : String) : List UInt8 :=
  s.toByteArray.data.toList

theorem bytes_eq (s : String) : bytes s = s.toList.flatMap String.utf8EncodeChar := by
  rw [bytes, ← String.utf8Encode_toList, List.utf8Encode, List.toList_data_toByteArray]

theorem ofNat_cons_lt {a b : Nat} (hb : b < 256) {x y : List UInt8} (h : a < b ∨ a = b ∧ x < y) :
    UInt8.ofNat a :: x < UInt8.ofNat b :: y := by
  rw [List.cons_lt_cons_iff]
  rcases h with hlt | ⟨rfl, htail⟩
  · refine .inl ((UInt8.ofNat_lt_iff_lt ?_ ?_).mpr hlt)
    · exact Nat.lt_trans hlt hb
    · exact hb
  · exact .inr ⟨rfl, htail⟩

section Encodings

variable {m n : Nat} (hlt : m < n) (x y : List UInt8)
include hlt

theorem one_more_lt (hlead : m / 64 = n / 64) :
    UInt8.ofNat (m % 64 + 128) :: x < UInt8.ofNat (n % 64 + 128) :: y :=
  ofNat_cons_lt (by omega) (.inl (by omega))

theorem two_more_lt (hlead : m / 4096 = n / 4096) :
    UInt8.ofNat (m / 64 % 64 + 128) :: UInt8.ofNat (m % 64 + 128) :: x <
      UInt8.ofNat (n / 64 % 64 + 128) :: UInt8.ofNat (n % 64 + 128) :: y := by
  refine ofNat_cons_lt (by omega) ?_
  rcases Nat.lt_or_ge (m / 64) (n / 64) with hnext | hnext
  · exact .inl (by omega)
  · exact .inr ⟨by omega, one_more_lt hlt x y (by omega)⟩

theorem three_more_lt (hlead : m / 262144 = n / 262144) :
    UInt8.ofNat (m / 4096 % 64 + 128) :: UInt8.ofNat (m / 64 % 64 + 128) ::
        UInt8.ofNat (m % 64 + 128) :: x <
      UInt8.ofNat (n / 4096 % 64 + 128) :: UInt8.ofNat (n / 64 % 64 + 128) ::
        UInt8.ofNat (n % 64 + 128) :: y := by
  refine ofNat_cons_lt (by omega) ?_
  rcases Nat.lt_or_ge (m / 4096) (n / 4096) with hnext | hnext
  · exact .inl (by omega)
  · exact .inr ⟨by omega, two_more_lt hlt x y (by omega)⟩

end Encodings

theorem utf8EncodeChar_append_lt {c d : Char} (h : c < d) (x y : List UInt8) :
    String.utf8EncodeChar c ++ x < String.utf8EncodeChar d ++ y := by
  have hlt : c.val.toNat < d.val.toNat := h
  have hmax : d.val.toNat < 0x110000 := by
    rcases d.valid with hlow | hhigh
    · exact Nat.lt_trans hlow (by decide)
    · exact hhigh.2
  simp only [String.utf8EncodeChar]
  generalize c.val.toNat = m at hlt
  generalize d.val.toNat = n at hlt hmax
  -- a longer encoding starts with a greater byte; of two equally long ones the first bytes that
  -- differ decide
  by_cases hn : n ≤ 0x7F
  · rw [if_pos (by omega), if_pos hn]
    exact ofNat_cons_lt (by omega) (.inl hlt)
  rw [if_neg hn]
  by_cases hm : m ≤ 0x7F
  · rw [if_pos hm]
    split_ifs <;> exact ofNat_cons_lt (by omega) (.inl (by omega))
  rw [if_neg hm]
  by_cases hn : n ≤ 0x7FF
  · rw [if_pos (by omega), if_pos hn]
    refine ofNat_cons_lt (by omega) ?_
    rcases Nat.lt_or_ge (m / 64) (n / 64) with hnext | hnext
    · exact .inl (by omega)
    · exact .inr ⟨by omega, one_more_lt hlt x y (by omega)⟩
  rw [if_neg hn]
  by_cases hm : m ≤ 0x7FF
  · rw [if_pos hm]
    split_ifs <;> exact ofNat_cons_lt (by omega) (.inl (by omega))
  rw [if_neg hm]
  by_cases hn : n ≤ 0xFFFF
  · rw [if_pos (by omega), if_pos hn]
    refine ofNat_cons_lt (by omega) ?_
    rcases Nat.lt_or_ge (m / 4096) (n / 4096) with hnext | hnext
    · exact .inl (by omega)
    · exact .inr ⟨by omega, two_more_lt hlt x y (by omega)⟩
  rw [if_neg hn]
  by_cases hm : m ≤ 0xFFFF
  · rw [if_pos hm]
    exact ofNat_cons_lt (by omega) (.inl (by omega))
  rw [if_neg hm]
  refine ofNat_cons_lt (by omega) ?_
  rcases Nat.lt_or_ge (m / 262144) (n / 262144) with hnext | hnext
  · exact .inl (by omega)
  · exact .inr ⟨by omega, three_more_lt hlt x y (by omega)⟩

theorem flatMap_utf8EncodeChar_lt {s t : List Char} (h : s < t) :
    s.flatMap String.utf8EncodeChar < t.flatMap String.utf8EncodeChar := by
  induction s generalizing t with
  | nil =>
      rcases t with _ | ⟨d, t⟩
      · simp at h
      · obtain ⟨b, bs, hbytes⟩ := List.exists_cons_of_ne_nil (String.utf8EncodeChar_ne_nil (c := d))
        rw [List.flatMap_nil, List.flatMap_cons, hbytes, List.cons_append]
        exact List.nil_lt_cons _ _
  | cons c s ih =>
      rcases t with _ | ⟨d, t⟩
      · simp at h
      · rw [List.flatMap_cons, List.flatMap_cons]
        rcases List.cons_lt_cons_iff.mp h with hlt | ⟨rfl, htail⟩
        · exact utf8EncodeChar_append_lt hlt _ _
        · exact List.append_left_lt (ih htail)

theorem bytes_lt_bytes {s t : String} (h : s < t) : bytes s < bytes t := by
  rw [bytes_eq, bytes_eq]
  exact flatMap_utf8EncodeChar_lt (String.lt_iff.mp h)

end SpanishLua.Proofs.ByteOrder
