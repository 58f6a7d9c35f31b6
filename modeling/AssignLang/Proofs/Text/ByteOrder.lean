/-
# Texts in the order of their bytes

A character takes one to four bytes in UTF-8. The more bytes it takes the greater is
the first of them, and characters of equally many bytes have the digits of their code
points in base 64 in them, the highest first. So where the bytes of two texts differ
for the first time, they differ as the code points do in which the texts differ for the
first time; texts stand in one order by their bytes, by their code points and by their
characters.

Key definitions: `Text.bytes`, `Text.codes`.
Key theorems: `Text.encode_append_lt`, `Text.bytes_lt_iff`, `Text.codes_lt_iff`.
-/
namespace AssignLang
namespace Text

/-- The bytes of a text in UTF-8. -/
def bytes (text : String) : List UInt8 := text.toUTF8.data.toList

/-- The code points of a text. -/
def codes (text : String) : List Nat := text.toList.map Char.toNat

theorem bytes_eq (text : String) : bytes text = text.toList.flatMap String.utf8EncodeChar := by
  have htext : text.toByteArray = text.toList.utf8Encode := by
    rw [← String.toByteArray_ofList, String.ofList_toList]
  rw [bytes, String.toUTF8_eq_toByteArray, htext, List.utf8Encode, List.data_toByteArray]

theorem toNat_lt (c : Char) : c.toNat < 1114112 := by
  rcases c.valid with h | ⟨-, h⟩
  · exact Nat.lt_trans h (by decide)
  · exact h

/-- **A smaller character has smaller bytes**, whatever comes after them. -/
theorem encode_append_lt {c d : Char} (h : c < d) (u v : List UInt8) :
    String.utf8EncodeChar c ++ u < String.utf8EncodeChar d ++ v := by
  have hlt : c.val.toNat < d.val.toNat := h
  have hmax : d.val.toNat < 1114112 := toNat_lt d
  dsimp only [String.utf8EncodeChar]
  generalize c.val.toNat = m at hlt
  generalize d.val.toNat = n at hlt hmax
  have htwo : ∀ i : Nat, i / 4096 = i / 64 / 64 := fun i => (Nat.div_div_eq_div_mul i 64 64).symm
  have hthree : ∀ i : Nat, i / 262144 = i / 64 / 64 / 64 := fun i => by
    rw [Nat.div_div_eq_div_mul, Nat.div_div_eq_div_mul]
  -- One to four bytes on either side: the first bytes differ, or the digits are compared.
  repeat' split
  all_goals
    simp only [List.cons_append, List.nil_append, List.cons_lt_cons_iff, UInt8.lt_iff_toNat_lt,
      ← UInt8.toNat_inj, UInt8.toNat_ofNat', htwo, hthree]
    omega

theorem encode_ne_nil (c : Char) : String.utf8EncodeChar c ≠ [] := by
  dsimp only [String.utf8EncodeChar]
  repeat' split
  all_goals exact List.cons_ne_nil _ _

theorem flatMap_encode_lt : ∀ {cs ds : List Char}, cs < ds →
    cs.flatMap String.utf8EncodeChar < ds.flatMap String.utf8EncodeChar
  | _, [], h => absurd h (List.not_lt_nil _)
  | [], d :: ds, _ => by
    obtain ⟨b, bs, hb⟩ := List.exists_cons_of_ne_nil (encode_ne_nil d)
    rw [List.flatMap_cons, hb]
    exact List.nil_lt_cons b _
  | c :: cs, d :: ds, h => by
    rw [List.flatMap_cons, List.flatMap_cons]
    rcases List.cons_lt_cons_iff.mp h with hlt | ⟨rfl, hlt⟩
    · exact encode_append_lt hlt _ _
    · exact List.append_left_lt (flatMap_encode_lt hlt)

/-- What keeps the order of texts also shows it. -/
theorem lt_iff_of_lt {α : Type} [LT α] [Std.Asymm fun x y : α => x < y] {f : String → List α}
    (hf : ∀ {a b}, a < b → f a < f b) {a b : String} : f a < f b ↔ a < b := by
  refine ⟨fun h => ?_, hf⟩
  by_cases hab : a < b
  · exact hab
  · by_cases hba : b < a
    · exact absurd h (List.lt_asymm (hf hba))
    · obtain rfl : a = b := String.le_antisymm (String.not_lt.mp hba) (String.not_lt.mp hab)
      exact absurd h (List.lt_irrefl _)

/-- **The bytes of texts are in the order of the texts.** -/
theorem bytes_lt_iff {a b : String} : bytes a < bytes b ↔ a < b := by
  refine lt_iff_of_lt fun h => ?_
  rw [bytes_eq, bytes_eq]
  exact flatMap_encode_lt (String.lt_iff.mp h)

/-- **The code points of texts are in the order of the texts.** -/
theorem codes_lt_iff {a b : String} : codes a < codes b ↔ a < b := by
  refine lt_iff_of_lt fun h => ?_
  apply List.map_lt
  · intro c d hlt
    exact hlt
  · exact String.lt_iff.mp h

/-- A ligature takes three bytes, a script letter four. -/
example : bytes "ﬁ" < bytes "𝒜" := by decide

end Text
end AssignLang
