import JarTailor.Text.Affix
import JarTailor.Text.Utf8
import Mathlib.Data.List.Lex

/-!
# Texts in the order of their bytes

Two lists part where, after what they have in common, one goes on with something less than the
other. Characters in the order of their code points part in their UTF-8 bytes, so that texts are
ordered by characters as they are by bytes, and one text begins with another just if its bytes do.
The texts that begin alike stand together, from the beginning itself on.
-/

namespace JarTailor

/-- After a common beginning the first list goes on with less than the second. -/
inductive Parts {α : Type} [LT α] : List α → List α → Prop
  | here {a b : α} (h : a < b) (first second : List α) : Parts (a :: first) (b :: second)
  | there (a : α) {first second : List α} (h : Parts first second) :
      Parts (a :: first) (a :: second)

namespace Parts

variable {α : Type} [LT α] {first second : List α}

theorem lt (h : Parts first second) : first < second := by
  induction h with
  | here h => exact List.cons_lt_cons_iff.2 (Or.inl h)
  | there a _ ih => exact List.cons_lt_cons_iff.2 (Or.inr ⟨rfl, ih⟩)

theorem append (h : Parts first second) (rest more : List α) :
    Parts (first ++ rest) (second ++ more) := by
  induction h with
  | here h => exact .here h _ _
  | there a _ ih => exact .there a ih

theorem prepend (common : List α) (h : Parts first second) :
    Parts (common ++ first) (common ++ second) := by
  induction common with
  | nil => exact h
  | cons a common ih => exact .there a ih

/-- Lists that part do not begin with one another. -/
theorem not_isPrefix [Std.Irrefl (α := α) (· < ·)] (h : Parts first second) :
    ¬first <+: second ∧ ¬second <+: first := by
  induction h with
  | @here a b h =>
      have hne : a ≠ b := by
        rintro rfl
        exact Std.Irrefl.irrefl a h
      simp only [List.cons_prefix_cons, hne, hne.symm, false_and, not_false_iff, and_self]
  | there a _ ih => simpa only [List.cons_prefix_cons, true_and] using ih

/-- Of two lists in order the second begins with the first and goes on, or the two part. -/
theorem of_lt (h : first < second) :
    (∃ a rest, second = first ++ a :: rest) ∨ Parts first second := by
  induction first generalizing second with
  | nil =>
      cases second with
      | nil => exact absurd h (List.not_lt_nil _)
      | cons a rest => exact Or.inl ⟨a, rest, rfl⟩
  | cons a first ih =>
      cases second with
      | nil => exact absurd h (List.not_lt_nil _)
      | cons b second =>
          rcases List.cons_lt_cons_iff.1 h with hlt | ⟨rfl, hlt⟩
          · exact Or.inr (.here hlt _ _)
          · rcases ih hlt with ⟨b, rest, rfl⟩ | hparts
            · exact Or.inl ⟨b, rest, rfl⟩
            · exact Or.inr (.there a hparts)

end Parts

namespace Utf8

section Characters

variable {v w : Nat}

theorem ofNat_lt_ofNat (h : v < w) (hw : w < 256) : UInt8.ofNat v < UInt8.ofNat w := by
  rw [UInt8.lt_iff_toNat_lt, UInt8.toNat_ofNat', UInt8.toNat_ofNat', Nat.mod_eq_of_lt hw,
    Nat.mod_eq_of_lt (Nat.lt_trans h hw)]
  exact h

/-- The lead bytes of characters of one length count up from `base`. -/
theorem parts_lead {base limit : Nat} (hbase : limit + base ≤ 256) (h : v < w) (hw : w < limit) :
    Parts [UInt8.ofNat (v % limit + base)] [UInt8.ofNat (w % limit + base)] := by
  rw [Nat.mod_eq_of_lt hw, Nat.mod_eq_of_lt (Nat.lt_trans h hw)]
  exact .here (ofNat_lt_ofNat (by omega) (by omega)) _ _

/-- A byte with the last six bits goes on with the order that the bytes before it make. -/
theorem parts_concat {front : Nat → Bytes} {limit : Nat}
    (hfront : ∀ {v w}, v < w → w < limit → Parts (front v) (front w)) (h : v < w)
    (hw : w < limit * 64) :
    Parts (front (v / 64) ++ [UInt8.ofNat (v % 64 + 128)])
      (front (w / 64) ++ [UInt8.ofNat (w % 64 + 128)]) := by
  rcases Nat.lt_or_eq_of_le (Nat.div_le_div_right (c := 64) (Nat.le_of_lt h)) with hlt | heq
  · exact (hfront hlt (Nat.div_lt_of_lt_mul (by rwa [Nat.mul_comm]))).append _ _
  · rw [heq]
    exact .prepend _ (.here (ofNat_lt_ofNat (by omega) (by omega)) _ _)

theorem parts_two (h : v < w) (hw : w < 0x800) :
    Parts [UInt8.ofNat (v / 64 % 32 + 192), UInt8.ofNat (v % 64 + 128)]
      [UInt8.ofNat (w / 64 % 32 + 192), UInt8.ofNat (w % 64 + 128)] :=
  parts_concat (parts_lead (by decide)) h hw

theorem parts_three (h : v < w) (hw : w < 0x10000) :
    Parts [UInt8.ofNat (v / 4096 % 16 + 224), UInt8.ofNat (v / 64 % 64 + 128),
        UInt8.ofNat (v % 64 + 128)]
      [UInt8.ofNat (w / 4096 % 16 + 224), UInt8.ofNat (w / 64 % 64 + 128),
        UInt8.ofNat (w % 64 + 128)] := by
  rw [← Nat.div_div_eq_div_mul v 64 64, ← Nat.div_div_eq_div_mul w 64 64]
  exact parts_concat (parts_concat (parts_lead (by decide))) h hw

theorem parts_four (h : v < w) (hw : w < 0x200000) :
    Parts [UInt8.ofNat (v / 262144 % 8 + 240), UInt8.ofNat (v / 4096 % 64 + 128),
        UInt8.ofNat (v / 64 % 64 + 128), UInt8.ofNat (v % 64 + 128)]
      [UInt8.ofNat (w / 262144 % 8 + 240), UInt8.ofNat (w / 4096 % 64 + 128),
        UInt8.ofNat (w / 64 % 64 + 128), UInt8.ofNat (w % 64 + 128)] := by
  rw [← Nat.div_div_eq_div_mul v 64 4096, ← Nat.div_div_eq_div_mul w 64 4096,
    ← Nat.div_div_eq_div_mul v 64 64, ← Nat.div_div_eq_div_mul w 64 64,
    ← Nat.div_div_eq_div_mul _ 64 64, ← Nat.div_div_eq_div_mul _ 64 64]
  exact parts_concat (parts_concat (parts_concat (parts_lead (by decide)))) h hw

/-- Characters are in the order of their bytes: a character of fewer bytes has a lesser lead byte,
and characters of equally many bytes are told apart six bits at a time. -/
theorem parts_encodeChar {c d : Char} (h : c < d) :
    Parts (String.utf8EncodeChar c) (String.utf8EncodeChar d) := by
  have hlt : c.val.toNat < d.val.toNat := UInt32.lt_iff_toNat_lt.1 h
  have hlast : d.val.toNat < 0x110000 := by
    rcases d.valid with hd | hd <;> omega
  unfold String.utf8EncodeChar
  simp only
  generalize c.val.toNat = v at hlt
  generalize d.val.toNat = w at hlt hlast
  -- the cases are the lengths of the greater character, the splits those of the lesser one
  by_cases hone : w ≤ 0x7f
  · rw [if_pos hone, if_pos (by omega)]
    exact .here (ofNat_lt_ofNat hlt (by omega)) _ _
  by_cases htwo : w ≤ 0x7ff
  · rw [if_neg hone, if_pos htwo]
    split
    · exact .here (ofNat_lt_ofNat (by omega) (by omega)) _ _
    · rw [if_pos (by omega)]
      exact parts_two hlt (by omega)
  by_cases hthree : w ≤ 0xffff
  · rw [if_neg hone, if_neg htwo, if_pos hthree]
    split
    · exact .here (ofNat_lt_ofNat (by omega) (by omega)) _ _
    split
    · exact .here (ofNat_lt_ofNat (by omega) (by omega)) _ _
    · rw [if_pos (by omega)]
      exact parts_three hlt (by omega)
  · rw [if_neg hone, if_neg htwo, if_neg hthree]
    split
    · exact .here (ofNat_lt_ofNat (by omega) (by omega)) _ _
    split
    · exact .here (ofNat_lt_ofNat (by omega) (by omega)) _ _
    split
    · exact .here (ofNat_lt_ofNat (by omega) (by omega)) _ _
    · exact parts_four hlt (by omega)

end Characters

section Texts

variable {chars more : List Char} {first second : String}

theorem parts_flatMap (h : Parts chars more) :
    Parts (chars.flatMap String.utf8EncodeChar) (more.flatMap String.utf8EncodeChar) := by
  induction h with
  | here h =>
      rw [List.flatMap_cons, List.flatMap_cons]
      exact (parts_encodeChar h).append _ _
  | there c _ ih =>
      rw [List.flatMap_cons, List.flatMap_cons]
      exact ih.prepend _

theorem encode_lt_of_lt (h : first < second) : encode first < encode second := by
  rw [encode_eq_flatMap, encode_eq_flatMap]
  rcases Parts.of_lt (String.lt_iff.1 h) with ⟨c, rest, hsecond⟩ | hparts
  · obtain ⟨byte, bytes, hbytes⟩ :=
      List.exists_cons_of_ne_nil (String.utf8EncodeChar_ne_nil (c := c))
    rw [hsecond, List.flatMap_append, List.flatMap_cons, hbytes, List.cons_append]
    conv => lhs; rw [← List.append_nil (List.flatMap _ _)]
    exact List.append_left_lt (List.nil_lt_cons _ _)
  · exact (parts_flatMap hparts).lt

/-- The order of texts is that of their bytes. -/
theorem encode_lt_iff : encode first < encode second ↔ first < second := by
  refine ⟨fun h => ?_, encode_lt_of_lt⟩
  by_contra hnot
  by_cases hlt : second < first
  · exact List.lt_asymm h (encode_lt_of_lt hlt)
  · obtain rfl := String.le_antisymm (String.not_lt.1 hlt) (String.not_lt.1 hnot)
    exact List.lt_irrefl _ h

theorem isPrefix_flatMap_iff :
    chars.flatMap String.utf8EncodeChar <+: more.flatMap String.utf8EncodeChar ↔
      chars <+: more := by
  constructor
  · intro h
    induction chars generalizing more with
    | nil => exact List.nil_prefix
    | cons c chars ih =>
        cases more with
        | nil => simp at h
        | cons d more =>
            rw [List.flatMap_cons, List.flatMap_cons] at h
            -- characters that differ part in their bytes, in the one order or the other
            rcases Std.lt_trichotomy c d with hlt | rfl | hlt
            · exact absurd h ((parts_encodeChar hlt).append _ _).not_isPrefix.1
            · rw [List.prefix_append_right_inj] at h
              exact List.cons_prefix_cons.2 ⟨rfl, ih h⟩
            · exact absurd h ((parts_encodeChar hlt).append _ _).not_isPrefix.2
  · rintro ⟨rest, rfl⟩
    rw [List.flatMap_append]
    exact List.prefix_append _ _

end Texts

end Utf8

namespace Text

variable {start first second : String}

theorem startsWith_iff_encode :
    startsWith start first = true ↔ Utf8.encode start <+: Utf8.encode first := by
  rw [startsWith_iff, Utf8.encode_eq_flatMap, Utf8.encode_eq_flatMap, Utf8.isPrefix_flatMap_iff]

/-- No text that begins with another one is before it. -/
theorem not_lt_of_startsWith (h : startsWith start first = true) : ¬first < start := by
  obtain ⟨rest, hrest⟩ := startsWith_iff.1 h
  rw [String.lt_iff, ← hrest]
  exact List.le_append_left

/-- What stands between a beginning and a text that has it has it too. -/
theorem startsWith_of_lt (hfrom : ¬first < start) (hlt : first < second)
    (h : startsWith start second = true) : startsWith start first = true := by
  obtain ⟨rest, hrest⟩ := startsWith_iff.1 h
  by_cases hafter : start < first
  · rcases Parts.of_lt (String.lt_iff.1 hafter) with ⟨c, more, hfirst⟩ | hparts
    · exact startsWith_iff.2 ⟨c :: more, hfirst.symm⟩
    · -- a text that parts from the beginning comes after all that have it
      have hback := (hparts.append rest []).lt
      rw [hrest, List.append_nil, ← String.lt_iff] at hback
      exact absurd hback (String.lt_asymm hlt)
  · obtain rfl := String.le_antisymm (String.not_lt.1 hafter) (String.not_lt.1 hfrom)
    exact startsWith_iff.2 (List.prefix_refl _)

end Text

end JarTailor
