import Mathlib.Order.Basic
import RecordService.Bytes

/-!
# The bytes of texts

The first byte of the encoding of a character tells how many bytes follow it, and the later
characters have the longer encodings. So texts are in the order of their bytes exactly if they are in
the order of their characters (`RecordService.Bytes.ofText_lt_iff`).

* `RecordService.Bytes.ofText_eq`: the bytes of a text are those of its characters.
* `RecordService.Bytes.toNat_of_mem_encode`: which bytes a character brings.
* `RecordService.Bytes.encode_append_lt`: the bytes of two characters, whatever follows them.
-/

namespace RecordService.Bytes

/-! ### Bytes as lists -/

/-- The list of an array of bytes is collected from its end. -/
theorem toList_loop (bs : ByteArray) (i : Nat) (r : List UInt8) :
    ByteArray.toList.loop bs i r = r.reverse ++ bs.data.toList.drop i := by
  fun_induction ByteArray.toList.loop bs i r with
  | case1 i r h ih =>
    have hi : i < bs.data.toList.length := by simpa using h
    rw [ih, List.drop_eq_getElem_cons hi, List.reverse_cons, List.append_assoc]
    simp [ByteArray.get!, h]
  | case2 i r h =>
    have hi : bs.data.toList.length ≤ i := by simpa using Nat.le_of_not_lt h
    rw [List.drop_eq_nil_of_le hi, List.append_nil]

/-- A text is encoded character by character. -/
theorem ofText_eq (s : String) : ofText s = s.toList.flatMap String.utf8EncodeChar := by
  have hbytes : (String.ofList s.toList).toByteArray =
      (s.toList.flatMap String.utf8EncodeChar).toByteArray := String.toByteArray_ofList
  rw [String.ofList_toList, ← String.toUTF8_eq_toByteArray] at hbytes
  rw [ofText, hbytes, ByteArray.toList, toList_loop, List.toList_data_toByteArray]
  rfl

/-! ### The bytes of a character -/

/-- A byte of a character is the character itself, or lies behind all characters of one byte. So
bytes below those are found in a text exactly where the characters are. -/
theorem toNat_of_mem_encode {c : Char} {b : UInt8} (h : b ∈ String.utf8EncodeChar c) :
    b.toNat = c.toNat ∨ 0x80 ≤ b.toNat := by
  have hc : c.val.toNat = c.toNat := rfl
  unfold String.utf8EncodeChar at h
  rw [hc] at h
  generalize c.toNat = v at h ⊢
  dsimp only at h
  -- by the number of bytes: the only one is the character, and the others are marked
  repeat' split at h
  all_goals simp only [List.mem_cons, List.not_mem_nil, or_false] at h
  · subst h
    left
    simp only [UInt8.toNat_ofNat']
    omega
  · right
    rcases h with rfl | rfl <;> simp only [UInt8.toNat_ofNat'] <;> omega
  · right
    rcases h with rfl | rfl | rfl <;> simp only [UInt8.toNat_ofNat'] <;> omega
  · right
    rcases h with rfl | rfl | rfl | rfl <;> simp only [UInt8.toNat_ofNat'] <;> omega

/-! ### The order -/

/-- The bytes of a character come before those of a later one, whatever follows. Encodings of
different lengths are told apart by their first bytes. -/
theorem encode_append_lt {c d : Char} (h : c < d) (x y : Bytes) :
    String.utf8EncodeChar c ++ x < String.utf8EncodeChar d ++ y := by
  have hlt : c.val.toNat < d.val.toNat := h
  have hmax : d.val.toNat < 0x110000 := by
    rcases d.valid with hd | hd
    · exact Nat.lt_trans hd (by decide)
    · exact hd.2
  unfold String.utf8EncodeChar
  generalize c.val.toNat = v at hlt ⊢
  generalize d.val.toNat = w at hlt hmax ⊢
  -- six bits go to each of the later bytes
  have hv : v / 4096 = v / 64 / 64 ∧ v / 262144 = v / 64 / 64 / 64 := by omega
  have hw : w / 4096 = w / 64 / 64 ∧ w / 262144 = w / 64 / 64 / 64 := by omega
  dsimp only
  rw [hv.1, hv.2, hw.1, hw.2]
  clear hv hw
  repeat' split
  all_goals
    simp only [List.cons_append, List.nil_append, List.cons_lt_cons_iff, UInt8.lt_iff_toNat_lt,
      ← UInt8.toNat_inj, UInt8.toNat_ofNat']
    omega

theorem flatMap_encode_lt {cs ds : List Char} (h : cs < ds) :
    cs.flatMap String.utf8EncodeChar < ds.flatMap String.utf8EncodeChar := by
  induction cs generalizing ds with
  | nil =>
    cases ds with
    | nil => exact absurd h (List.lt_irrefl _)
    | cons d ds =>
      obtain ⟨b, bs, hb⟩ := List.exists_cons_of_ne_nil (String.utf8EncodeChar_ne_nil (c := d))
      rw [List.flatMap_cons, hb]
      exact List.nil_lt_cons b _
  | cons c cs ih =>
    cases ds with
    | nil => exact absurd h (List.not_lt_nil _)
    | cons d ds =>
      rw [List.flatMap_cons, List.flatMap_cons]
      rcases List.cons_lt_cons_iff.mp h with hlt | ⟨rfl, hlt⟩
      · exact encode_append_lt hlt _ _
      · exact List.append_left_lt (ih hlt)

/-- **The order of texts** is that of their bytes. Texts are ordered by characters here, and by
bytes where the database collates them. -/
theorem ofText_lt_iff {s u : String} : ofText s < ofText u ↔ s < u := by
  have hmono {a b : String} (h : a < b) : ofText a < ofText b := by
    rw [ofText_eq, ofText_eq]
    exact flatMap_encode_lt h
  refine ⟨fun h => ?_, hmono⟩
  refine String.not_le.mp fun hle => ?_
  by_cases hlt : u < s
  · exact List.lt_irrefl _ (List.lt_trans h (hmono hlt))
  · obtain rfl := String.le_antisymm (String.not_lt.mp hlt) hle
    exact List.lt_irrefl _ h

end RecordService.Bytes
