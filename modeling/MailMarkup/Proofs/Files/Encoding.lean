import MailMarkup.Files.Document

namespace MailMarkup.Text

namespace Utf8

theorem toNat_tail (n : Nat) : (UInt8.ofNat (0x80 + n % 0x40)).toNat = 0x80 + n % 0x40 := by
  rw [UInt8.toNat_ofNat', Nat.mod_eq_of_lt (by omega)]

theorem run_tail {bits more low high n : Nat} (hl : low ≤ 0x80 + n % 0x40)
    (hh : 0x80 + n % 0x40 ≤ high) (bs : Bytes) :
    run (.inside bits (more + 1) low high) (.ofNat (0x80 + n % 0x40) :: bs) =
      run (.inside (bits * 64 + n % 0x40) more 0x80 0xBF) bs := by
  have hn : (0x80 + n % 0x40) % 64 = n % 0x40 := by omega
  simp only [run, step, toNat_tail, hl, hh, and_self, if_true, hn, List.nil_append]

theorem run_last {bits low high n : Nat} (hl : low ≤ 0x80 + n % 0x40)
    (hh : 0x80 + n % 0x40 ≤ high) (bs : Bytes) :
    run (.inside bits 0 low high) (.ofNat (0x80 + n % 0x40) :: bs) =
      some (.ofNat (bits * 64 + n % 0x40)) :: run .ground bs := by
  have hn : (0x80 + n % 0x40) % 64 = n % 0x40 := by omega
  simp only [run, step, toNat_tail, hl, hh, and_self, if_true, hn, List.cons_append,
    List.nil_append]

theorem run_start {n : Nat} (h : n < 0x100) (bs : Bytes) :
    run .ground (.ofNat n :: bs) = (start n).1 ++ run (start n).2 bs := by
  rw [run, UInt8.toNat_ofNat', Nat.mod_eq_of_lt (by omega), step]

theorem run_utf8Char (c : Char) (bs : Bytes) :
    run .ground (utf8Char c ++ bs) = some c :: run .ground bs := by
  have hc : Char.ofNat c.toNat = c := Char.ofNat_toNat c
  have hv : c.toNat < 0xD800 ∨ 0xDFFF < c.toNat ∧ c.toNat < 0x110000 := c.valid
  rw [utf8Char]
  generalize c.toNat = n at hc hv
  dsimp only
  split
  · rename_i h
    rw [List.cons_append, List.nil_append, run_start (by omega), start, if_pos h, hc]
    rfl
  split
  · rename_i h1 h2
    have hn : (0xC0 + n / 0x40 - 0xC0) * 64 + n % 0x40 = n := by omega
    rw [List.cons_append, List.cons_append, List.nil_append, run_start (by omega), start,
      if_neg (by omega), if_neg (by omega), if_pos (by omega), List.nil_append,
      run_last (by omega) (by omega), hn, hc]
  split
  · rename_i h1 h2 h3
    have hn : ((0xE0 + n / 0x1000 - 0xE0) * 64 + n / 0x40 % 0x40) * 64 + n % 0x40 = n := by omega
    rw [List.cons_append, List.cons_append, List.cons_append, List.nil_append,
      run_start (by omega), start, if_neg (by omega), if_neg (by omega), if_neg (by omega),
      if_pos (by omega), List.nil_append, run_tail (by split <;> omega) (by split <;> omega),
      run_last (by omega) (by omega), hn, hc]
  · rename_i h1 h2 h3
    have hn : (((0xF0 + n / 0x40000 - 0xF0) * 64 + n / 0x1000 % 0x40) * 64 + n / 0x40 % 0x40) * 64
        + n % 0x40 = n := by omega
    rw [List.cons_append, List.cons_append, List.cons_append, List.cons_append, List.nil_append,
      run_start (by omega), start, if_neg (by omega), if_neg (by omega), if_neg (by omega),
      if_neg (by omega), if_pos (by omega), List.nil_append,
      run_tail (by split <;> omega) (by split <;> omega), run_tail (by omega) (by omega),
      run_last (by omega) (by omega), hn, hc]

theorem run_encodeUtf8 (t : Text) : run .ground (encodeUtf8 t) = t.map some := by
  induction t with
  | nil => rfl
  | cons c t ih =>
    rw [encodeUtf8, List.flatMap_cons, run_utf8Char, ← encodeUtf8, ih, List.map_cons]

end Utf8

theorem decodeUtf8?_encodeUtf8 (t : Text) : decodeUtf8? (encodeUtf8 t) = some t := by
  rw [decodeUtf8?, Utf8.run_encodeUtf8]
  induction t with
  | nil => rfl
  | cons c t ih => simp [List.mapM_cons, ih]

theorem decodeUtf8Lossy_encodeUtf8 (t : Text) : decodeUtf8Lossy (encodeUtf8 t) = t := by
  rw [decodeUtf8Lossy, Utf8.run_encodeUtf8, List.map_map]
  exact List.map_id t

end MailMarkup.Text

namespace MailMarkup.Files

open Text

theorem decoded_encodeUtf8 {t : Text} (h : t.head? ≠ some byteOrderMark) :
    decoded (encodeUtf8 t) = (t, .utf8) := by
  rw [decoded, decodeUtf8?_encodeUtf8]
  cases t with
  | nil => rfl
  | cons c r => exact if_neg fun hc => h (congrArg some hc)

theorem decoded_encodeUtf8_marked (t : Text) :
    decoded (encodeUtf8 (byteOrderMark :: t)) = (t, .markedUtf8) := by
  rw [decoded, decodeUtf8?_encodeUtf8]
  exact if_pos rfl

end MailMarkup.Files
