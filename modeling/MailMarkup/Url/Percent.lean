import MailMarkup.Entity.Reference

namespace MailMarkup.Url

open Text

def isAscii (c : Char) : Bool := c.toNat < 128

def escapedBytes : Text → Bytes
  | '%' :: a :: b :: r =>
    if Entity.isHexDigit a && Entity.isHexDigit b then
      .ofNat (Entity.numberOf 16 [a, b]) :: escapedBytes r
    else '%'.toUInt8 :: escapedBytes (a :: b :: r)
  | c :: r => c.toUInt8 :: escapedBytes r
  | [] => []

def unescape (t : Text) : Text :=
  (t.splitBy fun a b => isAscii a == isAscii b).flatMap fun run =>
    if run.all isAscii then decodeUtf8Lossy (escapedBytes run) else run

def isSafe (b : UInt8) : Bool :=
  let c := Char.ofNat b.toNat
  isAscii c && (c.isAlphanum || ['_', '.', '-', '~'].contains c)

def hexUpper (n : Nat) : Text := (Nat.toDigits 16 n).map Char.toUpper

def escapedByte (b : UInt8) : Text :=
  if isSafe b then [.ofNat b.toNat]
  else if b = ' '.toUInt8 then ['+']
  else '%' :: (hexUpper (b.toNat / 16) ++ hexUpper (b.toNat % 16))

def escapeForm (t : Text) : Text := (encodeUtf8 t).flatMap escapedByte

def unescapeForm (t : Text) : Text := unescape (t.map fun c => if c = '+' then ' ' else c)

def isFormChar (c : Char) : Bool := c.isAlphanum || ['_', '.', '-', '~', '+', '%'].contains c

def hexDigit (n : Nat) : Char := n.digitChar.toUpper

theorem hexUpper_of_lt : ∀ n < 16, hexUpper n = [hexDigit n] := by decide

theorem digitValue_hexDigit : ∀ n < 16, Entity.digitValue (hexDigit n) = n := by decide

theorem isHexDigit_hexDigit : ∀ n < 16, Entity.isHexDigit (hexDigit n) = true := by decide

theorem isFormChar_hexDigit : ∀ n < 16, isFormChar (hexDigit n) = true := by decide

theorem hexDigit_ne_plus : ∀ n < 16, hexDigit n ≠ '+' := by decide

theorem escapedByte_of_not_isSafe {b : UInt8} (hs : isSafe b = false) (hb : b ≠ ' '.toUInt8) :
    escapedByte b = ['%', hexDigit (b.toNat / 16), hexDigit (b.toNat % 16)] := by
  have hlt := b.toNat_lt
  rw [escapedByte, if_neg (by simp [hs]), if_neg hb, hexUpper_of_lt _ (by omega),
    hexUpper_of_lt _ (by omega)]
  rfl

theorem isFormChar_of_mem_escapedByte {b : UInt8} {c : Char} (h : c ∈ escapedByte b) :
    isFormChar c = true := by
  by_cases hs : isSafe b = true
  · rw [escapedByte, if_pos hs] at h
    rw [List.mem_singleton.1 h]
    simp only [isSafe, Bool.and_eq_true, Bool.or_eq_true, List.contains_iff_mem] at hs
    rw [isFormChar, Bool.or_eq_true, List.contains_iff_mem]
    exact hs.2.imp_right fun hm => List.mem_append_left ['+', '%'] hm
  · by_cases hb : b = ' '.toUInt8
    · rw [escapedByte, if_neg hs, if_pos hb] at h
      rw [List.mem_singleton.1 h]
      rfl
    · have hlt := b.toNat_lt
      rw [escapedByte_of_not_isSafe (by simpa using hs) hb] at h
      simp only [List.mem_cons, List.not_mem_nil, or_false] at h
      obtain rfl | rfl | rfl := h
      · rfl
      · exact isFormChar_hexDigit _ (by omega)
      · exact isFormChar_hexDigit _ (by omega)

theorem isFormChar_of_mem_escapeForm {t : Text} {c : Char} (h : c ∈ escapeForm t) :
    isFormChar c = true := by
  obtain ⟨b, -, hb⟩ := List.mem_flatMap.1 h
  exact isFormChar_of_mem_escapedByte hb

theorem not_mem_escapeForm {c : Char} (h : isFormChar c = false) (t : Text) :
    c ∉ escapeForm t := by
  intro hm
  rw [isFormChar_of_mem_escapeForm hm] at h
  cases h

end MailMarkup.Url
