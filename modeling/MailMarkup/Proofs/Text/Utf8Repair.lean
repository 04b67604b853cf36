import MailMarkup.Proofs.Files.Encoding

namespace MailMarkup.Text

namespace Utf8

theorem toNat_ofNat {n : Nat} (h : n.isValidChar) : (Char.ofNat n).toNat = n := by
  rw [Char.ofNat, dif_pos h]
  exact UInt32.toNat_ofNatLT ..

theorem ofNat_eq {b : UInt8} {n : Nat} (h : n = b.toNat) : UInt8.ofNat n = b := by
  rw [h, UInt8.ofNat_toNat]

theorem utf8Char_one {b : UInt8} (hb : b.toNat < 0x80) : utf8Char (.ofNat b.toNat) = [b] := by
  rw [utf8Char, toNat_ofNat (.inl (by omega))]
  simp only [if_pos hb, ofNat_eq rfl]

theorem utf8Char_two {a b : UInt8} (ha : 0xC2 ≤ a.toNat ∧ a.toNat < 0xE0)
    (hb : 0x80 ≤ b.toNat ∧ b.toNat ≤ 0xBF) :
    utf8Char (.ofNat ((a.toNat - 0xC0) * 64 + b.toNat % 64)) = [a, b] := by
  rw [utf8Char, toNat_ofNat (.inl (by omega))]
  dsimp only
  rw [if_neg (by omega), if_pos (by omega), ofNat_eq (b := a) (by omega),
    ofNat_eq (b := b) (by omega)]

theorem utf8Char_three {a b c : UInt8} (ha : 0xE0 ≤ a.toNat ∧ a.toNat < 0xF0)
    (hb : (if a.toNat = 0xE0 then 0xA0 else 0x80) ≤ b.toNat ∧
      b.toNat ≤ if a.toNat = 0xED then 0x9F else 0xBF)
    (hc : 0x80 ≤ c.toNat ∧ c.toNat ≤ 0xBF) :
    utf8Char (.ofNat (((a.toNat - 0xE0) * 64 + b.toNat % 64) * 64 + c.toNat % 64)) =
      [a, b, c] := by
  have hvalid :
      (((a.toNat - 0xE0) * 64 + b.toNat % 64) * 64 + c.toNat % 64).isValidChar := by
    simp only [Nat.isValidChar]
    split at hb <;> split at hb <;> omega
  rw [utf8Char, toNat_ofNat hvalid]
  dsimp only
  have hlow : 0x80 ≤ b.toNat ∧ b.toNat ≤ 0xBF := by split at hb <;> split at hb <;> omega
  rw [if_neg (by split at hb <;> omega), if_neg (by split at hb <;> omega), if_pos (by omega),
    ofNat_eq (b := a) (by omega), ofNat_eq (b := b) (by omega), ofNat_eq (b := c) (by omega)]

theorem utf8Char_four {a b c d : UInt8} (ha : 0xF0 ≤ a.toNat ∧ a.toNat < 0xF5)
    (hb : (if a.toNat = 0xF0 then 0x90 else 0x80) ≤ b.toNat ∧
      b.toNat ≤ if a.toNat = 0xF4 then 0x8F else 0xBF)
    (hc : 0x80 ≤ c.toNat ∧ c.toNat ≤ 0xBF) (hd : 0x80 ≤ d.toNat ∧ d.toNat ≤ 0xBF) :
    utf8Char (.ofNat ((((a.toNat - 0xF0) * 64 + b.toNat % 64) * 64 + c.toNat % 64) * 64 +
      d.toNat % 64)) = [a, b, c, d] := by
  have hlow : 0x80 ≤ b.toNat ∧ b.toNat ≤ 0xBF := by split at hb <;> split at hb <;> omega
  have hrange : 0x10000 ≤ (((a.toNat - 0xF0) * 64 + b.toNat % 64) * 64 + c.toNat % 64) * 64 +
      d.toNat % 64 ∧ (((a.toNat - 0xF0) * 64 + b.toNat % 64) * 64 + c.toNat % 64) * 64 +
      d.toNat % 64 < 0x110000 := by
    split at hb <;> split at hb <;> omega
  rw [utf8Char, toNat_ofNat (.inr ⟨by omega, hrange.2⟩)]
  dsimp only
  rw [if_neg (by omega), if_neg (by omega), if_neg (by omega), ofNat_eq (b := a) (by omega),
    ofNat_eq (b := b) (by omega), ofNat_eq (b := c) (by omega), ofNat_eq (b := d) (by omega)]

variable {bits more low high : Nat} {bs : Bytes} {t : Text}

theorem run_cons (s : State) (b : UInt8) (bs : Bytes) :
    run s (b :: bs) = (step s b.toNat).1 ++ run (step s b.toNat).2 bs := by
  cases s <;> rfl

theorem map_some_ne_none_cons {out : Output} (h : none :: out = t.map some) : False := by
  cases t <;> simp at h

theorem exists_of_run_inside (h : run (.inside bits more low high) bs = t.map some) :
    ∃ b rest, bs = b :: rest ∧ (low ≤ b.toNat ∧ b.toNat ≤ high) ∧
      (step (.inside bits more low high) b.toNat).1 ++
        run (step (.inside bits more low high) b.toNat).2 rest = t.map some := by
  cases bs with
  | nil => exact (map_some_ne_none_cons h).elim
  | cons b rest =>
    refine ⟨b, rest, rfl, Decidable.by_contra fun hb => ?_, h⟩
    rw [run_cons, step, if_neg hb] at h
    exact map_some_ne_none_cons h

theorem exists_of_run_last (h : run (.inside bits 0 low high) bs = t.map some) :
    ∃ b rest u, bs = b :: rest ∧ (low ≤ b.toNat ∧ b.toNat ≤ high) ∧
      t = .ofNat (bits * 64 + b.toNat % 64) :: u ∧ run .ground rest = u.map some := by
  obtain ⟨b, rest, rfl, hb, h⟩ := exists_of_run_inside h
  simp only [step, if_pos hb, List.singleton_append] at h
  obtain ⟨c, u, rfl, hc, hu⟩ := List.map_eq_cons_iff.1 h.symm
  exact ⟨b, rest, u, rfl, hb, congrArg (· :: u) (Option.some.inj hc), hu.symm⟩

theorem exists_of_run_more (h : run (.inside bits (more + 1) low high) bs = t.map some) :
    ∃ b rest, bs = b :: rest ∧ (low ≤ b.toNat ∧ b.toNat ≤ high) ∧
      run (.inside (bits * 64 + b.toNat % 64) more 0x80 0xBF) rest = t.map some := by
  obtain ⟨b, rest, rfl, hb, h⟩ := exists_of_run_inside h
  simp only [step, if_pos hb, List.nil_append] at h
  exact ⟨b, rest, rfl, hb, h⟩

theorem exists_first_of_run {b : UInt8} (h : run .ground (b :: bs) = t.map some) :
    ∃ c u rest, t = c :: u ∧ b :: bs = utf8Char c ++ rest ∧ run .ground rest = u.map some := by
  rw [run, step, start] at h
  split at h
  · rename_i hb
    obtain ⟨c, u, rfl, hc, hu⟩ := List.map_eq_cons_iff.1 h.symm
    obtain rfl := Option.some.inj hc
    exact ⟨_, u, bs, rfl, by rw [utf8Char_one hb]; rfl, hu.symm⟩
  split at h
  · exact (map_some_ne_none_cons h).elim
  split at h
  · rename_i h1 h2 h3
    obtain ⟨c, rest, u, rfl, hc, rfl, hu⟩ := exists_of_run_last h
    exact ⟨_, u, rest, rfl, by rw [utf8Char_two ⟨by omega, h3⟩ hc]; rfl, hu⟩
  split at h
  · rename_i h1 h2 h3 h4
    obtain ⟨c, rest, rfl, hc, h⟩ := exists_of_run_more h
    obtain ⟨d, rest, u, rfl, hd, rfl, hu⟩ := exists_of_run_last h
    exact ⟨_, u, rest, rfl, by rw [utf8Char_three ⟨by omega, h4⟩ hc hd]; rfl, hu⟩
  split at h
  · rename_i h1 h2 h3 h4 h5
    obtain ⟨c, rest, rfl, hc, h⟩ := exists_of_run_more h
    obtain ⟨d, rest, rfl, hd, h⟩ := exists_of_run_more h
    obtain ⟨e, rest, u, rfl, he, rfl, hu⟩ := exists_of_run_last h
    exact ⟨_, u, rest, rfl, by rw [utf8Char_four ⟨by omega, h5⟩ hc hd he]; rfl, hu⟩
  · exact (map_some_ne_none_cons h).elim

theorem eq_encodeUtf8_of_run (h : run .ground bs = t.map some) : bs = encodeUtf8 t := by
  induction t generalizing bs with
  | nil =>
    cases bs with
    | nil => rfl
    | cons b bs =>
      obtain ⟨c, u, -, he, -⟩ := exists_first_of_run h
      cases he
  | cons c t ih =>
    cases bs with
    | nil => cases h
    | cons b bs =>
      obtain ⟨d, u, rest, he, hbs, hrest⟩ := exists_first_of_run h
      obtain ⟨rfl, rfl⟩ := List.cons.inj he
      rw [hbs, ih hrest]
      rfl

def StartsAnew (bs : Bytes) : Prop := ∀ b ∈ bs.head?, b.toNat < 0x80 ∨ 0xBF < b.toNat

def State.IsBounded : State → Prop
  | .ground => True
  | .inside _ _ low high => 0x80 ≤ low ∧ high ≤ 0xBF

theorem isBounded_start (b : Nat) : (start b).2.IsBounded := by
  rw [start]
  split
  · trivial
  split
  · trivial
  split
  · exact ⟨Nat.le_refl _, Nat.le_refl _⟩
  split
  · exact ⟨by split <;> omega, by split <;> omega⟩
  split
  · exact ⟨by split <;> omega, by split <;> omega⟩
  · trivial

theorem isBounded_step (s : State) (b : Nat) : (step s b).2.IsBounded := by
  cases s with
  | ground => exact isBounded_start b
  | inside bits more low high =>
    rw [step]
    split
    · cases more with
      | zero => trivial
      | succ k => exact ⟨Nat.le_refl _, Nat.le_refl _⟩
    · exact isBounded_start b

theorem run_append {s : State} (hs : s.IsBounded) (bs : Bytes) {rest : Bytes}
    (h : StartsAnew rest) : run s (bs ++ rest) = run s bs ++ run .ground rest := by
  induction bs generalizing s with
  | nil =>
    cases s with
    | ground => rfl
    | inside bits more low high =>
      cases rest with
      | nil => rfl
      | cons b rest =>
        have hout : ¬ (low ≤ b.toNat ∧ b.toNat ≤ high) := by
          have := h b rfl
          have := hs.1
          have := hs.2
          omega
        rw [List.nil_append, run_cons, step, if_neg hout]
        rfl
  | cons b bs ih =>
    rw [List.cons_append, run_cons, run_cons, ih (isBounded_step s b.toNat), List.append_assoc]

theorem startsAnew_utf8Char (c : Char) (bs : Bytes) : StartsAnew (utf8Char c ++ bs) := by
  have hc : c.toNat < 0xD800 ∨ 0xDFFF < c.toNat ∧ c.toNat < 0x110000 := c.valid
  intro b hb
  rw [utf8Char] at hb
  generalize c.toNat = n at hc hb
  dsimp only at hb
  have hbyte (m : Nat) (r : Bytes) (h : b ∈ (UInt8.ofNat m :: r).head?) (hm : m < 0x100) :
      b.toNat = m := by
    obtain rfl := Option.some.inj h
    rw [UInt8.toNat_ofNat', Nat.mod_eq_of_lt (by omega)]
  split at hb
  · have := hbyte _ _ hb (by omega)
    omega
  split at hb
  · have := hbyte _ _ hb (by omega)
    omega
  split at hb
  · have := hbyte _ _ hb (by omega)
    omega
  · have := hbyte _ _ hb (by omega)
    omega

end Utf8

def isUtf8 (bs : Bytes) : Bool := (decodeUtf8? bs).isSome

def repaired (bs : Bytes) : Bytes := encodeUtf8 (decodeUtf8Lossy bs)

variable {bs : Bytes} {t : Text}

theorem run_of_decodeUtf8? (h : decodeUtf8? bs = some t) : Utf8.run .ground bs = t.map some := by
  rw [decodeUtf8?] at h
  generalize Utf8.run .ground bs = out at h
  induction out generalizing t with
  | nil =>
    obtain rfl := Option.some.inj h
    rfl
  | cons o out ih =>
    simp only [List.mapM_cons, id_eq, Option.bind_eq_bind, Option.bind_eq_some_iff,
      Option.pure_def, Option.some.injEq] at h
    obtain ⟨c, rfl, u, hu, rfl⟩ := h
    rw [List.map_cons, ih hu]

theorem decodeUtf8?_eq_some_iff : decodeUtf8? bs = some t ↔ encodeUtf8 t = bs :=
  ⟨fun h => (Utf8.eq_encodeUtf8_of_run (run_of_decodeUtf8? h)).symm,
    fun h => h ▸ decodeUtf8?_encodeUtf8 t⟩

theorem isUtf8_iff : isUtf8 bs = true ↔ ∃ t, encodeUtf8 t = bs := by
  rw [isUtf8, Option.isSome_iff_exists]
  exact exists_congr fun t => decodeUtf8?_eq_some_iff

theorem repaired_eq_self_iff : repaired bs = bs ↔ isUtf8 bs = true := by
  rw [isUtf8_iff]
  refine ⟨fun h => ⟨_, h⟩, ?_⟩
  rintro ⟨t, rfl⟩
  rw [repaired, decodeUtf8Lossy_encodeUtf8]

theorem encodeUtf8_injective : Function.Injective encodeUtf8 := fun s t h => by
  rw [← decodeUtf8Lossy_encodeUtf8 s, h, decodeUtf8Lossy_encodeUtf8]

theorem decodeUtf8Lossy_eq_iff (h : '\uFFFD' ∉ t) : decodeUtf8Lossy bs = t ↔ bs = encodeUtf8 t := by
  refine ⟨fun he => Utf8.eq_encodeUtf8_of_run ?_, fun he => he ▸ decodeUtf8Lossy_encodeUtf8 t⟩
  rw [← he, decodeUtf8Lossy] at h ⊢
  rw [List.map_map]
  refine ((List.map_congr_left fun o ho => ?_).trans (List.map_id _)).symm
  cases o with
  | some c => rfl
  | none => exact absurd (List.mem_map.2 ⟨none, ho, rfl⟩) h

end MailMarkup.Text
