import MailMarkup.Entity.Reference
import MailMarkup.Proofs.Text.Scanning
import MailMarkup.Text.Escape

namespace MailMarkup.Entity

open Text

theorem decode_nil : decode [] = .ok [] := rfl

theorem decode_cons_none {c : Char} {r : Text} (h : reference? (c :: r) = none) :
    decode (c :: r) = (decode r).map (c :: ·) := by
  rw [decode, scan_cons_none h, List.mapM_cons, decode]
  cases (scan reference? r).mapM decodePiece <;> rfl

theorem decode_cons_some {c : Char} {r : Text} {x : Reference} {n : Nat}
    (h : reference? (c :: r) = some (x, n)) :
    decode (c :: r) = x.decode.bind fun v => (decode (r.drop n)).map (v ++ ·) := by
  rw [decode, scan_cons_some h, List.mapM_cons, decode, decodePiece]
  cases x.decode with
  | error f => rfl
  | ok v => cases (scan reference? (r.drop n)).mapM decodePiece <;> rfl

theorem reference?_of_ne {c : Char} (h : c ≠ '&') (r : Text) : reference? (c :: r) = none := by
  unfold reference?
  split
  · exact absurd (List.cons.inj ‹_›).1 h
  · exact absurd (List.cons.inj ‹_›).1 h
  · rfl

theorem map_map {ε α β γ : Type} (x : Except ε α) (f : α → β) (g : β → γ) :
    (x.map f).map g = x.map fun a => g (f a) := by
  cases x <;> rfl

theorem decode_append {s : Text} (h : '&' ∉ s) (t : Text) :
    decode (s ++ t) = (decode t).map (s ++ ·) := by
  induction s with
  | nil =>
    rw [List.nil_append]
    cases decode t <;> rfl
  | cons c s ih =>
    rw [List.mem_cons, not_or] at h
    rw [List.cons_append, decode_cons_none (reference?_of_ne (Ne.symm h.1) _), ih h.2, map_map]
    rfl

theorem decode_eq_self {t : Text} (h : '&' ∉ t) : decode t = .ok t := by
  have := decode_append h []
  rwa [List.append_nil, decode_nil, Except.map, List.append_nil] at this

theorem quote_not_mem_toList {s : String}
    (h : (s.toByteArray.data.toList.all (· != 34)) = true) : '"' ∉ s.toList := by
  intro hm
  have hbyte : (34 : UInt8) ∈ s.toByteArray.data.toList := by
    rw [← String.utf8Encode_toList, List.utf8Encode, List.data_toByteArray]
    exact List.mem_flatMap.2 ⟨'"', hm, by decide⟩
  simpa using List.all_eq_true.1 h 34 hbyte

theorem quote_not_mem_namesFrom (c : Char) : ∀ x ∈ namesFrom c, '"' ∉ x.1.toList := by
  have hbytes : (namesFrom c).all (fun x => x.1.toByteArray.data.toList.all (· != 34)) = true := by
    unfold namesFrom
    split <;> decide +kernel
  intro x hx
  exact quote_not_mem_toList (List.all_eq_true.1 hbytes x hx)

theorem lookUp?_eq_none {name : Text} (h : '"' ∈ name) : lookUp? name = none := by
  have hb : bareNames.any (·.toList == name) = false := by
    have hbytes : bareNames.all (fun x => x.toByteArray.data.toList.all (· != 34)) = true := by
      decide +kernel
    rw [List.any_eq_false]
    intro x hx he
    exact quote_not_mem_toList (List.all_eq_true.1 hbytes x hx) (eq_of_beq he ▸ h)
  rw [lookUp?]
  split
  · rename_i hl
    have hm : '"' ∈ name.dropLast := by
      rw [← List.dropLast_append_getLast (List.ne_nil_of_mem h), List.mem_append] at h
      refine h.resolve_right fun hs => ?_
      rw [List.getLast?_eq_some_getLast (List.ne_nil_of_mem (List.mem_of_getLast? hl))] at hl
      simp [Option.some.inj hl] at hs
    cases hv : valueOf? name.dropLast with
    | none => rfl
    | some v =>
      obtain ⟨c, -, hv⟩ := Option.bind_eq_some_iff.1 hv
      obtain ⟨x, hx, -⟩ := Option.bind_eq_some_iff.1 hv
      have he : x.1.toList = name.dropLast := by simpa using List.find?_some hx
      exact absurd (he ▸ hm) (quote_not_mem_namesFrom c x (List.mem_of_find?_eq_some hx))
  · simp [hb]

theorem longestKnown?_append {p q : Text} (hq : '"' ∈ q.take 1) {n : Nat} (hn : n ≤ p.length) :
    longestKnown? (p ++ q) n = (longestKnown? p n).map (· ++ q) := by
  match n with
  | 0 => simp [longestKnown?]
  | 1 => simp [longestKnown?]
  | n + 2 =>
    have ih := longestKnown?_append hq (p := p) (n := n + 1) (by omega)
    rw [longestKnown?, longestKnown?, List.take_append_of_le_length hn,
      List.drop_append_of_le_length hn, ih]
    cases lookUp? (p.take (n + 2)) <;> simp

theorem longestKnown?_quote (p q : Text) (m : Nat) :
    longestKnown? (p ++ '"' :: q) (p.length + m) = longestKnown? (p ++ '"' :: q) p.length := by
  induction m with
  | zero => rfl
  | succ m ih =>
    rw [← ih, ← Nat.add_assoc]
    match hk : p.length + m with
    | 0 => simp [longestKnown?]
    | k + 1 =>
      have hm : '"' ∈ (p ++ '"' :: q).take (k + 2) := by
        rw [List.take_append, show k + 2 - p.length = m + 1 by omega, List.take_succ_cons]
        simp
      rw [longestKnown?, lookUp?_eq_none hm]

theorem lookUp?_single (c : Char) : lookUp? [c] = none := by
  have hb : bareNames.all (fun x => x.toList.length != 1) = true := by decide +kernel
  rw [lookUp?]
  split
  · rfl
  · split
    · rename_i ha
      obtain ⟨x, hx, he⟩ := List.any_eq_true.1 ha
      have := List.all_eq_true.1 hb x hx
      simp [eq_of_beq he] at this
    · rfl

def decodeBeforeQuote (p : Text) : Text := if p.isEmpty then ['&'] else decodeName p

theorem decodeName_quote (p q : Text) :
    decodeName (p ++ '"' :: q) = decodeBeforeQuote p ++ '"' :: q := by
  have h1 : lookUp? (p ++ '"' :: q) = none := lookUp?_eq_none (by simp)
  have h2 : (p ++ '"' :: q).length - 1 = p.length + q.length := by simp
  rw [decodeName, h1, h2, longestKnown?_quote, longestKnown?_append (by simp) (Nat.le_refl _)]
  cases p with
  | nil => rfl
  | cons c p =>
    have hd : decodeBeforeQuote (c :: p) = decodeName (c :: p) := rfl
    rw [hd, decodeName]
    cases p with
    | nil => simp [longestKnown?, lookUp?_single]
    | cons d p =>
      have hl : longestKnown? (c :: d :: p) (c :: d :: p).length =
          (lookUp? (c :: d :: p)).or (longestKnown? (c :: d :: p) ((c :: d :: p).length - 1)) := by
        simp only [List.length_cons, longestKnown?, Nat.add_sub_cancel]
        rw [List.take_of_length_le (by simp), List.drop_of_length_le (by simp)]
        cases lookUp? (c :: d :: p) <;> simp
      rw [hl]
      cases lookUp? (c :: d :: p) with
      | some v => simp
      | none => cases longestKnown? (c :: d :: p) ((c :: d :: p).length - 1) <;> simp

theorem semicolon_escapeQuotes (t : Text) : semicolon (escapeQuotes t) = semicolon t := by
  cases t with
  | nil => rfl
  | cons c t =>
    by_cases hc : c = '"'
    · subst hc
      rfl
    · rw [escapeQuotes_cons_of_ne hc]
      rfl

theorem takeWhile_escapeQuotes {p : Char → Bool} (hq : p '"' = false) (ha : p '&' = false)
    (t : Text) : (escapeQuotes t).takeWhile p = t.takeWhile p := by
  induction t with
  | nil => rfl
  | cons c t ih =>
    by_cases hc : c = '"'
    · subst hc
      simp [escapeQuotes_cons, hq, ha]
    · rw [escapeQuotes_cons_of_ne hc, List.takeWhile_cons, List.takeWhile_cons, ih]

theorem escapeQuotes_append_of_not_mem {s : Text} (h : '"' ∉ s) (t : Text) :
    escapeQuotes (s ++ t) = s ++ escapeQuotes t := by
  rw [escapeQuotes_append, escapeQuotes_eq_self h]

theorem drop_escapeQuotes {t : Text} {n : Nat} (h : '"' ∉ t.take n) :
    (escapeQuotes t).drop n = escapeQuotes (t.drop n) := by
  by_cases hn : n ≤ t.length
  · have he := escapeQuotes_append_of_not_mem h (t.drop n)
    rw [List.take_append_drop] at he
    rw [he, List.drop_left' (by simp [hn])]
  · rw [List.take_of_length_le (by omega)] at h
    rw [escapeQuotes_eq_self h, List.drop_of_length_le (by omega)]
    rfl

theorem not_mem_take_semicolon (t : Text) : '"' ∉ t.take (semicolon t) := by
  cases t with
  | nil => simp
  | cons c t =>
    by_cases hc : c = ';'
    · subst hc
      simp [semicolon]
    · simp [semicolon, hc]

theorem amp_not_mem_take_semicolon (t : Text) : '&' ∉ t.take (semicolon t) := by
  cases t with
  | nil => simp
  | cons c t =>
    by_cases hc : c = ';'
    · subst hc
      simp [semicolon]
    · simp [semicolon, hc]

theorem not_mem_takeWhile {p : Char → Bool} (hq : p '"' = false) (t : Text) :
    '"' ∉ t.takeWhile p := by
  intro hm
  have := List.mem_takeWhile_imp hm
  simp [hq] at this

theorem digits_escapeQuotes {p : Char → Bool} (hq : p '"' = false) (ha : p '&' = false)
    (t : Text) :
    (escapeQuotes t).takeWhile p = t.takeWhile p ∧
      semicolon ((escapeQuotes t).drop (t.takeWhile p).length) =
        semicolon (t.drop (t.takeWhile p).length) ∧
      '"' ∉ t.take ((t.takeWhile p).length + semicolon (t.drop (t.takeWhile p).length)) := by
  have hn := not_mem_takeWhile hq t
  have ht := take_takeWhile_length p t
  refine ⟨takeWhile_escapeQuotes hq ha t, ?_, ?_⟩
  · rw [drop_escapeQuotes (by rwa [ht]), semicolon_escapeQuotes]
  · rw [List.take_add, List.mem_append, not_or, ht]
    exact ⟨hn, not_mem_take_semicolon _⟩

theorem reference?_hash_escapeQuotes (r : Text) :
    reference? ('&' :: '#' :: escapeQuotes r) = reference? ('&' :: '#' :: r) ∧
      ∀ x n, reference? ('&' :: '#' :: r) = some (x, n) → '"' ∉ ('#' :: r).take n := by
  obtain ⟨h1, h2, h3⟩ := @digits_escapeQuotes Char.isDigit rfl rfl r
  by_cases hd : (r.takeWhile Char.isDigit).isEmpty = true
  · match r with
    | [] => exact ⟨rfl, by simp [reference?]⟩
    | x :: h =>
      by_cases hx : x = '"'
      · subst hx
        refine ⟨by simp [reference?, escapeQuotes_cons], by simp [reference?]⟩
      · obtain ⟨g1, g2, g3⟩ := @digits_escapeQuotes isHexDigit rfl rfl h
        rw [escapeQuotes_cons_of_ne hx] at h1 ⊢
        simp only [reference?, h1, hd, Bool.not_true, Bool.false_eq_true, if_false, g1, g2,
          true_and]
        intro y n hy
        split at hy
        · simp only [Option.some.injEq, Prod.mk.injEq] at hy
          rw [← hy.2, Nat.add_assoc, Nat.add_comm 2, List.take_succ_cons, List.take_succ_cons]
          simp [Ne.symm hx, g3]
        · simp at hy
  · simp only [reference?, h1, h2, hd, Bool.not_false, if_true, true_and]
    intro y n hy
    simp only [Option.some.injEq, Prod.mk.injEq] at hy
    rw [← hy.2, Nat.add_assoc, Nat.add_comm 1, List.take_succ_cons]
    simp [h3]

def nameRun (r : Text) : Text := (r.takeWhile isNameChar).take nameLimit

theorem reference?_name {r : Text} (h : r.head? ≠ some '#') :
    reference? ('&' :: r) =
      if (nameRun r).isEmpty then none
      else some (.named (r.take ((nameRun r).length + semicolon (r.drop (nameRun r).length))),
        (nameRun r).length + semicolon (r.drop (nameRun r).length)) := by
  rw [reference?.eq_def]
  split
  · rename_i r' he
    exact absurd (by rw [(List.cons.inj he).2]; rfl) h
  · rename_i r' he
    obtain rfl := (List.cons.inj he).2
    rfl
  · rename_i he
    exact absurd rfl (he r)

theorem nameRun_append {s : Text} (hs : ∀ c ∈ s, isNameChar c = true) (hl : s.length ≤ nameLimit)
    {t : Text} (h : s.length = nameLimit ∨ t.head?.all (!isNameChar ·) = true) :
    nameRun (s ++ t) = s := by
  rw [nameRun, List.takeWhile_append_of_pos hs]
  rcases h with h | h
  · rw [List.take_append_of_le_length (by omega), ← h, List.take_length]
  · have ht : t.takeWhile isNameChar = [] := by
      cases t with
      | nil => rfl
      | cons c t => simpa using h
    rw [ht, List.append_nil, List.take_of_length_le hl]

theorem exists_nameRun (r : Text) :
    ∃ u, r = nameRun r ++ u ∧ (∀ c ∈ nameRun r, isNameChar c = true) ∧
      (nameRun r).length ≤ nameLimit ∧
      ((nameRun r).length = nameLimit ∨ u.head?.all (!isNameChar ·) = true) := by
  have hp : nameRun r <+: r := (List.take_prefix _ _).trans (List.takeWhile_prefix _)
  obtain ⟨u, hu⟩ := hp
  refine ⟨u, hu.symm, fun c hc => List.mem_takeWhile_imp (List.mem_of_mem_take hc), ?_, ?_⟩
  · rw [nameRun, List.length_take]
    exact Nat.min_le_left _ _
  · by_cases hl : (nameRun r).length = nameLimit
    · exact .inl hl
    · refine .inr ?_
      have hw : nameRun r = r.takeWhile isNameChar := by
        rw [nameRun, List.take_of_length_le]
        simp only [nameRun, List.length_take] at hl
        omega
      have hd : u = r.dropWhile isNameChar := by
        have := List.takeWhile_append_dropWhile (p := isNameChar) (l := r)
        rw [← hw] at this
        exact List.append_cancel_left (hu.trans this.symm)
      rw [hd]
      cases hh : r.dropWhile isNameChar with
      | nil => rfl
      | cons c v =>
        have hne : r.dropWhile isNameChar ≠ [] := by simp [hh]
        have := List.head_dropWhile_not isNameChar hne
        simpa [hh] using this

theorem decode_named {name v : Text} (hc : ∀ c ∈ name, isNameChar c = true)
    (hl : name.length ≤ nameLimit) (hne : name ≠ [])
    (hv : decodeName (name ++ [';']) = v) (t : Text) :
    decode ('&' :: (name ++ ';' :: t)) = (decode t).map (v ++ ·) := by
  have hn : nameRun (name ++ ';' :: t) = name := nameRun_append hc hl (.inr rfl)
  have hh : (name ++ ';' :: t).head? ≠ some '#' := by
    cases name with
    | nil => exact absurd rfl hne
    | cons c name =>
      have := hc c List.mem_cons_self
      intro he
      obtain rfl := Option.some.inj he
      exact absurd this (by decide)
  have hr := reference?_name hh
  rw [hn, List.drop_left, show semicolon (';' :: t) = 1 from rfl, if_neg (by simpa using hne)] at hr
  have ht : (name ++ ';' :: t).take (name.length + 1) = name ++ [';'] := by
    rw [List.take_length_add_append]
    rfl
  have hd : (name ++ ';' :: t).drop (name.length + 1) = t := by
    rw [List.drop_length_add_append]
    rfl
  rw [decode_cons_some hr, ht, hd, Reference.decode, hv]
  rfl

theorem decode_quote (t : Text) :
    decode ("&quot;".toList ++ t) = (decode t).map ('"' :: ·) :=
  @decode_named "quot".toList ['"'] (List.all_eq_true.1 (by decide)) (by decide) (by decide)
    (by decide +kernel) t

theorem decode_escapeHtml (t : Text) : decode (escapeHtml t) = .ok t := by
  induction t with
  | nil => rfl
  | cons c t ih =>
    have hs : escapeHtml (c :: t) = escapedChar c ++ escapeHtml t := List.flatMap_cons
    rw [hs, escapedChar]
    split
    · rename_i hc
      have := @decode_named "amp".toList ['&'] (List.all_eq_true.1 (by decide)) (by decide)
        (by decide) (by decide +kernel) (escapeHtml t)
      rw [ih] at this
      rw [hc]
      exact this
    · split
      · rename_i hc
        have := @decode_named "lt".toList ['<'] (List.all_eq_true.1 (by decide)) (by decide)
          (by decide) (by decide +kernel) (escapeHtml t)
        rw [ih] at this
        rw [hc]
        exact this
      · split
        · rename_i hc
          have := @decode_named "gt".toList ['>'] (List.all_eq_true.1 (by decide)) (by decide)
            (by decide) (by decide +kernel) (escapeHtml t)
          rw [ih] at this
          rw [hc]
          exact this
        · split
          · rename_i hc
            have := decode_quote (escapeHtml t)
            rw [ih] at this
            rw [hc]
            exact this
          · rename_i ha _ _ _
            rw [List.singleton_append, decode_cons_none (reference?_of_ne ha _), ih]
            rfl

theorem decode_amp_of_not_mem {r : Text} (ih : ∀ n, decode (escapeQuotes (r.drop n)) =
      decode (r.drop n))
    (h : reference? ('&' :: escapeQuotes r) = reference? ('&' :: r))
    (hq : ∀ x n, reference? ('&' :: r) = some (x, n) → '"' ∉ r.take n) :
    decode ('&' :: escapeQuotes r) = decode ('&' :: r) := by
  cases hr : reference? ('&' :: r) with
  | none =>
    rw [decode_cons_none hr, decode_cons_none (h.trans hr), show escapeQuotes r =
      escapeQuotes (r.drop 0) from rfl, ih]
    rfl
  | some x =>
    obtain ⟨x, n⟩ := x
    rw [decode_cons_some hr, decode_cons_some (h.trans hr), drop_escapeQuotes (hq x n hr), ih]

theorem take_semicolon_escapeQuotes (t : Text) :
    (escapeQuotes t).take (semicolon t) = t.take (semicolon t) := by
  cases t with
  | nil => rfl
  | cons c t =>
    by_cases hc : c = ';'
    · subst hc
      rfl
    · simp [semicolon, hc]

theorem head?_escapeQuotes_ne {t : Text} (h : t.head? ≠ some '#') :
    (escapeQuotes t).head? ≠ some '#' := by
  cases t with
  | nil => exact h
  | cons c t =>
    by_cases hc : c = '"'
    · subst hc
      rw [escapeQuotes_cons, if_pos rfl]
      simp
    · rw [escapeQuotes_cons_of_ne hc]
      exact h

theorem reference?_escapeQuotes {r : Text} (h : r.head? ≠ some '#') (hq : '"' ∉ nameRun r) :
    reference? ('&' :: escapeQuotes r) = reference? ('&' :: r) ∧
      ∀ x n, reference? ('&' :: r) = some (x, n) → '"' ∉ r.take n := by
  obtain ⟨u, hu, hc, hl, he⟩ := exists_nameRun r
  generalize hs : nameRun r = s at *
  have hn : nameRun (escapeQuotes r) = s := by
    rw [hu, escapeQuotes_append_of_not_mem hq]
    refine nameRun_append hc hl (he.imp id fun hu' => ?_)
    cases u with
    | nil => rfl
    | cons c u =>
      have hcq : c ≠ '"' := by
        rintro rfl
        simp [isNameChar] at hu'
      rw [escapeQuotes_cons_of_ne hcq]
      exact hu'
  have hd : r.drop s.length = u := by rw [hu, List.drop_left]
  have hd' : (escapeQuotes r).drop s.length = escapeQuotes u := by
    rw [hu, escapeQuotes_append_of_not_mem hq, List.drop_left]
  have ht : r.take (s.length + semicolon u) = s ++ u.take (semicolon u) := by
    rw [List.take_add, hd, hu, List.take_left]
  have ht' : (escapeQuotes r).take (s.length + semicolon u) = s ++ u.take (semicolon u) := by
    rw [List.take_add, hd', take_semicolon_escapeQuotes, hu, escapeQuotes_append_of_not_mem hq,
      List.take_left]
  rw [reference?_name h, reference?_name (head?_escapeQuotes_ne h), hn, hs, hd, hd',
    semicolon_escapeQuotes, ht, ht']
  refine ⟨rfl, fun x n hx => ?_⟩
  split at hx
  · simp at hx
  · simp only [Option.some.injEq, Prod.mk.injEq] at hx
    rw [← hx.2, ht, List.mem_append, not_or]
    exact ⟨hq, not_mem_take_semicolon u⟩

theorem decode_before_quote {p : Text} (hp : ∀ c ∈ p, isNameChar c = true)
    (hl : p.length ≤ nameLimit) (t : Text) :
    decode ('&' :: (p ++ '&' :: t)) = (decode ('&' :: t)).map (decodeBeforeQuote p ++ ·) := by
  have hn : nameRun (p ++ '&' :: t) = p := nameRun_append hp hl (.inr rfl)
  have hh : (p ++ '&' :: t).head? ≠ some '#' := by
    cases p with
    | nil => simp
    | cons c p =>
      have := hp c List.mem_cons_self
      intro he
      obtain rfl := Option.some.inj he
      exact absurd this (by decide)
  have hr := reference?_name hh
  rw [hn, List.drop_left, show semicolon ('&' :: t) = 0 from rfl, Nat.add_zero,
    List.take_left] at hr
  cases p with
  | nil => exact decode_cons_none hr
  | cons c p =>
    rw [decode_cons_some hr, List.drop_left]
    rfl

theorem decode_amp_quote {r p q u : Text} (hh : r.head? ≠ some '#')
    (hr : r = p ++ '"' :: (q ++ u)) (hs : nameRun r = p ++ '"' :: q) (hp : '"' ∉ p)
    (hc : ∀ c ∈ nameRun r, isNameChar c = true) (hl : (nameRun r).length ≤ nameLimit)
    (ih : decode (escapeQuotes (q ++ u)) = decode (q ++ u)) :
    decode ('&' :: escapeQuotes r) = decode ('&' :: r) := by
  have hpc : ∀ c ∈ p, isNameChar c = true := fun c h => hc c (by simp [hs, h])
  have hpl : p.length ≤ nameLimit := by
    rw [hs, List.length_append] at hl
    omega
  have hqc : '&' ∉ q ++ u.take (semicolon u) := by
    rw [List.mem_append, not_or]
    refine ⟨fun hm => ?_, amp_not_mem_take_semicolon u⟩
    exact absurd (hc '&' (by simp [hs, hm])) (by decide)
  have hq : decode (q ++ u) =
      (decode (u.drop (semicolon u))).map ((q ++ u.take (semicolon u)) ++ ·) := by
    rw [← decode_append hqc, List.append_assoc, List.take_append_drop]
  have he : escapeQuotes r = p ++ '&' :: ("quot;".toList ++ escapeQuotes (q ++ u)) := by
    rw [hr, escapeQuotes_append_of_not_mem hp, escapeQuotes_cons, if_pos rfl]
    rfl
  have hru : r = (p ++ '"' :: q) ++ u := by
    rw [hr, List.append_assoc]
    rfl
  have hd : r.drop (nameRun r).length = u := by rw [hs, hru, List.drop_left]
  have hd' : r.drop ((nameRun r).length + semicolon u) = u.drop (semicolon u) := by
    rw [← List.drop_drop, hd]
  have ht : r.take ((nameRun r).length + semicolon u) =
      p ++ '"' :: (q ++ u.take (semicolon u)) := by
    rw [List.take_add, hd, hs, hru, List.take_left, List.append_assoc]
    rfl
  have hn := reference?_name hh
  rw [hd, ht, if_neg (by simp [hs])] at hn
  have hquote := decode_quote (escapeQuotes (q ++ u))
  rw [he, decode_before_quote hpc hpl, show '&' :: ("quot;".toList ++ escapeQuotes (q ++ u)) =
    "&quot;".toList ++ escapeQuotes (q ++ u) from rfl, hquote, ih, hq, decode_cons_some hn, hd',
    map_map, map_map, Reference.decode, decodeName_quote]
  simp [Except.bind]

theorem decode_escapeQuotes (t : Text) : decode (escapeQuotes t) = decode t := by
  match t with
  | [] => rfl
  | c :: r =>
    by_cases hc : c = '"'
    · subst hc
      rw [escapeQuotes_cons, if_pos rfl, decode_quote, decode_escapeQuotes r,
        decode_cons_none (reference?_of_ne (by decide) r)]
    · rw [escapeQuotes_cons_of_ne hc]
      by_cases ha : c = '&'
      · subst ha
        have ih (n : Nat) : decode (escapeQuotes (r.drop n)) = decode (r.drop n) :=
          decode_escapeQuotes (r.drop n)
        by_cases hh : r.head? = some '#'
        · obtain ⟨r', rfl⟩ : ∃ r', r = '#' :: r' := by
            cases r with
            | nil => simp at hh
            | cons d r' => exact ⟨r', by rw [Option.some.inj hh]⟩
          obtain ⟨h1, h2⟩ := reference?_hash_escapeQuotes r'
          refine decode_amp_of_not_mem ih ?_ h2
          rw [escapeQuotes_cons_of_ne (by decide)]
          exact h1
        · by_cases hq : '"' ∈ nameRun r
          · obtain ⟨u, hu, hc, hl, -⟩ := exists_nameRun r
            obtain ⟨p, q, hpq, hp⟩ := List.eq_append_cons_of_mem hq
            have hr : r = p ++ '"' :: (q ++ u) := by
              rw [hu, hpq, List.append_assoc]
              rfl
            have ihq := decode_escapeQuotes (q ++ u)
            exact decode_amp_quote hh hr hpq hp hc hl ihq
          · obtain ⟨h1, h2⟩ := reference?_escapeQuotes hh hq
            exact decode_amp_of_not_mem ih h1 h2
      · rw [decode_cons_none (reference?_of_ne ha _), decode_cons_none (reference?_of_ne ha _),
          decode_escapeQuotes r]
termination_by t.length
decreasing_by
  · simp
  · simp only [List.length_drop, List.length_cons]
    omega
  · rw [hr]
    simp
    omega
  · simp

end MailMarkup.Entity
