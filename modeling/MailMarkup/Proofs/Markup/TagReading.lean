import MailMarkup.Markup.Tag
import MailMarkup.Proofs.Text.Scanning

namespace MailMarkup.Markup

open Text

def Quoting.onward (q : Quoting) (c : Char) : Quoting :=
  match q with
  | inside d => if c = d then outside false else inside d
  | outside e => if e && isQuote c then inside c else outside (c == '=' || (e && isBlank c))

def Quoting.losesQuote : Quoting → Char → Text → Bool
  | outside true, c, r => isQuote c && !r.contains c
  | _, _, _ => false

theorem Quoting.next_eq_onward {q : Quoting} {c : Char} {r : Text}
    (h : q.losesQuote c r = false) : q.next c r = q.onward c := by
  cases q with
  | inside d => rfl
  | outside e =>
    cases e with
    | false => simp [next, onward]
    | true =>
      by_cases hq : isQuote c = true
      · have hm : r.contains c = true := by simpa [losesQuote, hq] using h
        simp only [next, onward, hq, hm, Bool.and_self, if_true]
      · simp [next, onward, hq]

def isSealed : Quoting → Text → Bool
  | .outside _, [] => true
  | .inside _, [] => false
  | q, c :: r => !q.endsTag c && isSealed (q.onward c) r

theorem isSealed_cons (q : Quoting) (c : Char) (r : Text) :
    isSealed q (c :: r) = (!q.endsTag c && isSealed (q.onward c) r) := by
  cases q <;> rfl

theorem mem_of_isSealed_inside {d : Char} {b : Text} (h : isSealed (.inside d) b = true) :
    d ∈ b := by
  induction b with
  | nil => simp [isSealed] at h
  | cons c r ih =>
    by_cases hc : c = d
    · simp [hc]
    · simp only [isSealed_cons, Quoting.onward, hc, if_false, Bool.and_eq_true] at h
      exact List.mem_cons_of_mem _ (ih h.2)

theorem losesQuote_of_isSealed {q : Quoting} {c : Char} {r : Text}
    (h : isSealed (q.onward c) r = true) (rest : Text) : q.losesQuote c (r ++ rest) = false := by
  cases q with
  | inside d => rfl
  | outside e =>
    cases e with
    | false => rfl
    | true =>
      by_cases hq : isQuote c = true
      · have hm : c ∈ r := mem_of_isSealed_inside (by simpa [Quoting.onward, hq] using h)
        simp [Quoting.losesQuote, hm]
      · simp [Quoting.losesQuote, hq]

theorem body?_of_isSealed {q : Quoting} {b : Text} (h : isSealed q b = true) (rest : Text) :
    body? q (b ++ '>' :: rest) = some b := by
  induction b generalizing q with
  | nil =>
    cases q with
    | outside e => simp [body?, Quoting.endsTag]
    | inside d => simp [isSealed] at h
  | cons c r ih =>
    simp only [isSealed_cons, Bool.and_eq_true, Bool.not_eq_true'] at h
    obtain ⟨he, hr⟩ := h
    rw [List.cons_append, body?, he, Quoting.next_eq_onward (losesQuote_of_isSealed hr _), ih hr]
    rfl

theorem exists_of_body? {q : Quoting} {t b : Text} (h : body? q t = some b) :
    ∃ rest, t = b ++ '>' :: rest := by
  induction t generalizing q b with
  | nil => simp [body?] at h
  | cons c r ih =>
    simp only [body?] at h
    split at h
    · rename_i he
      cases q with
      | inside d => simp [Quoting.endsTag] at he
      | outside e =>
        simp only [Quoting.endsTag, beq_iff_eq] at he
        simp only [Option.some.injEq] at h
        exact ⟨r, by simp [he, ← h]⟩
    · obtain ⟨b', hb, rfl⟩ := Option.map_eq_some_iff.1 h
      obtain ⟨rest, rfl⟩ := ih hb
      exact ⟨rest, rfl⟩

def fallsBack (q : Quoting) : Text → Bool
  | [] => true
  | c :: r => !q.endsTag c && (q.losesQuote c r || fallsBack (q.next c r) r)

theorem fallsBack_of_body?_none {q : Quoting} {t : Text} (h : body? q t = none) :
    fallsBack q t = true := by
  induction t generalizing q with
  | nil => rfl
  | cons c r ih =>
    simp only [body?] at h
    split at h
    · simp at h
    · rename_i he
      simp only [Option.map_eq_none_iff] at h
      simp [fallsBack, he, ih h]

theorem isSealed_of_body? {q : Quoting} {t b : Text} (h : body? q t = some b)
    (hf : fallsBack q t = false) : isSealed q b = true := by
  induction t generalizing q b with
  | nil => simp [body?] at h
  | cons c r ih =>
    simp only [body?] at h
    split at h
    · rename_i he
      cases q with
      | inside d => simp [Quoting.endsTag] at he
      | outside e => simp only [Option.some.injEq] at h; subst h; rfl
    · rename_i he
      obtain ⟨b', hb, rfl⟩ := Option.map_eq_some_iff.1 h
      simp only [fallsBack, he, Bool.not_false, Bool.true_and, Bool.or_eq_false_iff] at hf
      have hs := ih hb hf.2
      rw [Quoting.next_eq_onward hf.1] at hs
      simp [isSealed_cons, he, hs]

def startsName (t : Text) : Bool :=
  (t.takeWhile isNameChar).head?.any isNameStart && endsName (t.dropWhile isNameChar)

def tagStart? : Text → Option (Bool × Text)
  | '<' :: '/' :: r => if startsName r then some (true, r) else none
  | '<' :: r => if startsName r then some (false, r) else none
  | _ => none

theorem tagBehind?_of_not_startsName {closing : Bool} {t : Text} (h : startsName t = false) :
    tagBehind? closing t = none := by
  simp only [startsName] at h
  simp [tagBehind?, h]

theorem tag?_of_tagStart?_none {t : Text} (h : tagStart? t = none) : tag? t = none := by
  unfold tagStart? at h
  split at h
  · split at h
    · simp at h
    · rename_i hs
      simp [tag?, tagBehind?_of_not_startsName (Bool.not_eq_true _ ▸ hs)]
  · rename_i h1
    split at h
    · simp at h
    · rename_i hs
      rw [tag?.eq_2 _ h1, tagBehind?_of_not_startsName (Bool.not_eq_true _ ▸ hs)]
  · rename_i h1 h2
    exact tag?.eq_3 t h1 h2

def fallsBackAt (t : Text) : Bool :=
  (tagStart? t).any fun s => fallsBack (.outside false) (s.2.dropWhile isNameChar)

inductive SameToAngle : Text → Text → Prop
  | nil : SameToAngle [] []
  | angle (r r' : Text) : SameToAngle ('<' :: r) ('<' :: r')
  | cons (c : Char) {r r' : Text} : SameToAngle r r' → SameToAngle (c :: r) (c :: r')

theorem SameToAngle.takeWhile {t u : Text} (h : SameToAngle t u) {p : Char → Bool}
    (hp : p '<' = false) : t.takeWhile p = u.takeWhile p := by
  induction h with
  | nil => rfl
  | angle r r' => simp [hp]
  | cons c _ ih => simp only [List.takeWhile_cons, ih]

theorem SameToAngle.head?_dropWhile {t u : Text} (h : SameToAngle t u) {p : Char → Bool}
    (hp : p '<' = false) : (t.dropWhile p).head? = (u.dropWhile p).head? := by
  induction h with
  | nil => rfl
  | angle r r' => simp [hp]
  | cons c _ ih =>
    simp only [List.dropWhile_cons]
    split
    · exact ih
    · rfl

theorem SameToAngle.startsName {t u : Text} (h : SameToAngle t u) :
    Markup.startsName t = Markup.startsName u := by
  have hp : isNameChar '<' = false := by decide
  simp only [Markup.startsName, endsName, h.takeWhile hp, h.head?_dropWhile hp]

theorem SameToAngle.tagStart?_none {c : Char} {t u : Text} (h : SameToAngle t u)
    (hn : Markup.tagStart? (c :: t) = none) : Markup.tagStart? (c :: u) = none := by
  by_cases hc : c = '<'
  · subst hc
    cases h with
    | nil => exact hn
    | angle r r' => simp [Markup.tagStart?, Markup.startsName, isNameChar]
    | @cons d t u h =>
      by_cases hd : d = '/'
      · subst hd
        simpa [Markup.tagStart?, h.startsName] using hn
      · simpa [Markup.tagStart?, hd, (SameToAngle.cons d h).startsName] using hn
  · simp [Markup.tagStart?, hc]

theorem SameToAngle.comment?_none {c : Char} {t u : Text} (h : SameToAngle t u)
    (hn : comment? (c :: t) = none) : comment? (c :: u) = none := by
  unfold comment?
  split
  · rename_i r he
    obtain ⟨rfl, rfl⟩ := List.cons.inj he
    cases h with | cons _ h => cases h with | cons _ h => cases h with | cons _ h =>
    simp [comment?] at hn
  · rfl

theorem tag?_of_tagStart? {t r : Text} {closing : Bool} (h : tagStart? t = some (closing, r)) :
    tag? t = (body? (.outside false) (r.dropWhile isNameChar)).map fun body =>
      (.ofBody closing (r.takeWhile isNameChar) body,
        (r.takeWhile isNameChar).length + body.length + 1 + closing.toNat) := by
  unfold tagStart? at h
  split at h
  · split at h
    · rename_i hs
      simp only [Option.some.injEq, Prod.mk.injEq] at h
      obtain ⟨rfl, rfl⟩ := h
      simp only [startsName] at hs
      simp [tag?, tagBehind?, hs, Function.comp_def]
    · simp at h
  · split at h
    · rename_i hs
      simp only [Option.some.injEq, Prod.mk.injEq] at h
      obtain ⟨rfl, rfl⟩ := h
      simp only [startsName] at hs
      simp [tag?, tagBehind?, hs]
    · simp at h
  · simp at h

theorem comment?_of_tagStart? {t r : Text} {closing : Bool}
    (h : tagStart? t = some (closing, r)) : comment? t = none := by
  unfold comment?
  split
  · simp [tagStart?, startsName, isNameChar] at h
  · rfl

theorem tagStart?_none_of_tag?_none {t : Text} (h : tag? t = none)
    (hf : fallsBackAt t = false) : tagStart? t = none := by
  cases hs : tagStart? t with
  | none => rfl
  | some s =>
    obtain ⟨closing, r⟩ := s
    simp only [fallsBackAt, hs, Option.any_some] at hf
    rw [tag?_of_tagStart? hs, Option.map_eq_none_iff] at h
    simp [fallsBack_of_body?_none h] at hf

theorem SameToAngle.lexeme?_none {c : Char} {t u : Text} (h : SameToAngle t u)
    (hl : lexeme? (c :: t) = none) (hf : fallsBackAt (c :: t) = false) :
    lexeme? (c :: u) = none := by
  cases hc : comment? (c :: t) with
  | some x => simp [lexeme?, hc] at hl
  | none =>
    simp only [lexeme?, hc, Option.map_eq_none_iff] at hl
    have hu := h.tagStart?_none (tagStart?_none_of_tag?_none hl hf)
    simp [lexeme?, h.comment?_none hc, tag?_of_tagStart?_none hu]

def tagText (closing : Bool) (name body : Text) : Text :=
  '<' :: ((if closing then '/' :: name else name) ++ body ++ ['>'])

def isName (name : Text) : Bool := name.head?.any isNameStart && name.all isNameChar

structure IsTag (name body : Text) : Prop where
  name_ok : isName name = true
  ends : endsName (body ++ ['>']) = true
  sealed : isSealed (.outside false) body = true

theorem isUpper_iff {c : Char} : c.isUpper = true ↔ 65 ≤ c.toNat ∧ c.toNat ≤ 90 :=
  decide_eq_true_iff

theorem isLower_iff {c : Char} : c.isLower = true ↔ 97 ≤ c.toNat ∧ c.toNat ≤ 122 :=
  (Bool.and_eq_true_iff (x := decide (c.val ≥ 'a'.val))).trans
    (and_congr decide_eq_true_iff decide_eq_true_iff)

theorem isDigit_iff {c : Char} : c.isDigit = true ↔ 48 ≤ c.toNat ∧ c.toNat ≤ 57 :=
  (Bool.and_eq_true_iff (x := decide (c.val ≥ '0'.val))).trans
    (and_congr decide_eq_true_iff decide_eq_true_iff)

theorem isAlpha_iff {c : Char} : c.isAlpha = true ↔
    (65 ≤ c.toNat ∧ c.toNat ≤ 90) ∨ (97 ≤ c.toNat ∧ c.toNat ≤ 122) :=
  (Bool.or_eq_true_iff (x := c.isUpper)).trans (or_congr isUpper_iff isLower_iff)

theorem isNameChar_iff {c : Char} : isNameChar c = true ↔
    (((65 ≤ c.toNat ∧ c.toNat ≤ 90) ∨ (97 ≤ c.toNat ∧ c.toNat ≤ 122)) ∨
      (48 ≤ c.toNat ∧ c.toNat ≤ 57)) ∨ c = ':' ∨ c = '_' ∨ c = '-' := by
  have hn : c.isAlphanum = true ↔ c.isAlpha = true ∨ c.isDigit = true := Bool.or_eq_true_iff
  rw [isNameChar, Bool.or_eq_true, Bool.or_eq_true, Bool.or_eq_true, hn, isAlpha_iff, isDigit_iff,
    beq_iff_eq, beq_iff_eq, beq_iff_eq, or_assoc, or_assoc]

theorem lt_of_isNameChar {c : Char} (h : isNameChar c = true) : c.toNat < 128 := by
  rcases isNameChar_iff.1 h with ((h | h) | h) | rfl | rfl | rfl
  · omega
  · omega
  · omega
  · decide
  · decide
  · decide

theorem not_isNameChar_of_isBlank {c : Char} (h : isBlank c = true) : isNameChar c = false := by
  simp only [isBlank, inRanges, blankRanges, List.any_cons, List.any_nil, Bool.or_eq_true,
    Bool.and_eq_true, decide_eq_true_eq, Bool.or_false] at h
  rw [← Bool.not_eq_true, isNameChar_iff]
  rintro (((_ | _) | _) | rfl | rfl | rfl)
  · omega
  · omega
  · omega
  · revert h
    decide
  · revert h
    decide
  · revert h
    decide

theorem not_isNameChar_of_endsName {c : Char} {t : Text} (h : endsName (c :: t) = true) :
    isNameChar c = false := by
  simp only [endsName, List.head?_cons, Option.any_some, Bool.or_eq_true, beq_iff_eq] at h
  rcases h with (h | rfl) | rfl
  · exact not_isNameChar_of_isBlank h
  · decide
  · decide

theorem endsName_append {t : Text} (h : endsName t = true) (rest : Text) :
    endsName (t ++ rest) = true := by
  cases t with
  | nil => simp [endsName] at h
  | cons c t => exact h

theorem takeWhile_name {name t : Text} (hn : isName name = true) (ht : endsName t = true) :
    (name ++ t).takeWhile isNameChar = name ∧ (name ++ t).dropWhile isNameChar = t := by
  simp only [isName, Bool.and_eq_true, List.all_eq_true] at hn
  cases t with
  | nil => simp [endsName] at ht
  | cons c t =>
    have hc := not_isNameChar_of_endsName ht
    rw [List.takeWhile_append_of_pos hn.2, List.dropWhile_append_of_pos hn.2]
    simp [hc]

theorem startsName_append {name t : Text} (hn : isName name = true) (ht : endsName t = true) :
    startsName (name ++ t) = true := by
  obtain ⟨h1, h2⟩ := takeWhile_name hn ht
  simp only [isName, Bool.and_eq_true] at hn
  simp [startsName, h1, h2, hn.1, ht]

theorem isName_cons {c : Char} {name : Text} (h : isName (c :: name) = true) :
    isNameStart c = true := by
  simp only [isName, List.head?_cons, Option.any_some, Bool.and_eq_true] at h
  exact h.1

theorem tagStart?_tagText {closing : Bool} {name body : Text} (h : IsTag name body)
    (rest : Text) :
    tagStart? (tagText closing name body ++ rest) =
      some (closing, name ++ (body ++ '>' :: rest)) := by
  have ht : endsName (body ++ '>' :: rest) = true := by
    simpa using endsName_append h.ends rest
  have hs := startsName_append h.name_ok ht
  cases closing with
  | true => simp [tagText, tagStart?, hs]
  | false =>
    obtain ⟨c, n, rfl⟩ : ∃ c n, name = c :: n := by
      cases hn : name with
      | nil => have := h.name_ok; simp [hn, isName] at this
      | cons c n => exact ⟨c, n, rfl⟩
    have hc : c ≠ '/' := by
      rintro rfl
      exact absurd (isName_cons h.name_ok) (by decide)
    simpa [tagText, tagStart?, hc] using hs

theorem lexeme?_tagText {closing : Bool} {name body : Text} (h : IsTag name body)
    (rest : Text) :
    lexeme? (tagText closing name body ++ rest) =
      some (.tag (.ofBody closing name body), (tagText closing name body).length - 1) := by
  have ht : endsName (body ++ '>' :: rest) = true := by
    simpa using endsName_append h.ends rest
  obtain ⟨h1, h2⟩ := takeWhile_name h.name_ok ht
  have hs := @tagStart?_tagText closing _ _ h rest
  have hb := body?_of_isSealed h.sealed rest
  simp only [lexeme?, comment?_of_tagStart? hs, tag?_of_tagStart? hs, h1, h2, hb]
  cases closing <;> simp [tagText] <;> omega

theorem eq_of_tagStart? {t r : Text} {closing : Bool} (h : tagStart? t = some (closing, r)) :
    t = '<' :: (if closing then '/' :: r else r) ∧ startsName r = true := by
  unfold tagStart? at h
  split at h
  · split at h
    · rename_i hs
      simp only [Option.some.injEq, Prod.mk.injEq] at h
      obtain ⟨rfl, rfl⟩ := h
      exact ⟨rfl, hs⟩
    · simp at h
  · split at h
    · rename_i hs
      simp only [Option.some.injEq, Prod.mk.injEq] at h
      obtain ⟨rfl, rfl⟩ := h
      exact ⟨rfl, hs⟩
    · simp at h
  · simp at h

theorem tag?_of_lexeme? {t : Text} {k : Tag} {n : Nat} (h : lexeme? t = some (.tag k, n)) :
    tag? t = some (k, n) := by
  unfold lexeme? at h
  split at h
  · simp at h
  · obtain ⟨a, ha, he⟩ := Option.map_eq_some_iff.1 h
    simp only [Prod.mk.injEq, Lexeme.tag.injEq] at he
    rw [ha, ← he.1, ← he.2]

theorem exists_tagText {t : Text} {k : Tag} {n : Nat} (h : lexeme? t = some (.tag k, n)) :
    ∃ closing name body rest, isName name = true ∧ k = .ofBody closing name body ∧
      t = tagText closing name body ++ rest ∧ n + 1 = (tagText closing name body).length ∧
      (fallsBackAt t = false → IsTag name body) := by
  have ht := tag?_of_lexeme? h
  cases hs : tagStart? t with
  | none => simp [tag?_of_tagStart?_none hs] at ht
  | some s =>
    obtain ⟨closing, r⟩ := s
    obtain ⟨rfl, hr⟩ := eq_of_tagStart? hs
    rw [tag?_of_tagStart? hs, Option.map_eq_some_iff] at ht
    obtain ⟨body, hb, he⟩ := ht
    obtain ⟨rest, hrest⟩ := exists_of_body? hb
    obtain ⟨rfl, rfl⟩ := Prod.mk.inj he
    simp only [startsName, Bool.and_eq_true] at hr
    have hname : isName (r.takeWhile isNameChar) = true := by simp [isName, hr.1]
    have hsplit : r = r.takeWhile isNameChar ++ (body ++ '>' :: rest) := by
      rw [← hrest, List.takeWhile_append_dropWhile]
    refine ⟨closing, r.takeWhile isNameChar, body, rest, hname, rfl, ?_, ?_, fun hf => ?_⟩
    · cases closing
      · simpa [tagText] using hsplit
      · simpa [tagText] using hsplit
    · cases closing <;> simp [tagText] <;> omega
    · simp only [fallsBackAt, hs, Option.any_some] at hf
      have hends := hr.2
      rw [hrest] at hends
      exact ⟨hname, by cases body <;> exact hends, isSealed_of_body? hb hf⟩

def endsComment : Text → Bool
  | [] => false
  | c :: r => if "-->".toList.isPrefixOf (c :: r) then r.length == 2 else endsComment r

def commentText (inner : Text) : Text := "<!--".toList ++ inner

theorem length_of_endsComment {s : Text} (h : endsComment s = true) : 3 ≤ s.length := by
  induction s with
  | nil => simp [endsComment] at h
  | cons c r ih =>
    simp only [endsComment] at h
    split at h
    · simp only [beq_iff_eq] at h
      simp [h]
    · have := ih h
      simp only [List.length_cons]
      omega

theorem isPrefixOf_append {p s : Text} (h : p.length ≤ s.length) (rest : Text) :
    p.isPrefixOf (s ++ rest) = p.isPrefixOf s := by
  induction p generalizing s with
  | nil => simp
  | cons x p ih =>
    cases s with
    | nil => simp at h
    | cons c s =>
      simp only [List.cons_append, List.isPrefixOf_cons_cons]
      rw [ih (by simpa using h)]

theorem commentLength_append {s : Text} (h : endsComment s = true) (rest : Text) :
    commentLength (s ++ rest) = s.length := by
  induction s with
  | nil => simp [endsComment] at h
  | cons c r ih =>
    have hlen := length_of_endsComment h
    have hp := isPrefixOf_append (p := "-->".toList) (s := c :: r) hlen rest
    simp only [endsComment] at h
    rw [List.cons_append] at hp
    simp only [List.cons_append, commentLength, hp]
    split at h
    · rename_i hc
      rw [if_pos hc, List.length_cons, beq_iff_eq.1 h]
    · rename_i hc
      rw [if_neg hc, ih h, List.length_cons]

theorem endsComment_take {t : Text} (h : commentLength t < t.length) :
    endsComment (t.take (commentLength t)) = true := by
  induction t with
  | nil => simp at h
  | cons c r ih =>
    simp only [commentLength] at h ⊢
    split at h
    · rename_i hp
      obtain ⟨u, hu⟩ := List.isPrefixOf_iff_prefix.1 hp
      rw [if_pos hp, ← hu]
      rfl
    · rename_i hp
      rw [if_neg hp, List.take_succ_cons, endsComment]
      have hn : ¬ "-->".toList.isPrefixOf (c :: r.take (commentLength r)) = true := by
        intro hq
        refine hp (List.isPrefixOf_iff_prefix.2 ((List.isPrefixOf_iff_prefix.1 hq).trans ?_))
        rw [← List.take_succ_cons]
        exact List.take_prefix _ _
      rw [if_neg hn]
      exact ih (by simpa using h)

theorem lexeme?_commentText {inner : Text} (h : endsComment inner = true) (rest : Text) :
    lexeme? (commentText inner ++ rest) = some (.comment, (commentText inner).length - 1) := by
  have hc := commentLength_append h rest
  simp [commentText, lexeme?, comment?, hc]
  omega

theorem lexeme?_comment {t : Text} {n : Nat} (h : lexeme? t = some (.comment, n)) :
    ∃ r, t = commentText r ∧ n = 3 + commentLength r := by
  unfold lexeme? at h
  split at h
  · rename_i hc
    unfold comment? at hc
    split at hc
    · rename_i r
      refine ⟨r, rfl, ?_⟩
      simp only [Option.some.injEq, Prod.mk.injEq, true_and] at hc h
      exact h ▸ hc.symm
    · simp at hc
  · obtain ⟨a, -, he⟩ := Option.map_eq_some_iff.1 h
    simp at he

theorem exists_angle_of_lexeme? {c : Char} {r : Text} {x : Lexeme × Nat}
    (h : lexeme? (c :: r) = some x) : c = '<' := by
  by_contra hc
  have h1 : comment? (c :: r) = none := by
    unfold comment?
    split
    · rename_i he
      exact absurd (List.cons.inj he).1 hc
    · rfl
  have h2 : tag? (c :: r) = none := tag?_of_tagStart?_none (by simp [tagStart?, hc])
  simp [lexeme?, h1, h2] at h

theorem lexemes_tagText {closing : Bool} {name body : Text} (h : IsTag name body) (rest : Text) :
    lexemes (tagText closing name body ++ rest) =
      .hit (.tag (.ofBody closing name body)) (tagText closing name body) :: lexemes rest :=
  scan_append (by simp [tagText]) (lexeme?_tagText h rest)

theorem lexemes_commentText {inner : Text} (h : endsComment inner = true) (rest : Text) :
    lexemes (commentText inner ++ rest) = .hit .comment (commentText inner) :: lexemes rest :=
  scan_append (by simp [commentText]) (lexeme?_commentText h rest)

theorem lexemes_char {c : Char} {r : Text} (h : lexeme? (c :: r) = none) :
    lexemes (c :: r) = .char c :: lexemes r :=
  scan_cons_none h

end MailMarkup.Markup
