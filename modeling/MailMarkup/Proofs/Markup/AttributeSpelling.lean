import MailMarkup.Proofs.Markup.AttributeReading
import MailMarkup.Proofs.Spacing.Respacing

namespace MailMarkup.Markup

open Text

abbrev Blanks := { t : Text // t.all isBlank = true }

abbrev BareValue := { v : Text // v.all Attributes.isBareChar = true ∧ v ≠ [] }

abbrev QuoteMark := { q : Char // isQuote q = true }

inductive Spelling where
  | bare
  | unquoted (before after : Blanks) (value : BareValue)
  | quoted (before after : Blanks) (quote : QuoteMark) (value : { v : Text // quote.1 ∉ v })

namespace Spelling

def text : Spelling → Text
  | bare => []
  | unquoted b a v => b.1 ++ '=' :: (a.1 ++ v.1)
  | quoted b a q v => b.1 ++ '=' :: (a.1 ++ q.1 :: (v.1 ++ [q.1]))

def value : Spelling → Option Text
  | bare => none
  | unquoted _ _ v => some v.1
  | quoted _ _ _ v => some v.1

def endsInSlash : Spelling → Bool
  | unquoted _ _ v => v.1.getLast? == some '/'
  | _ => false

end Spelling

structure Spelled where
  gap : { t : Text // t.all isBlank = true ∧ t ≠ [] }
  name : { n : Text // Attributes.isLegalName n = true }
  spelling : Spelling

namespace Spelled

def body (a : Spelled) : Text := a.name.1 ++ a.spelling.text

def text (a : Spelled) : Text := a.gap.1 ++ a.body

def toAttribute (a : Spelled) : Attribute := ⟨a.name.1, a.spelling.value⟩

end Spelled

def texts (as : List Spelled) : Text := as.flatMap Spelled.text

theorem texts_cons (a : Spelled) (as : List Spelled) : texts (a :: as) = a.text ++ texts as := rfl

theorem isSealed_blanks {e : Bool} {b : Text} (hb : b.all isBlank = true) (t : Text) :
    isSealed (.outside e) (b ++ t) = isSealed (.outside e) t := by
  induction b with
  | nil => rfl
  | cons c b ih =>
    simp only [List.all_cons, Bool.and_eq_true] at hb
    rw [List.cons_append, isSealed_blank (q := .outside e) trivial hb.1, ih hb.2]

theorem isBareChar_iff {c : Char} : Attributes.isBareChar c = true ↔
    isBlank c = false ∧ isQuote c = false ∧ c ≠ '=' ∧ c ≠ '<' ∧ c ≠ '>' ∧ c ≠ '\x60' := by
  simp [Attributes.isBareChar, isQuote, and_assoc]

theorem isSealed_bareValue {e : Bool} {v : Text} (h : v.all Attributes.isBareChar = true)
    (hv : v ≠ []) (t : Text) :
    isSealed (.outside e) (v ++ t) = isSealed (.outside false) t := by
  induction v generalizing e with
  | nil => exact absurd rfl hv
  | cons c v ih =>
    simp only [List.all_cons, Bool.and_eq_true] at h
    obtain ⟨hb, hq, he, -, hg, -⟩ := isBareChar_iff.1 h.1
    have ho : Quoting.onward (.outside e) c = .outside false := by
      simp [Quoting.onward, hb, hq, he]
    have hend : (Quoting.outside e).endsTag c = false := by simp [Quoting.endsTag, hg]
    rw [List.cons_append, isSealed_cons, ho, hend, Bool.not_false, Bool.true_and]
    cases v with
    | nil => rfl
    | cons d v => exact ih h.2 (by simp)

theorem isSealed_equals {b : Text} (hb : b.all isBlank = true) (t : Text) :
    isSealed (.outside false) (b ++ '=' :: t) = isSealed (.outside true) t := by
  rw [isSealed_blanks hb]
  rfl

theorem Spelling.isSealed_text (s : Spelling) (t : Text) :
    isSealed (.outside false) (s.text ++ t) = isSealed (.outside false) t := by
  cases s with
  | bare => rfl
  | unquoted b a v =>
    rw [Spelling.text, List.append_assoc, List.cons_append, isSealed_equals b.2, List.append_assoc,
      isSealed_blanks a.2, isSealed_bareValue v.2.1 v.2.2]
  | quoted b a q v =>
    have ho : Quoting.onward (.outside true) q.1 = .inside q.1 := by simp [Quoting.onward, q.2]
    have hend : (Quoting.outside true).endsTag q.1 = false := by
      simp only [Quoting.endsTag, beq_eq_false_iff_ne]
      intro hg
      have := q.2
      rw [hg] at this
      cases this
    rw [Spelling.text, List.append_assoc, List.cons_append, isSealed_equals b.2, List.append_assoc,
      isSealed_blanks a.2, List.cons_append, isSealed_cons, ho, hend, List.append_assoc]
    exact Attributes.isSealed_quoted v.2 t

theorem isSealed_texts (as : List Spelled) : isSealed (.outside false) (texts as) = true := by
  induction as with
  | nil => rfl
  | cons a as ih =>
    rw [texts_cons, Spelled.text, Spelled.body, List.append_assoc, List.append_assoc,
      isSealed_blanks a.gap.2.1, Attributes.isSealed_name a.name.2,
      a.spelling.isSealed_text, ih]

theorem isTag_texts (name : { n : Text // isName n = true }) (as : List Spelled) :
    IsTag name.1 (texts as) where
  name_ok := name.2
  ends := by
    cases as with
    | nil => rfl
    | cons a as =>
      obtain ⟨⟨b, hb, hne⟩, n, s⟩ := a
      obtain ⟨c, b, rfl⟩ := List.exists_cons_of_ne_nil hne
      simp only [List.all_cons, Bool.and_eq_true] at hb
      simp [texts_cons, Spelled.text, endsName, hb.1]
  sealed := isSealed_texts as

namespace Attributes

structure Separates (t : Text) : Prop where
  blank : t.head?.all isBlank = true
  equals : (t.dropWhile isBlank).head? ≠ some '='

theorem Separates.endsAttribute {t : Text} (h : Separates t) : EndsAttribute t where
  name := by
    cases t with
    | nil => rfl
    | cons c t =>
      have hc : isBlank c = true := by simpa using h.blank
      simp [isNameChar, hc]
  value := h.equals

theorem takeWhile_blanks {b t : Text} (hb : b.all isBlank = true)
    (ht : t.head?.all (!isBlank ·) = true) : (b ++ t).takeWhile isBlank = b := by
  rw [List.takeWhile_append_of_pos (List.all_eq_true.1 hb)]
  cases t with
  | nil => simp
  | cons c t =>
    have hc : isBlank c = false := by simpa using ht
    simp [hc]

theorem assigned?_equals {b a x : Text} (hb : b.all isBlank = true) (ha : a.all isBlank = true)
    (hx : x.head?.all (!isBlank ·) = true) :
    assigned? (b ++ '=' :: (a ++ x)) =
      (value? x).map fun v => (v.1, b.length + 1 + a.length + v.2) := by
  simp only [assigned?, takeWhile_blanks hb (t := '=' :: (a ++ x)) rfl, List.drop_left,
    takeWhile_blanks ha hx]

theorem value?_bare {v t : Text} (hv : v.all isBareChar = true) (hne : v ≠ [])
    (ht : Separates t) : value? (v ++ t) = some (v, v.length) := by
  have htake : (v ++ t).takeWhile isBareChar = v := by
    rw [List.takeWhile_append_of_pos (List.all_eq_true.1 hv)]
    cases t with
    | nil => simp
    | cons c t =>
      have hc : isBlank c = true := by simpa using ht.blank
      simp [isBareChar, hc]
  obtain ⟨c, v, rfl⟩ := List.exists_cons_of_ne_nil hne
  simp only [List.all_cons, Bool.and_eq_true] at hv
  rw [List.cons_append] at htake ⊢
  simp [value?, (isBareChar_iff.1 hv.1).2.1, htake]

theorem value?_quoted (q : QuoteMark) {v : Text} (hv : q.1 ∉ v) (t : Text) :
    value? (q.1 :: (v ++ q.1 :: t)) = some (v, v.length + 2) := by
  simp [value?, q.2, quotedValue?, takeWhile_ne_append hv]

theorem head?_bareValue {v t : Text} (hv : v.all isBareChar = true) (hne : v ≠ []) :
    (v ++ t).head?.all (!isBlank ·) = true := by
  obtain ⟨c, v, rfl⟩ := List.exists_cons_of_ne_nil hne
  simp only [List.all_cons, Bool.and_eq_true] at hv
  simp [(isBareChar_iff.1 hv.1).1]

theorem eq_quote (q : QuoteMark) : q.1 = '"' ∨ q.1 = '\'' := by
  rcases Bool.or_eq_true_iff.1 q.2 with h | h
  · exact .inl (beq_iff_eq.1 h)
  · exact .inr (beq_iff_eq.1 h)

theorem isBlank_quote (q : QuoteMark) : isBlank q.1 = false := by
  rcases eq_quote q with h | h <;> rw [h] <;> rfl

theorem quote_ne_slash (q : QuoteMark) : (q.1 == '/') = false := by
  rcases eq_quote q with h | h <;> rw [h] <;> rfl

theorem head?_quoted (q : QuoteMark) (t : Text) : (q.1 :: t).head?.all (!isBlank ·) = true := by
  simp [isBlank_quote q]

theorem attribute?_name {n t : Text} (hn : isLegalName n = true)
    (ht : t.head?.all (!isNameChar ·) = true) :
    attribute? (n ++ t) = some (match assigned? t with
      | some (v, k) => (⟨n, some v⟩, n.length + k - 1)
      | none => (⟨n, none⟩, n.length - 1)) := by
  have hne : n.isEmpty = false := by
    simp only [isLegalName, Bool.and_eq_true, Bool.not_eq_true'] at hn
    exact hn.1
  simp only [attribute?, takeWhile_legalName hn ht, hne, List.drop_left]
  cases assigned? t <;> rfl

theorem not_isNameChar_of_isBlank {c : Char} (h : isBlank c = true) : isNameChar c = false := by
  simp [isNameChar, h]

theorem head?_equals {b : Text} (hb : b.all isBlank = true) (t : Text) :
    (b ++ '=' :: t).head?.all (!isNameChar ·) = true := by
  cases b with
  | nil => rfl
  | cons c b =>
    simp only [List.all_cons, Bool.and_eq_true] at hb
    simp [not_isNameChar_of_isBlank hb.1]

theorem attribute?_body (a : Spelled) {t : Text} (ht : Separates t) :
    attribute? (a.body ++ t) = some (a.toAttribute, a.body.length - 1) := by
  obtain ⟨gap, n, s⟩ := a
  simp only [Spelled.body, Spelled.toAttribute, List.append_assoc]
  cases s with
  | bare =>
    rw [Spelling.text, List.nil_append, attribute?_name n.2 ht.endsAttribute.name,
      assigned?_eq_none ht.equals]
    simp [Spelling.value]
  | unquoted b a v =>
    rw [Spelling.text, List.append_assoc, List.cons_append, List.append_assoc,
      attribute?_name n.2 (head?_equals b.2 _),
      assigned?_equals b.2 a.2 (head?_bareValue v.2.1 v.2.2), value?_bare v.2.1 v.2.2 ht]
    simp [Spelling.value]
    omega
  | quoted b a q v =>
    rw [Spelling.text, List.append_assoc, List.cons_append, List.append_assoc, List.cons_append,
      List.append_assoc, attribute?_name n.2 (head?_equals b.2 _),
      assigned?_equals b.2 a.2 (head?_quoted q _), List.singleton_append, value?_quoted q v.2]
    simp [Spelling.value]
    omega

theorem separates_gap {g n : Text} (hg : g.all isBlank = true ∧ g ≠ [])
    (hn : isLegalName n = true) (t : Text) : Separates (g ++ (n ++ t)) := by
  obtain ⟨hb, hne⟩ := hg
  obtain ⟨d, n, rfl⟩ : ∃ d m, n = d :: m := by
    cases n with
    | nil => simp [isLegalName] at hn
    | cons d m => exact ⟨d, m, rfl⟩
  have hd : isBlank d = false ∧ d ≠ '=' := by
    simp only [isLegalName, List.all_cons, Bool.and_eq_true, isNameChar, List.contains_cons,
      Bool.not_eq_true', Bool.or_eq_false_iff, beq_eq_false_iff_ne] at hn
    exact ⟨hn.2.1.1, hn.2.1.2.2.2.2.2.1⟩
  refine ⟨?_, ?_⟩
  · obtain ⟨c, g, rfl⟩ := List.exists_cons_of_ne_nil hne
    simp only [List.all_cons, Bool.and_eq_true] at hb
    simp [hb.1]
  · rw [List.dropWhile_append_of_pos (List.all_eq_true.1 hb)]
    simp [hd]

theorem separates_nil : Separates [] := ⟨rfl, by simp⟩

theorem separates_texts_append (as : List Spelled) {t : Text} (ht : Separates t) :
    Separates (texts as ++ t) := by
  cases as with
  | nil => exact ht
  | cons a as =>
    rw [texts_cons, Spelled.text, Spelled.body, List.append_assoc, List.append_assoc,
      List.append_assoc]
    exact separates_gap a.gap.2 a.name.2 _

theorem parse_blanks_append {b : Text} (hb : b.all isBlank = true) (t : Text) :
    parse (b ++ t) = parse t := by
  induction b with
  | nil => rfl
  | cons c b ih =>
    simp only [List.all_cons, Bool.and_eq_true] at hb
    have hn : attribute? (c :: (b ++ t)) = none := by
      simp [attribute?, not_isNameChar_of_isBlank hb.1]
    rw [List.cons_append, parse, hits, scan_cons_none hn]
    exact ih hb.2

theorem parse_body_append (a : Spelled) {t : Text} (ht : Separates t) :
    parse (a.body ++ t) = a.toAttribute :: parse t := by
  have hne : a.body ≠ [] := by
    have := a.name.2
    intro hb
    rw [Spelled.body, List.append_eq_nil_iff] at hb
    simp [isLegalName, hb.1] at this
  rw [parse, hits, scan_append hne (attribute?_body a ht)]
  rfl

theorem parse_texts_append (as : List Spelled) {t : Text} (ht : Separates t) :
    parse (texts as ++ t) = as.map Spelled.toAttribute ++ parse t := by
  induction as with
  | nil => rfl
  | cons a as ih =>
    rw [texts_cons, Spelled.text, List.append_assoc, List.append_assoc,
      parse_blanks_append a.gap.2.1, parse_body_append a (separates_texts_append as ht), ih]
    rfl

theorem parse_texts (as : List Spelled) : parse (texts as) = as.map Spelled.toAttribute := by
  have := parse_texts_append as separates_nil
  rwa [List.append_nil, show parse [] = [] from rfl, List.append_nil] at this

theorem parse_equals {g n b a : Text} (hg : g.all isBlank = true) (hn : isLegalName n = true)
    (hb : b.all isBlank = true) (ha : a.all isBlank = true) :
    parse (g ++ (n ++ (b ++ '=' :: a))) = [⟨n, none⟩] := by
  have hv : assigned? (b ++ '=' :: a) = none := by
    have := assigned?_equals hb ha (x := []) rfl
    rwa [List.append_nil] at this
  have hne : n ≠ [] := by
    rintro rfl
    cases hn
  have he : attribute? ('=' :: a) = none := rfl
  rw [parse_blanks_append hg, parse, hits,
    scan_append hne (by rw [attribute?_name hn (head?_equals hb a), hv])]
  refine congrArg (_ :: ·) ?_
  change parse (b ++ '=' :: a) = []
  rw [parse_blanks_append hb, parse, hits, scan_cons_none he]
  exact parse_blank ha

end Attributes

def endInSlash (as : List Spelled) : Bool := as.getLast?.any (·.spelling.endsInSlash)

def Attribute.shortened (a : Attribute) : Attribute :=
  { a with value := a.value.bind fun v => if v.dropLast = [] then none else some v.dropLast }

def withLastShortened (as : Attributes) : Attributes :=
  as.dropLast ++ (as.getLast?.map Attribute.shortened).toList

theorem Spelled.exists_last (a : Spelled) :
    ∃ u c, a.text = u ++ [c] ∧ isBlank c = false ∧ (c == '/') = a.spelling.endsInSlash := by
  obtain ⟨g, ⟨n, hn⟩, s⟩ := a
  cases s with
  | bare =>
    simp only [Attributes.isLegalName, Bool.and_eq_true, Bool.not_eq_true'] at hn
    obtain ⟨hne, hn⟩ := hn
    rcases List.eq_nil_or_concat n with rfl | ⟨m, c, rfl⟩
    · cases hne
    · have hc : Attributes.isNameChar c = true := List.all_eq_true.1 hn c (by simp)
      simp only [Attributes.isNameChar, List.contains_cons, Bool.not_eq_true',
        Bool.or_eq_false_iff] at hc
      obtain ⟨hb, -, -, -, hs, -⟩ := hc
      exact ⟨g.1 ++ m, c, by simp [Spelled.text, Spelled.body, Spelling.text], hb, hs⟩
  | unquoted b a v =>
    obtain ⟨v, hv, hne⟩ := v
    rcases List.eq_nil_or_concat v with rfl | ⟨m, c, rfl⟩
    · exact absurd rfl hne
    · have hc : Attributes.isBareChar c = true := List.all_eq_true.1 hv c (by simp)
      refine ⟨g.1 ++ (n ++ (b.1 ++ '=' :: (a.1 ++ m))), c, ?_, (isBareChar_iff.1 hc).1, ?_⟩
      · simp [Spelled.text, Spelled.body, Spelling.text]
      · simp [Spelling.endsInSlash]
  | quoted b a q v =>
    refine ⟨g.1 ++ (n ++ (b.1 ++ '=' :: (a.1 ++ q.1 :: v.1))), q.1, ?_, ?_, ?_⟩
    · simp [Spelled.text, Spelled.body, Spelling.text]
    · exact Attributes.isBlank_quote q
    · exact Attributes.quote_ne_slash q

theorem exists_spelled_of_endsInSlash {a : Spelled} (h : a.spelling.endsInSlash = true) :
    ∃ t, a.text = t ++ ['/'] ∧ Attributes.Separates t ∧
      Attributes.parse t = [a.toAttribute.shortened] := by
  obtain ⟨g, n, s⟩ := a
  cases s with
  | bare => cases h
  | quoted b a q v => cases h
  | unquoted b a v =>
    obtain ⟨v, hv, hne⟩ := v
    rcases List.eq_nil_or_concat v with rfl | ⟨m, c, rfl⟩
    · exact absurd rfl hne
    obtain rfl : c = '/' := by simpa [Spelling.endsInSlash] using h
    refine ⟨g.1 ++ (n.1 ++ (b.1 ++ '=' :: (a.1 ++ m))), ?_, ?_, ?_⟩
    · simp [Spelled.text, Spelled.body, Spelling.text]
    · exact Attributes.separates_gap g.2 n.2 _
    · by_cases hm : m = []
      · subst hm
        rw [List.append_nil, Attributes.parse_equals g.2.1 n.2 b.2 a.2]
        rfl
      · have hall : m.all Attributes.isBareChar = true := by
          rw [List.concat_eq_append, List.all_append, Bool.and_eq_true] at hv
          exact hv.1
        have := Attributes.parse_texts [⟨g, n, .unquoted b a ⟨m, hall, hm⟩⟩]
        simp only [texts, List.flatMap_cons, List.flatMap_nil, List.append_nil, Spelled.text,
          Spelled.body, Spelling.text, List.map_cons, List.map_nil] at this
        rw [this]
        simp [Spelled.toAttribute, Spelling.value, Attribute.shortened, hm]

theorem ofBody_texts_concat (name : Text) (as : List Spelled) (a : Spelled) :
    (Tag.ofBody false name (texts (as ++ [a]))).selfClosing = a.spelling.endsInSlash ∧
      Attributes.parse (Tag.ofBody false name (texts (as ++ [a]))).attrs =
        as.map Spelled.toAttribute ++
          [if a.spelling.endsInSlash then a.toAttribute.shortened else a.toAttribute] := by
  have htexts : texts (as ++ [a]) = texts as ++ a.text := by simp [texts]
  obtain ⟨u, c, hu, hb, hc⟩ := a.exists_last
  have htrim : trimEnd (texts (as ++ [a])) = texts (as ++ [a]) := by
    rw [htexts, hu, ← List.append_assoc, trimEnd_append_of_not_isBlank hb]
  have hslash : ((texts (as ++ [a])).getLast? == some '/') = a.spelling.endsInSlash := by
    rw [htexts, hu, ← List.append_assoc, List.getLast?_concat, ← hc]
    rfl
  refine ⟨by simp only [Tag.ofBody, htrim, hslash], ?_⟩
  simp only [Tag.ofBody, htrim, hslash]
  by_cases hs : a.spelling.endsInSlash = true
  · obtain ⟨t, ht, hsep, hp⟩ := exists_spelled_of_endsInSlash hs
    rw [if_pos hs, if_pos hs, htexts, ht, ← List.append_assoc, List.dropLast_concat,
      Attributes.parse_texts_append as hsep, hp]
  · rw [if_neg hs, if_neg hs, Attributes.parse_texts, List.map_append]
    rfl

theorem tokens_tagText {closing : Bool} {name body : Text} (h : IsTag name body) :
    tokens [] (tagText closing name body) =
      [{ Tag.ofBody closing name body with
          start := 0, stop := (tagText closing name body).length }] := by
  have hl : lexemes (tagText closing name body) =
      [.hit (.tag (.ofBody closing name body)) (tagText closing name body)] := by
    have := @lexemes_tagText closing _ _ h []
    rwa [List.append_nil] at this
  rw [tokens, hl]
  simp [tokensFrom, Tag.isAmong]

/-- A tag is one token, and its attributes are read as they were written, but for the slash at the
end of a last value without quotes: there the slash is that of a tag that closes itself. -/
theorem tokens_spelled (name : { n : Text // isName n = true }) (as : List Spelled) :
    ∃ k : Token, tokens [] ('<' :: (name.1 ++ texts as ++ ['>'])) = [k] ∧
      k.name = name.1.map Char.toLower ∧ k.closing = false ∧ k.selfClosing = endInSlash as ∧
      k.start = 0 ∧ k.stop = ('<' :: (name.1 ++ texts as ++ ['>'])).length ∧
      Attributes.parse k.attrs =
        if endInSlash as then withLastShortened (as.map Spelled.toAttribute)
        else as.map Spelled.toAttribute := by
  refine ⟨_, @tokens_tagText false _ _ (isTag_texts name as), rfl, rfl, ?_, rfl, rfl, ?_⟩
  · rcases List.eq_nil_or_concat as with rfl | ⟨as, a, rfl⟩
    · rfl
    · rw [List.concat_eq_append, endInSlash, List.getLast?_concat]
      exact (ofBody_texts_concat name.1 as a).1
  · rcases List.eq_nil_or_concat as with rfl | ⟨as, a, rfl⟩
    · rfl
    · rw [List.concat_eq_append, endInSlash, List.getLast?_concat, withLastShortened]
      refine (ofBody_texts_concat name.1 as a).2.trans ?_
      cases hs : a.spelling.endsInSlash <;> simp [hs]

theorem slash_lost_from_last_value :
    ¬ ∀ (name : { n : Text // isName n = true }) (as : List Spelled), as ≠ [] →
      ∃ k : Token, tokens [] ('<' :: (name.1 ++ texts as ++ ['>'])) = [k] ∧ k.closing = false ∧
        k.start = 0 ∧ k.stop = ('<' :: (name.1 ++ texts as ++ ['>'])).length ∧
        Attributes.parse k.attrs = as.map Spelled.toAttribute := by
  intro h
  obtain ⟨k, hk, -, -, -, hp⟩ := h ⟨"a".toList, by decide⟩
    [⟨⟨[' '], by decide⟩, ⟨"href".toList, by decide⟩,
      .unquoted ⟨[], rfl⟩ ⟨[], rfl⟩ ⟨"x/".toList, by decide⟩⟩] (by simp)
  have htoken : tokens [] "<a href=x/>".toList =
      [{ name := "a".toList, attrs := " href=x".toList, closing := false, selfClosing := true,
         start := 0, stop := 11 }] := by
    decide
  obtain rfl := List.singleton_inj.1 (htoken.symm.trans hk)
  revert hp
  decide

end MailMarkup.Markup
