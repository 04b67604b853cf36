import Mathlib.Data.List.SplitBy
import MailMarkup.Link
import MailMarkup.Proofs.Document.HeadLines
import MailMarkup.Proofs.Files.Encoding
import MailMarkup.Proofs.Markup.StyleReading

namespace MailMarkup.Url

open Text

theorem isAscii_of_isFormChar {c : Char} (h : isFormChar c = true) : isAscii c = true := by
  rw [isFormChar, Bool.or_eq_true, List.contains_iff_mem] at h
  rcases h with h | h
  · exact decide_eq_true (Markup.lt_of_isNameChar (by simp [Markup.isNameChar, h]))
  · have hsign : ∀ d ∈ ['_', '.', '-', '~', '+', '%'], isAscii d = true := by simp [isAscii]
    exact hsign c h

theorem escapedBytes_cons {c : Char} (h : c ≠ '%') (r : Text) :
    escapedBytes (c :: r) = c.toUInt8 :: escapedBytes r := by
  rw [escapedBytes]
  rintro a b r' rfl
  exact absurd rfl h

theorem toUInt8_ofNat (b : UInt8) : (Char.ofNat b.toNat).toUInt8 = b := by
  have hlt := b.toNat_lt
  have hn : (Char.ofNat b.toNat).toNat = b.toNat := by
    rw [Char.ofNat, dif_pos (.inl (by omega))]
    exact UInt32.toNat_ofNatLT ..
  apply UInt8.toNat_inj.1
  change (Char.ofNat b.toNat).toNat % 2 ^ 8 = b.toNat
  omega

def unplussed (c : Char) : Char := if c = '+' then ' ' else c

theorem escapedBytes_escapedByte (b : UInt8) (r : Text) :
    escapedBytes ((escapedByte b).map unplussed ++ r) = b :: escapedBytes r := by
  by_cases hs : isSafe b = true
  · have hplus : Char.ofNat b.toNat ≠ '+' := by
      intro h
      rw [isSafe, h] at hs
      exact absurd hs (by decide)
    have hpercent : Char.ofNat b.toNat ≠ '%' := by
      intro h
      rw [isSafe, h] at hs
      exact absurd hs (by decide)
    rw [escapedByte, if_pos hs, List.map_singleton, unplussed, if_neg hplus, List.singleton_append,
      escapedBytes_cons hpercent, toUInt8_ofNat]
  · by_cases hb : b = ' '.toUInt8
    · rw [escapedByte, if_neg hs, if_pos hb, hb]
      exact escapedBytes_cons (by decide) r
    · have hlt := b.toNat_lt
      have hhigh : b.toNat / 16 < 16 := by omega
      have hlow : b.toNat % 16 < 16 := by omega
      rw [escapedByte_of_not_isSafe (by simpa using hs) hb]
      simp only [List.map_cons, List.map_nil, unplussed, if_neg (hexDigit_ne_plus _ hhigh),
        if_neg (hexDigit_ne_plus _ hlow), if_neg (show ('%' : Char) ≠ '+' by decide),
        List.cons_append, List.nil_append]
      have hdigits : (Entity.isHexDigit (hexDigit (b.toNat / 16)) &&
          Entity.isHexDigit (hexDigit (b.toNat % 16))) = true := by
        rw [isHexDigit_hexDigit _ hhigh, isHexDigit_hexDigit _ hlow]
        rfl
      have hn : Entity.numberOf 16 [hexDigit (b.toNat / 16), hexDigit (b.toNat % 16)] =
          b.toNat := by
        simp only [Entity.numberOf, List.foldl_cons, List.foldl_nil, digitValue_hexDigit _ hhigh,
          digitValue_hexDigit _ hlow]
        omega
      rw [escapedBytes, if_pos hdigits, hn, UInt8.ofNat_toNat]

theorem escapedBytes_escapeForm (bs : Bytes) :
    escapedBytes ((bs.flatMap escapedByte).map unplussed) = bs := by
  induction bs with
  | nil => rfl
  | cons b bs ih => rw [List.flatMap_cons, List.map_append, escapedBytes_escapedByte, ih]

theorem unescape_of_isAscii {t : Text} (h : t.all isAscii = true) :
    unescape t = decodeUtf8Lossy (escapedBytes t) := by
  cases t with
  | nil => rfl
  | cons c t =>
    have hsame : (c :: t).IsChain fun a b => isAscii a == isAscii b := by
      refine List.Pairwise.isChain (List.pairwise_of_forall_mem_list fun a ha b hb => ?_)
      rw [List.all_eq_true.1 h a ha, List.all_eq_true.1 h b hb]
      rfl
    rw [unescape, List.splitBy_of_isChain (List.cons_ne_nil _ _) hsame, List.flatMap_singleton,
      if_pos h]

theorem isAscii_unplussed_escapeForm (t : Text) :
    ((escapeForm t).map unplussed).all isAscii = true := by
  rw [List.all_map, List.all_eq_true]
  intro c hc
  rw [Function.comp_apply, unplussed]
  split
  · rfl
  · exact isAscii_of_isFormChar (isFormChar_of_mem_escapeForm hc)

theorem unescapeForm_escapeForm (t : Text) : unescapeForm (escapeForm t) = t := by
  change unescape ((escapeForm t).map unplussed) = t
  rw [unescape_of_isAscii (isAscii_unplussed_escapeForm t), escapeForm, escapedBytes_escapeForm,
    decodeUtf8Lossy_encodeUtf8]

end MailMarkup.Url

namespace MailMarkup.Text

theorem fields_join {sep : Char → Bool} {c : Char} (hc : sep c = true) {ts : List Text}
    (h : ∀ t ∈ ts, t ≠ [] ∧ t.any sep = false) : fields sep (join [c] ts) = ts := by
  induction ts with
  | nil => rfl
  | cons t ts ih =>
    obtain ⟨ht, hs⟩ := h t List.mem_cons_self
    have ih := ih fun u hu => h u (List.mem_cons_of_mem _ hu)
    cases ts with
    | nil => simp [join, fields_of_not_any hs, ht]
    | cons u ts =>
      rw [show t :: u :: ts = [t] ++ u :: ts from rfl,
        join_append (List.cons_ne_nil _ _) (List.cons_ne_nil _ _),
        show join [c] [t] = t by simp [join], fields_append hs hc, ih]
      simp [ht]

end MailMarkup.Text

namespace MailMarkup.Url.Query

open Text

theorem readOne_renderOne (p : Parameter) : readOne (renderOne p) = p := by
  have hname : '=' ∉ escapeForm p.1 := not_mem_escapeForm (by decide) _
  rw [readOne, renderOne, breakAt_append hname]
  exact Prod.ext (unescapeForm_escapeForm p.1) (unescapeForm_escapeForm p.2)

theorem fields_render (q : Query) : fields (· == '&') q.render = q.map renderOne := by
  refine fields_join rfl fun t ht => ?_
  obtain ⟨p, -, rfl⟩ := List.mem_map.1 ht
  refine ⟨by simp [renderOne], List.any_eq_false.2 fun c hc he => ?_⟩
  obtain rfl := beq_iff_eq.1 he
  exact absurd (mem_renderOne hc) (by decide)

theorem parse_render (q : Query) : Query.parse q.render = q := by
  rw [Query.parse, fields_render, List.map_map]
  exact List.map_id'' readOne_renderOne q

theorem render_ne_nil {q : Query} (h : q ≠ []) : q.render ≠ [] := by
  intro hr
  have hp := parse_render q
  rw [hr] at hp
  exact h hp.symm

variable {q : Query} {name value : Text}

inductive Sets (name : Text) : Text → Query → Query → Prop
  | nothing (q : Query) : Sets name [] q q
  | first {value old : Text} {front back : Query} : value ≠ [] → (∀ p ∈ front, p.1 ≠ name) →
      Sets name value (front ++ (name, old) :: back)
        (front ++ (name, value) :: back.filter (·.1 != name))
  | last {value : Text} {q : Query} : value ≠ [] → (∀ p ∈ q, p.1 ≠ name) →
      Sets name value q (q ++ [(name, value)])

theorem replace_append {front back : Query} (h : ∀ p ∈ front, p.1 ≠ name) (old : Text) :
    replace name value (front ++ (name, old) :: back) =
      front ++ (name, value) :: back.filter (·.1 != name) := by
  induction front with
  | nil => exact if_pos rfl
  | cons p front ih =>
    rw [List.cons_append, replace, if_neg (h p List.mem_cons_self),
      ih fun r hr => h r (List.mem_cons_of_mem _ hr)]
    rfl

theorem exists_first (h : ∃ p ∈ q, p.1 = name) : ∃ front old back,
    q = front ++ (name, old) :: back ∧ ∀ p ∈ front, p.1 ≠ name := by
  induction q with
  | nil => simp at h
  | cons p q ih =>
    by_cases hp : p.1 = name
    · exact ⟨[], p.2, q, by rw [← hp]; rfl, by simp⟩
    · obtain ⟨r, hr, hn⟩ := h
      rcases List.mem_cons.1 hr with rfl | hr
      · exact absurd hn hp
      · obtain ⟨front, old, back, rfl, hf⟩ := ih ⟨r, hr, hn⟩
        exact ⟨p :: front, old, back, rfl, List.forall_mem_cons.2 ⟨hp, hf⟩⟩

theorem sets_set (hv : value ≠ []) : Sets name value q (q.set name value) := by
  rw [set]
  split
  · rename_i h
    have hmem : ∃ p ∈ q, p.1 = name := by simpa using h
    obtain ⟨front, old, back, rfl, hf⟩ := exists_first hmem
    rw [replace_append hf]
    exact .first hv hf
  · rename_i h
    refine .last hv fun p hp hn => h (List.any_eq_true.2 ⟨p, hp, beq_iff_eq.2 hn⟩)

theorem sets_setUnlessEmpty (name value : Text) (q : Query) :
    Sets name value q (Link.Campaign.setUnlessEmpty q name value) := by
  rw [Link.Campaign.setUnlessEmpty]
  split
  · rename_i h
    obtain rfl := List.isEmpty_iff.1 h
    exact .nothing q
  · rename_i h
    exact sets_set (by simpa using h)

theorem filter_eq_nil (h : ∀ p ∈ q, p.1 ≠ name) : q.filter (·.1 == name) = [] :=
  List.filter_eq_nil_iff.2 fun p hp => by simpa using h p hp

theorem filter_ne_of_filter_eq_nil (h : q.filter (·.1 == name) = []) :
    q.filter (·.1 != name) = q :=
  List.filter_eq_self.2 fun p hp => by simpa using List.filter_eq_nil_iff.1 h p hp

namespace Sets

variable {r : Query}

theorem filter_self (h : Sets name value q r) (hv : value ≠ []) :
    r.filter (·.1 == name) = [(name, value)] := by
  cases h with
  | nothing => exact absurd rfl hv
  | first _ hf => simp [filter_eq_nil hf, List.filter_filter]
  | last _ hq => simp [filter_eq_nil hq]

theorem filter_other (h : Sets name value q r) {f : Parameter → Bool}
    (hf : ∀ v, f (name, v) = false) : r.filter f = q.filter f := by
  cases h with
  | nothing => rfl
  | @first _ old front back _ hfront =>
    have hback : (back.filter (·.1 != name)).filter f = back.filter f := by
      rw [List.filter_filter]
      refine List.filter_congr fun p _ => ?_
      by_cases hp : p.1 = name
      · obtain ⟨n, v⟩ := p
        obtain rfl : n = name := hp
        simp [hf v]
      · simp [hp]
    simp [hf, hback]
  | last _ hq => simp [hf]

theorem filter_of_ne (h : Sets name value q r) {other : Text} (ho : other ≠ name) :
    r.filter (·.1 == other) = q.filter (·.1 == other) :=
  h.filter_other fun _ => by simpa using ho.symm

end Sets

theorem set_eq_self (h : q.filter (·.1 == name) = [(name, value)]) : q.set name value = q := by
  have hmem : (name, value) ∈ q := (List.mem_filter.1 (h ▸ List.mem_singleton_self _)).1
  obtain ⟨front, old, back, rfl, hf⟩ := exists_first ⟨_, hmem, rfl⟩
  simp only [List.filter_append, filter_eq_nil hf, List.nil_append, List.filter_cons,
    beq_self_eq_true, if_true, List.cons.injEq, Prod.mk.injEq, true_and] at h
  obtain ⟨rfl, hback⟩ := h
  rw [set, if_pos (by simp), replace_append hf, filter_ne_of_filter_eq_nil hback]

end MailMarkup.Url.Query
