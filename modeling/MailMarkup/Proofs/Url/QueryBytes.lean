import MailMarkup.Proofs.Link.Tagging
import MailMarkup.Proofs.Text.Utf8Repair

namespace MailMarkup.Url

open Text

def beginsEscape : Text → Bool
  | '%' :: a :: b :: _ => Entity.isHexDigit a && Entity.isHexDigit b
  | _ => false

def unescapedBytes : Text → Bytes
  | '%' :: a :: b :: r =>
    if Entity.isHexDigit a && Entity.isHexDigit b then
      .ofNat (Entity.numberOf 16 [a, b]) :: unescapedBytes r
    else utf8Char '%' ++ unescapedBytes (a :: b :: r)
  | c :: r => utf8Char c ++ unescapedBytes r
  | [] => []

theorem unescapedBytes_cons {c : Char} {r : Text} (h : beginsEscape (c :: r) = false) :
    unescapedBytes (c :: r) = utf8Char c ++ unescapedBytes r := by
  by_cases hc : c = '%'
  · subst hc
    match r with
    | [] => rfl
    | [a] => rfl
    | a :: b :: s => exact if_neg (by simpa [beginsEscape] using h)
  · rw [unescapedBytes]
    rintro a b s rfl
    exact absurd rfl hc

theorem escapedBytes_cons_of_not_beginsEscape {c : Char} {r : Text}
    (h : beginsEscape (c :: r) = false) :
    escapedBytes (c :: r) = c.toUInt8 :: escapedBytes r := by
  by_cases hc : c = '%'
  · subst hc
    match r with
    | [] => rfl
    | [a] => rfl
    | a :: b :: s => exact if_neg (by simpa [beginsEscape] using h)
  · exact escapedBytes_cons hc r

theorem utf8Char_of_isAscii {c : Char} (h : isAscii c = true) : utf8Char c = [c.toUInt8] := by
  have hc : c.toNat < 0x80 := of_decide_eq_true h
  rw [utf8Char]
  dsimp only
  rw [if_pos hc]
  rfl

theorem isAscii_of_isHexDigit {c : Char} (h : Entity.isHexDigit c = true) : isAscii c = true := by
  refine decide_eq_true ?_
  rw [Entity.isHexDigit, Bool.or_eq_true, Bool.and_eq_true, decide_eq_true_eq,
    decide_eq_true_eq] at h
  rcases h with h | ⟨-, h⟩
  · rw [Char.isDigit, Bool.and_eq_true, decide_eq_true_eq, decide_eq_true_eq] at h
    have : c.toNat ≤ 57 := h.2
    omega
  · have : c.toLower.toNat ≤ 102 := h
    rw [toNat_toLower] at this
    split at this <;> omega

theorem beginsEscape_cons_cons {a b : Char} (r : Text) : beginsEscape ('%' :: a :: b :: r) =
    (Entity.isHexDigit a && Entity.isHexDigit b) := rfl

theorem beginsEscape_of_ne {c : Char} (h : c ≠ '%') (r : Text) : beginsEscape (c :: r) = false := by
  unfold beginsEscape
  split
  · rename_i he
    exact absurd (List.cons.inj he).1 h
  · rfl

theorem isHexDigit_of_not_isAscii {c : Char} (h : isAscii c = false) :
    Entity.isHexDigit c = false := by
  by_contra hc
  rw [isAscii_of_isHexDigit (by simpa using hc)] at h
  cases h

theorem beginsEscape_append {c : Char} {g rest : Text} (h : beginsEscape (c :: g) = false)
    (hr : ∀ d ∈ rest.head?, isAscii d = false) : beginsEscape (c :: (g ++ rest)) = false := by
  by_cases hc : c = '%'
  · subst hc
    match g, rest with
    | [], [] => rfl
    | [], [d] => rfl
    | [], d :: e :: rest =>
      rw [List.nil_append, beginsEscape_cons_cons, isHexDigit_of_not_isAscii (hr d rfl)]
      rfl
    | [a], [] => rfl
    | [a], d :: rest =>
      rw [List.singleton_append, beginsEscape_cons_cons, isHexDigit_of_not_isAscii (hr d rfl),
        Bool.and_false]
    | a :: b :: g, rest => exact h
  · exact beginsEscape_of_ne hc _

theorem unescapedBytes_append {g rest : Text} (hg : g.all isAscii = true)
    (hr : ∀ d ∈ rest.head?, isAscii d = false) :
    unescapedBytes (g ++ rest) = escapedBytes g ++ unescapedBytes rest := by
  induction g using escapedBytes.induct with
  | case1 a b g hab ih =>
    simp only [List.all_cons, Bool.and_eq_true] at hg
    simp only [List.cons_append, unescapedBytes, escapedBytes, if_pos hab, ih hg.2.2.2]
  | case2 a b g hab ih =>
    have hno : beginsEscape ('%' :: a :: b :: g) = false := by simpa [beginsEscape] using hab
    rw [List.all_cons, Bool.and_eq_true] at hg
    rw [escapedBytes_cons_of_not_beginsEscape hno, List.cons_append,
      unescapedBytes_cons (beginsEscape_append hno hr), utf8Char_of_isAscii hg.1, ih hg.2]
    rfl
  | case3 c g hshape ih =>
    have hno : beginsEscape (c :: g) = false := by
      unfold beginsEscape
      split
      · rename_i a b s he
        exact (hshape a b s (List.cons.inj he).1 (List.cons.inj he).2).elim
      · rfl
    rw [List.all_cons, Bool.and_eq_true] at hg
    rw [escapedBytes_cons_of_not_beginsEscape hno, List.cons_append,
      unescapedBytes_cons (beginsEscape_append hno hr), utf8Char_of_isAscii hg.1, ih hg.2]
    rfl
  | case4 => rfl

theorem unescapedBytes_append_of_not_isAscii {g : Text} (hg : ∀ c ∈ g, isAscii c = false)
    (rest : Text) : unescapedBytes (g ++ rest) = encodeUtf8 g ++ unescapedBytes rest := by
  induction g with
  | nil => rfl
  | cons c g ih =>
    have hc : c ≠ '%' := by
      rintro rfl
      exact absurd (hg '%' List.mem_cons_self) (by decide)
    rw [List.cons_append, unescapedBytes_cons (beginsEscape_of_ne hc _),
      ih fun d hd => hg d (List.mem_cons_of_mem _ hd), ← List.append_assoc]
    rfl

theorem unescape_append {g rest : Text}
    (h : ∀ c ∈ g.getLast?, ∀ d ∈ rest.head?, isAscii c ≠ isAscii d) :
    unescape (g ++ rest) = unescape g ++ unescape rest := by
  have hsplit : (g ++ rest).splitBy (fun a b => isAscii a == isAscii b) =
      g.splitBy (fun a b => isAscii a == isAscii b) ++
        rest.splitBy (fun a b => isAscii a == isAscii b) :=
    List.splitBy_append fun c hc d hd => by simpa using h c hc d hd
  rw [unescape, hsplit, List.flatMap_append]
  rfl

theorem unescape_of_not_isAscii {t : Text} (h : ∀ c ∈ t, isAscii c = false) : unescape t = t := by
  cases t with
  | nil => rfl
  | cons c t =>
    have hsame : (c :: t).IsChain fun a b => isAscii a == isAscii b := by
      refine List.Pairwise.isChain (List.pairwise_of_forall_mem_list fun a ha b hb => ?_)
      rw [h a ha, h b hb]
      rfl
    have hno : (c :: t).all isAscii = false := by simp [h c List.mem_cons_self]
    rw [unescape, List.splitBy_of_isChain (List.cons_ne_nil _ _) hsame, List.flatMap_singleton,
      if_neg (by simp [hno])]

theorem decodeUtf8Lossy_append (bs : Bytes) {rest : Bytes} (h : Utf8.StartsAnew rest) :
    decodeUtf8Lossy (bs ++ rest) = decodeUtf8Lossy bs ++ decodeUtf8Lossy rest := by
  have hrun := Utf8.run_append (s := .ground) trivial bs h
  rw [decodeUtf8Lossy, hrun, List.map_append]
  rfl

theorem decodeUtf8Lossy_encodeUtf8_append (t : Text) (rest : Bytes) :
    decodeUtf8Lossy (encodeUtf8 t ++ rest) = t ++ decodeUtf8Lossy rest := by
  induction t with
  | nil => rfl
  | cons c t ih =>
    rw [encodeUtf8, List.flatMap_cons, List.append_assoc, decodeUtf8Lossy, Utf8.run_utf8Char,
      List.map_cons]
    exact congrArg (c :: ·) ih

theorem startsAnew_unescapedBytes {t : Text} (h : ∀ c ∈ t.head?, isAscii c = false) :
    Utf8.StartsAnew (unescapedBytes t) := by
  cases t with
  | nil => exact fun b hb => nomatch hb
  | cons c t =>
    have hc : c ≠ '%' := by
      rintro rfl
      exact absurd (h '%' rfl) (by decide)
    rw [unescapedBytes_cons (beginsEscape_of_ne hc t)]
    exact Utf8.startsAnew_utf8Char c _

theorem exists_stretch (c : Char) (r : Text) : ∃ g rest ascii, c :: r = c :: g ++ rest ∧
    (∀ d ∈ c :: g, isAscii d = ascii) ∧ ∀ d ∈ rest.head?, isAscii d = !ascii := by
  refine ⟨r.takeWhile (isAscii · == isAscii c), r.dropWhile (isAscii · == isAscii c), isAscii c,
    by rw [List.cons_append, List.takeWhile_append_dropWhile], ?_, fun d hd => ?_⟩
  · rw [List.forall_mem_cons]
    exact ⟨rfl, fun d hd => by simpa using List.mem_takeWhile_imp hd⟩
  · have := List.head?_dropWhile_not (isAscii · == isAscii c) r
    rw [hd] at this
    exact Bool.eq_not.2 (by simpa using this)

theorem unescape_eq (t : Text) : unescape t = decodeUtf8Lossy (unescapedBytes t) := by
  induction hn : t.length using Nat.strong_induction_on generalizing t with
  | _ n ih =>
    cases t with
    | nil => rfl
    | cons c r =>
      obtain ⟨g, rest, ascii, ht, hg, hr⟩ := exists_stretch c r
      have hrest : unescape rest = decodeUtf8Lossy (unescapedBytes rest) := by
        refine ih rest.length ?_ rest rfl
        rw [← hn, ht, List.length_append]
        exact Nat.lt_add_of_pos_left (Nat.succ_pos _)
      have hapart : ∀ d ∈ (c :: g).getLast?, ∀ e ∈ rest.head?, isAscii d ≠ isAscii e := by
        intro d hd e he
        rw [hg d (List.mem_of_getLast? hd), hr e he]
        cases ascii <;> decide
      rw [ht, unescape_append hapart, hrest]
      cases ascii with
      | true =>
        have hall : (c :: g).all isAscii = true := List.all_eq_true.2 hg
        rw [unescape_of_isAscii hall, unescapedBytes_append hall hr,
          decodeUtf8Lossy_append _ (startsAnew_unescapedBytes hr)]
      | false =>
        rw [unescape_of_not_isAscii hg, unescapedBytes_append_of_not_isAscii hg,
          decodeUtf8Lossy_encodeUtf8_append]

def formBytes (t : Text) : Bytes := unescapedBytes (t.map unplussed)

theorem unescapeForm_eq (t : Text) : unescapeForm t = decodeUtf8Lossy (formBytes t) :=
  unescape_eq _

theorem formBytes_escapeForm (t : Text) : formBytes (escapeForm t) = encodeUtf8 t := by
  have hnone : ∀ d ∈ ([] : Text).head?, isAscii d = false := by simp
  have h := unescapedBytes_append (isAscii_unplussed_escapeForm t) hnone
  rw [List.append_nil] at h
  rw [formBytes, h, escapeForm, escapedBytes_escapeForm]
  exact List.append_nil _

abbrev ByteParameter := Bytes × Bytes

def bytesOfOne (t : Text) : ByteParameter :=
  let (name, value) := breakAt '=' t
  (formBytes name, formBytes (value.getD []))

def parameterBytes (query : Text) : List ByteParameter :=
  (fields (· == '&') query).map bytesOfOne

namespace Query

theorem readOne_eq (t : Text) :
    readOne t = Prod.map decodeUtf8Lossy decodeUtf8Lossy (bytesOfOne t) :=
  Prod.ext (unescapeForm_eq _) (unescapeForm_eq _)

theorem parse_eq (t : Text) :
    parse t = (parameterBytes t).map (Prod.map decodeUtf8Lossy decodeUtf8Lossy) := by
  rw [parse, parameterBytes, List.map_map]
  exact List.map_congr_left fun w _ => readOne_eq w

theorem bytesOfOne_renderOne (p : Parameter) :
    bytesOfOne (renderOne p) = Prod.map encodeUtf8 encodeUtf8 p := by
  have hname : '=' ∉ escapeForm p.1 := not_mem_escapeForm (by decide) _
  rw [bytesOfOne, renderOne, breakAt_append hname]
  exact Prod.ext (formBytes_escapeForm p.1) (formBytes_escapeForm p.2)

theorem parameterBytes_render (q : Query) :
    parameterBytes q.render = q.map (Prod.map encodeUtf8 encodeUtf8) := by
  rw [parameterBytes, fields_render, List.map_map]
  exact List.map_congr_left fun p _ => bytesOfOne_renderOne p

end Query

end MailMarkup.Url
