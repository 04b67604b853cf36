import MailMarkup.Proofs.Markup.AttributeSpelling
import MailMarkup.Proofs.Markup.TagOrder
import MailMarkup.Proofs.Markup.TokenPositions

namespace MailMarkup.Markup

open Text

def substituted (html : Text) (last : Nat) : List (Token × Text) → Text
  | [] => html.drop last
  | (k, t) :: rs => (html.take k.start).drop last ++ t ++ substituted html k.stop rs

def replacements (ks : List Token) (es : List (Option Text)) : List (Token × Text) :=
  (ks.zip es).filterMap fun x => x.2.map fun t => (x.1, t)

theorem replacements_nil (ks : List Token) : replacements ks [] = [] := by
  rw [replacements, List.zip_nil_right, List.filterMap_nil]

theorem replacements_none (k : Token) (ks : List Token) (es : List (Option Text)) :
    replacements (k :: ks) (none :: es) = replacements ks es := rfl

theorem replacements_some (k : Token) (ks : List Token) (t : Text) (es : List (Option Text)) :
    replacements (k :: ks) (some t :: es) = (k, t) :: replacements ks es := rfl

theorem sublist_replacements (ks : List Token) (es : List (Option Text)) :
    ((replacements ks es).map Prod.fst).Sublist ks := by
  induction ks generalizing es with
  | nil => exact .slnil
  | cons k ks ih =>
    cases es with
    | nil => exact replacements_nil (k :: ks) ▸ List.nil_sublist _
    | cons e es =>
      cases e with
      | none => exact (ih es).cons k
      | some t => exact (ih es).cons_cons k

theorem mem_zip_of_mem_replacements {ks : List Token} {es : List (Option Text)}
    {x : Token × Text} (h : x ∈ replacements ks es) : (x.1, some x.2) ∈ ks.zip es := by
  obtain ⟨⟨k, e⟩, hx, he⟩ := List.mem_filterMap.1 h
  obtain ⟨t, rfl, rfl⟩ := Option.map_eq_some_iff.1 he
  exact hx

theorem substituted_kept {names : List Text} {pre : Text} {last : Nat} (hlast : last ≤ pre.length)
    {p : Piece Lexeme} {ps : Lexemes} {es es' : List (Option Text)}
    (hk : replacements (tokensFrom names pre.length (p :: ps)) es =
      replacements (tokensFrom names (pre ++ p.source).length ps) es')
    (he : Lexemes.edited names (p :: ps) es = p.source ++ ps.edited names es')
    (ih : substituted ((pre ++ p.source) ++ source ps) last
        (replacements (tokensFrom names (pre ++ p.source).length ps) es') =
      (pre ++ p.source).drop last ++ ps.edited names es') :
    substituted (pre ++ source (p :: ps)) last
        (replacements (tokensFrom names pre.length (p :: ps)) es) =
      pre.drop last ++ Lexemes.edited names (p :: ps) es := by
  rw [hk, he, source_cons, ← List.append_assoc, ih, List.drop_append_of_le_length hlast,
    List.append_assoc]

theorem substituted_eq_edited (names : List Text) (pre : Text) {last : Nat}
    (hlast : last ≤ pre.length) (ps : Lexemes) (es : List (Option Text)) :
    substituted (pre ++ source ps) last (replacements (tokensFrom names pre.length ps) es) =
      pre.drop last ++ ps.edited names es := by
  induction ps generalizing pre last es with
  | nil => simp [source, tokensFrom, replacements, substituted, Lexemes.edited]
  | cons p ps ih =>
    -- The text in front takes in every piece, but `last` moves only behind one that is replaced.
    have hnext (es : List (Option Text)) := @ih (pre ++ p.source) last
      (Nat.le_trans hlast (List.length_append ▸ Nat.le_add_right _ _)) es
    cases p with
    | char c => exact substituted_kept hlast (by rw [List.length_append]; rfl) rfl (hnext es)
    | hit x s =>
      cases x with
      | comment => exact substituted_kept hlast (by rw [List.length_append]; rfl) rfl (hnext es)
      | tag k =>
        by_cases hk : k.isAmong names = true
        · have he (es : List (Option Text)) :
              Lexemes.edited names (.hit (.tag k) s :: ps) es =
                es.head?.join.getD s ++ Lexemes.edited names ps es.tail := by
            rw [Lexemes.edited, if_pos hk]
          have hc := tokensFrom_among hk pre.length s ps
          cases es with
          | nil =>
            refine substituted_kept hlast ?_ (he []) (hnext [])
            rw [replacements_nil, List.tail_nil, replacements_nil]
          | cons e es =>
            cases e with
            | none =>
              refine substituted_kept hlast ?_ (he (none :: es)) (hnext es)
              rw [hc, replacements_none, List.length_append]
              rfl
            | some t =>
              have hnew := @ih (pre ++ s) (pre ++ s).length (Nat.le_refl _) es
              rw [List.drop_length, List.nil_append, List.length_append, List.append_assoc] at hnew
              rw [hc, replacements_some, substituted, he, source_cons]
              simp only [Piece.source, hnew, List.take_left, List.append_assoc]
              rfl
        · refine substituted_kept hlast ?_ ?_ (hnext es)
          · rw [tokensFrom_not_among hk, List.length_append]
            rfl
          · rw [Lexemes.edited, if_neg hk]
            rfl

theorem editTags_eq_substituted (names : List Text) (html : Text) (es : List (Option Text)) :
    editTags names html es = substituted html 0 (replacements (tokens names html) es) := by
  have h := substituted_eq_edited names [] (Nat.le_refl 0) (lexemes html) es
  rw [List.nil_append, source, source_lexemes] at h
  exact h.symm

theorem drop_take_append_drop {t : Text} {i j : Nat} (hi : i ≤ j) (hj : j ≤ t.length) :
    (t.take j).drop i ++ t.drop j = t.drop i := by
  have hlen : (t.take j).length = j := List.length_take_of_le hj
  rw [← List.drop_append_of_le_length (hi.trans_eq hlen.symm), List.take_append_drop]

theorem substituted_own {html : Text} {last : Nat} {ks : List Token}
    (hlast : ∀ k ∈ ks, last ≤ k.start) (hk : ∀ k ∈ ks, k.start < k.stop ∧ k.stop ≤ html.length)
    (hp : ks.Pairwise fun k l => k.stop ≤ l.start) :
    substituted html last (ks.map fun k => (k, k.textIn html)) = html.drop last := by
  induction ks generalizing last with
  | nil => rfl
  | cons k ks ih =>
    obtain ⟨hnext, hp⟩ := List.pairwise_cons.1 hp
    obtain ⟨hlt, hle⟩ := hk k List.mem_cons_self
    have hrest := ih hnext (fun l hl => hk l (List.mem_cons_of_mem _ hl)) hp
    rw [List.map_cons, substituted, hrest, List.append_assoc, Token.textIn,
      drop_take_append_drop (Nat.le_of_lt hlt) hle]
    exact drop_take_append_drop (hlast k List.mem_cons_self) (Nat.le_trans (Nat.le_of_lt hlt) hle)

def IsOneOpening (name t : Text) : Prop :=
  ∃ k, tokens [] t = [k] ∧ k.name = name ∧ k.closing = false ∧ k.start = 0 ∧ k.stop = t.length

theorem IsOpening.isOneOpening {name t : Text} (h : IsOpening name t) : IsOneOpening name t := by
  obtain ⟨n, body, ht, hn, rfl⟩ := h
  exact ⟨_, tokens_tagText ht, hn, rfl, rfl, rfl⟩

structure Replaces (names : List Text) (html out : Text) (rs : List (Token × Text)) : Prop where
  among : (rs.map Prod.fst).Sublist (tokens names html)
  opening : ∀ x ∈ rs, x.1.closing = false ∧ IsOneOpening x.1.name x.2
  before : html = substituted html 0 (rs.map fun x => (x.1, x.1.textIn html))
  after : out = substituted html 0 rs
  apart : ∀ k ∈ tokens [] html, k ∉ rs.map Prod.fst →
    ∀ x ∈ rs, k.stop ≤ x.1.start ∨ x.1.stop ≤ k.start

theorem replaces_editTags {names : List Text} {html : Text} {es : List (Option Text)}
    (h : es ≠ [] → Fits (tokens names html) es) :
    Replaces names html (editTags names html es) (replacements (tokens names html) es) := by
  have hsub := sublist_replacements (tokens names html) es
  have hall := hsub.trans (tokens_sublist names html)
  refine ⟨hsub, fun x hx => ?_, ?_, editTags_eq_substituted names html es,
    fun k hk hn x hx => ?_⟩
  · have hmem := mem_zip_of_mem_replacements hx
    have hfits := h (List.ne_nil_of_mem (List.of_mem_zip hmem).2)
    have hw := (List.forall₂_iff_zip.1 hfits).2 hmem
    exact hw.isOpening.imp_right IsOpening.isOneOpening
  · have hown := @substituted_own html 0 _ (fun k _ => Nat.zero_le k.start)
      (fun k hk => (exists_isWritten (hall.subset hk)).imp_right And.left)
      ((pairwise_tokens html).sublist hall)
    rw [List.map_map] at hown
    exact hown.symm
  · have hx' : x.1 ∈ (replacements (tokens names html) es).map Prod.fst :=
      List.mem_map_of_mem hx
    refine (eq_or_apart (pairwise_tokens html) hk (hall.subset hx')).resolve_left ?_
    rintro rfl
    exact hn hx'

end MailMarkup.Markup

namespace MailMarkup.Run

open Text Markup

/-- A stage that writes tags anew puts one opening tag of the same name in the place of some opening
tags of its names, and leaves all else as it was. -/
theorem replaced_in_place {r : Rewriter} {c : Config} {html out : Text}
    (h : r.stage.apply c html = .ok out) : ∃ rs, Replaces r.names html out rs := by
  rw [r.apply_stage] at h
  cases he : r.edits c html with
  | error f => simp [he, Except.map] at h
  | ok es =>
    simp only [he, Except.map, Except.ok.injEq] at h
    refine ⟨_, h ▸ replaces_editTags fun hne => ?_⟩
    exact Rewriter.forall₂_written he hne fun k _ =>
      ⟨Attributes.isLegal_parse k.attrs, r.suits_legal c k.toTag⟩

def spannedCells : Text :=
  "<!--<td colspan=1>--><TD Colspan=1 a='>' b></td><th colspan=2><th colspan=\"1\" /><tr>".toList

def unspannedCells : Text :=
  "<!--<td colspan=1>--><td a=\">\" b></td><th colspan=2><th /><tr>".toList

theorem replaced_in_place_behind_comment :
    Rewriter.cleanColspans.stage.apply plainConfig spannedCells = .ok unspannedCells ∧
      ∃ rs, Replaces Rewriter.cleanColspans.names spannedCells unspannedCells rs := by
  have h : Rewriter.cleanColspans.stage.apply plainConfig spannedCells = .ok unspannedCells := by
    decide +kernel
  exact ⟨h, replaced_in_place h⟩

end MailMarkup.Run
