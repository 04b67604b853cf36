import MailMarkup.Proofs.Table.Inserting

namespace MailMarkup.Table

open Text Markup

def marksOf (ps : Lexemes) : List Mark :=
  ps.filterMap fun
    | .hit (.tag k) _ => if k.isAmong structureNames then some (.of k) else none
    | _ => none

theorem marksOf_char (c : Char) (ps : Lexemes) : marksOf (.char c :: ps) = marksOf ps := rfl

theorem marksOf_comment (s : Text) (ps : Lexemes) : marksOf (.hit .comment s :: ps) = marksOf ps :=
  rfl

theorem marksOf_among {k : Tag} (hk : k.isAmong structureNames = true) (s : Text) (ps : Lexemes) :
    marksOf (.hit (.tag k) s :: ps) = .of k :: marksOf ps := by
  simp [marksOf, hk]

theorem marksOf_not_among {k : Tag} (hk : k.isAmong structureNames ≠ true) (s : Text)
    (ps : Lexemes) : marksOf (.hit (.tag k) s :: ps) = marksOf ps := by
  simp [marksOf, hk]

theorem map_of_tokensFrom (place : Nat) (ps : Lexemes) :
    (tokensFrom structureNames place ps).map (fun k => Mark.of k.toTag) = marksOf ps := by
  induction ps using Lexemes.induction generalizing place with
  | nil => rfl
  | char c ps ih => exact ih _
  | comment s ps ih => exact ih _
  | tag k s ps ih =>
    by_cases hk : k.isAmong structureNames = true
    · rw [tokensFrom_among hk, marksOf_among hk, List.map_cons, ih]
    · rw [tokensFrom_not_among hk, marksOf_not_among hk, ih]

theorem map_erase_rows (html : Text) :
    (rows html).map Row.erase = (Walk.start.takeAll (marksOf (lexemes html))).rows := by
  have := congrArg Walk.rows (Walk.erase_foldl_step .start (tokens structureNames html))
  rw [← map_of_tokensFrom 0]
  exact this

theorem rowCount_map_erase (rs : List Row) (t : Nat) :
    rowCount (rs.map Row.erase) t = rowCount rs t := by
  rw [rowCount, List.countP_map]
  rfl

theorem isWrapped_erase (rs : List Row) (r : Row) :
    isWrapped (rs.map Row.erase) r.erase = isWrapped rs r := by
  simp [isWrapped, isMultiColumn, rowCount_map_erase, Row.erase]

theorem marksOf_tagText {closing : Bool} {n body : Text} (h : IsTag n body)
    (hs : structureNames.any (lower · == n.map Char.toLower) = true) (r : Text) :
    marksOf (lexemes (tagText closing n body ++ r)) =
      .of (.ofBody closing n body) :: marksOf (lexemes r) := by
  rw [lexemes_tagText h, marksOf_among (Bool.or_eq_true_iff.2 (.inr hs))]

theorem isLegal_newTag (l : Layout) :
    Attributes.IsLegal
      (forcedAttributes l ++ [⟨"style".toList, some (containerStyle l).render⟩]) := by
  intro a ha
  rcases List.mem_append.1 ha with ha | ha
  · exact Run.isLegal_forcedAttributes l a ha
  · rw [List.mem_singleton.1 ha]
    rfl

theorem marksOf_wrapperOpening (l : Layout) (r : Text) :
    marksOf (lexemes (wrapperOpening l ++ r)) = Walk.wrapperMarks ++ marksOf (lexemes r) := by
  have hrow : IsTag "tr".toList [] := ⟨by decide, by decide, rfl⟩
  have hcell : IsTag "td".toList " style=\"padding:0;\"".toList := ⟨by decide, by decide, by decide⟩
  have htable := isTag_render (show isName name = true by decide) (isLegal_newTag l)
  have he : wrapperOpening l = tagText false "tr".toList [] ++
      tagText false "td".toList " style=\"padding:0;\"".toList ++ newTag l :=
    congrArg (· ++ newTag l) (by decide)
  have ht : Mark.of (.ofBody false name (Attributes.render
      (forcedAttributes l ++ [⟨"style".toList, some (containerStyle l).render⟩]))) =
        .openTable := rfl
  rw [he, List.append_assoc, List.append_assoc, marksOf_tagText hrow (by decide),
    marksOf_tagText hcell (by decide), newTag, openTag_eq_tagText,
    marksOf_tagText htable (by decide), ht]
  rfl

theorem marksOf_wrapperClosing (r : Text) :
    marksOf (lexemes (wrapperClosing ++ r)) = Walk.wrapperEndMarks ++ marksOf (lexemes r) := by
  have htable : IsTag "table".toList [] := ⟨by decide, by decide, rfl⟩
  have hcell : IsTag "td".toList [] := ⟨by decide, by decide, rfl⟩
  have hrow : IsTag "tr".toList [] := ⟨by decide, by decide, rfl⟩
  have he : wrapperClosing = tagText true "table".toList [] ++
      (tagText true "td".toList [] ++ tagText true "tr".toList []) := by
    decide
  rw [he, List.append_assoc, List.append_assoc, marksOf_tagText htable (by decide),
    marksOf_tagText hcell (by decide), marksOf_tagText hrow (by decide)]
  rfl

variable {l : Layout} {b : Nat → Bool}

theorem sameToAngle_paddedText (w : Walk) (t : Text) :
    SameToAngle t (paddedText l b w (lexemes t)) := by
  induction t with
  | nil => exact .nil
  | cons c r ih =>
    cases hl : lexeme? (c :: r) with
    | none =>
      rw [lexemes_char hl]
      exact .cons c ih
    | some x =>
      obtain ⟨x, n⟩ := x
      obtain rfl := exists_angle_of_lexeme? hl
      rw [lexemes, scan_cons_some hl]
      cases x with
      | comment => exact .angle _ _
      | tag k =>
        simp only [paddedText]
        split
        · split
          · exact .angle _ _
          · exact .angle _ _
        · exact .angle _ _

theorem marksOf_paddedTag (w : Walk) {closing : Bool} {n body : Text} (h : IsTag n body)
    (hk : (Tag.ofBody closing n body).isAmong structureNames = true) (ps : Lexemes)
    (ih : marksOf (lexemes (paddedText l b (w.take (.of (.ofBody closing n body))) ps)) =
      (w.take (.of (.ofBody closing n body))).pad b (marksOf ps)) :
    marksOf (lexemes (paddedText l b w
        (.hit (.tag (.ofBody closing n body)) (tagText closing n body) :: ps))) =
      w.pad b (.of (.ofBody closing n body) :: marksOf ps) := by
  have hclose : marksOf (lexemes ((if w.closesChosen b (.of (.ofBody closing n body)) then
        wrapperClosing else []) ++ paddedText l b (w.take (.of (.ofBody closing n body))) ps)) =
      (if w.closesChosen b (.of (.ofBody closing n body)) then Walk.wrapperEndMarks else []) ++
        (w.take (.of (.ofBody closing n body))).pad b (marksOf ps) := by
    split
    · rw [marksOf_wrapperClosing, ih]
    · exact ih
  simp only [paddedText, if_pos hk, Walk.pad, Walk.padOne, List.append_assoc, List.cons_append]
  split
  · rw [marksOf_wrapperOpening, lexemes_tagText h, marksOf_among hk, hclose]
  · rw [List.nil_append, lexemes_tagText h, marksOf_among hk, hclose]
    rfl

theorem marksOf_paddedText (w : Walk) {t : Text} (h : NeverFallsBack t) :
    marksOf (lexemes (paddedText l b w (lexemes t))) = w.pad b (marksOf (lexemes t)) := by
  induction h generalizing w with
  | nil => rfl
  | @char c r startsNone stays _ ih =>
    have hu := (@sameToAngle_paddedText l b w r).lexeme?_none startsNone stays
    rw [lexemes_char startsNone]
    simp only [paddedText, Piece.source, List.singleton_append]
    rw [lexemes_char hu, marksOf_char, marksOf_char]
    exact ih w
  | comment ends _ ih =>
    rw [lexemes_commentText ends, marksOf_comment]
    simp only [paddedText, Piece.source]
    rw [lexemes_commentText ends, marksOf_comment]
    exact ih w
  | @openComment t all =>
    have hend : paddedText l b w [.hit .comment t] = t := List.append_nil _
    rw [all, hend, all]
    rfl
  | @tag closing n body r isTag _ ih =>
    rw [lexemes_tagText isTag]
    by_cases hk : (Tag.ofBody closing n body).isAmong structureNames = true
    · rw [marksOf_among hk]
      exact marksOf_paddedTag w isTag hk _ (ih _)
    · rw [marksOf_not_among hk]
      simp only [paddedText, if_neg hk]
      rw [lexemes_tagText isTag, marksOf_not_among hk]
      exact ih w

theorem exists_of_getElem?_map {α β : Type} {f : α → β} {xs : List α} {i : Nat} {y : β}
    (h : (xs.map f)[i]? = some y) : ∃ x, xs[i]? = some x ∧ f x = y := by
  rw [List.getElem?_map] at h
  exact Option.map_eq_some_iff.1 h

theorem isWrapped_rows_of_pad {html out : Text}
    (hm : marksOf (lexemes out) = Walk.start.pad (chosen html) (marksOf (lexemes html))) {r : Row}
    (hr : r ∈ rows out) : isWrapped (rows out) r = false := by
  have hrows := map_erase_rows html
  have hfollows : Follows (chosen html) (Walk.start.takeAll (marksOf (lexemes html)))
      (Walk.start.takeAll (Walk.start.pad (chosen html) (marksOf (lexemes html)))) := by
    refine (follows_start _).takeAll Walk.isSound_start _ fun i r hi hb => ?_
    rw [← hrows] at hi
    obtain ⟨q, hq, rfl⟩ := exists_of_getElem?_map hi
    simp only [chosen, hq, Option.any_some] at hb
    simpa [Row.erase] using stop_of_isWrapped hb
  obtain ⟨owners, parts, -, hp, -⟩ := hfollows
  rw [← hm, ← map_erase_rows out, ← hrows] at hp
  rw [← isWrapped_erase]
  refine hp.isWrapped_eq_false (fun i r hi => ?_) (List.mem_map_of_mem hr)
  obtain ⟨q, hq, rfl⟩ := exists_of_getElem?_map hi
  rw [isWrapped_erase, chosen, hq]
  rfl

theorem wrapColumns_of_not_isWrapped (l : Layout) {html : Text}
    (h : ∀ r ∈ rows html, isWrapped (rows html) r = false) : wrapColumns l html = html := by
  have hnone : wrappedRows html = [] := by
    refine List.filter_eq_nil_iff.2 fun r hr => ?_
    simp [h r hr]
  rw [wrapColumns, hnone]
  simp [splice]

/-- Of a text in which the scanner never falls back no row is left to wrap. -/
theorem wrapColumns_settled (l : Layout) {html : Text} (hf : fallbacks html = []) :
    (∀ r ∈ rows (wrapColumns l html), isWrapped (rows (wrapColumns l html)) r = false) ∧
      wrapColumns l (wrapColumns l html) = wrapColumns l html := by
  have hmarks : marksOf (lexemes (wrapColumns l html)) =
      Walk.start.pad (chosen html) (marksOf (lexemes html)) := by
    rw [wrapColumns_eq]
    exact marksOf_paddedText .start (neverFallsBack_of_fallbacksFrom hf)
  have hall : ∀ r ∈ rows (wrapColumns l html), isWrapped (rows (wrapColumns l html)) r = false :=
    fun r hr => isWrapped_rows_of_pad hmarks hr
  exact ⟨hall, wrapColumns_of_not_isWrapped l hall⟩

def twoRows : Text := "<table><tr><td>a<td>b</tr><tr><td>c</table>".toList

def twoRowsWrapped : Text :=
  "<table><tr><td style=\"padding:0;\"><table role=\"presentation\" align=\"center\"".toList ++
    " width=\"100%\" border=\"0\" cellpadding=\"0\" cellspacing=\"0\"".toList ++
    " style=\"mso-table-lspace:0pt;mso-table-rspace:0pt;border-collapse:collapse;".toList ++
    "max-width:600px;\"><tr><td>a<td>b</tr></table></td></tr><tr><td>c</table>".toList

theorem wrapColumns_settled_in_two_rows :
    fallbacks twoRows = [] ∧ wrapColumns ⟨true, .px600, false⟩ twoRows = twoRowsWrapped ∧
      (∀ r ∈ rows twoRowsWrapped, isWrapped (rows twoRowsWrapped) r = false) ∧
      wrapColumns ⟨true, .px600, false⟩ twoRowsWrapped = twoRowsWrapped := by
  have hf : fallbacks twoRows = [] := by decide
  have hwrap : wrapColumns ⟨true, .px600, false⟩ twoRows = twoRowsWrapped := by
    rw [wrapColumns_eq]
    decide +kernel
  have h := wrapColumns_settled ⟨true, .px600, false⟩ hf
  rw [hwrap] at h
  exact ⟨hf, hwrap, h⟩

end MailMarkup.Table
