import MailMarkup.Proofs.HiddenText.HiddenRow
import MailMarkup.Proofs.Markup.TokenPositions
import MailMarkup.Proofs.Spacing.Respacing

namespace MailMarkup.HiddenText

open Text Markup

def beginsRowEnd (t : Text) : Bool :=
  (tagStart? t).any fun s => s.1 && (s.2.takeWhile isNameChar).map Char.toLower == "tr".toList

def rowEnds (html : Text) : List Nat :=
  ((places html).filter fun x => beginsRowEnd (html.drop x.1)).map (·.1)

def rowEndText : Text := "</tr>".toList

def rowEndPiece : Piece Lexeme := .hit (.tag (.ofBody true "tr".toList [])) rowEndText

def closesRow : Piece Lexeme → Bool
  | .hit (.tag k) _ => k.closing && k.name == "tr".toList
  | _ => false

def EndsRow (s rest : Text) : Prop :=
  ∃ ps, lexemes (s ++ rest) = ps ++ rowEndPiece :: lexemes rest ∧ s = source ps ++ rowEndText ∧
    ∀ p ∈ ps, closesRow p = false

variable {rest : Text}

theorem EndsRow.cons {u s : Text} {p : Piece Lexeme} (h : EndsRow s rest)
    (hp : closesRow p = false) (hu : p.source = u)
    (hl : lexemes (u ++ (s ++ rest)) = p :: lexemes (s ++ rest)) : EndsRow (u ++ s) rest := by
  obtain ⟨ps, hs, rfl, hps⟩ := h
  refine ⟨p :: ps, ?_, ?_, ?_⟩
  · rw [List.append_assoc, hl, hs]
    rfl
  · rw [source_cons, hu, List.append_assoc]
  · exact fun q hq => (List.mem_cons.1 hq).elim (· ▸ hp) (hps q)

theorem EndsRow.nodes {ns : List Node} (hn : IsRead ns)
    (hc : ∀ n ∈ ns, ∀ p ∈ n.pieces, closesRow p = false) :
    EndsRow (sources ns ++ rowEndText) rest := by
  have ht : IsTag "tr".toList [] := Node.isTag_iff.1 (by decide)
  refine ⟨ns.flatMap Node.pieces, ?_, ?_, fun p hp => ?_⟩
  · rw [List.append_assoc, lexemes_append_of_isRead hn]
    exact congrArg _ (@lexemes_tagText true _ _ ht rest)
  · rw [← lexemes_of_isRead hn, source, source_lexemes]
  · obtain ⟨n, hn, hp⟩ := List.mem_flatMap.1 hp
    exact hc n hn p hp

def blockNodes (t : Text) : List Node :=
  hiddenBlock :: ((escapeHtml t).map .char ++ [.tag true "div".toList [], .tag true "td".toList []])

def cellNodes (t : Text) : List Node := .tag false "tr".toList [] :: hiddenCell :: blockNodes t

theorem rowNodes_eq (t : Text) : rowNodes t = cellNodes t ++ [.tag true "tr".toList []] := by
  simp [rowNodes, cellNodes, blockNodes]

theorem row_eq (t : Text) : row t = sources (cellNodes t) ++ rowEndText := by
  rw [← sources_rowNodes, rowNodes_eq, sources_append]
  rfl

def cellOpening : Text := "<tr><td style=\"padding:0;\"".toList

theorem row_eq_cellOpening (t : Text) :
    row t = cellOpening ++ '>' :: (sources (blockNodes t) ++ rowEndText) := by
  have h : (Node.tag false "tr".toList []).source ++ hiddenCell.source = cellOpening ++ ['>'] := by
    decide
  rw [row_eq, cellNodes, sources_cons, sources_cons, ← List.append_assoc, h]
  simp only [List.append_assoc, List.nil_append, List.cons_append]

theorem closesRow_cellNodes (t : Text) :
    ∀ n ∈ cellNodes t, ∀ p ∈ n.pieces, closesRow p = false := by
  intro n hn
  simp only [cellNodes, blockNodes, List.mem_append, List.mem_cons, List.not_mem_nil, or_false,
    List.mem_map] at hn
  rcases hn with rfl | rfl | rfl | ⟨c, -, rfl⟩ | rfl | rfl
  all_goals
    intro p hp
    obtain rfl := List.mem_singleton.1 hp
    rfl

theorem endsRow_of_isSuffix {t : Text} {ns : List Node} (h : ns <:+ cellNodes t) :
    EndsRow (sources ns ++ rowEndText) rest := by
  refine .nodes (fun n hn => ?_) fun n hn => closesRow_cellNodes t n (h.subset hn)
  refine (isClean_rowNodes t).isRead n ?_
  rw [rowNodes_eq]
  exact List.mem_append_left _ (h.subset hn)

theorem endsRow_row (t : Text) : EndsRow (row t) rest := by
  rw [row_eq]
  exact endsRow_of_isSuffix (List.suffix_refl _)

theorem endsRow_blockNodes (t : Text) : EndsRow (sources (blockNodes t) ++ rowEndText) rest :=
  endsRow_of_isSuffix ⟨[.tag false "tr".toList [], hiddenCell], rfl⟩

theorem endsRow_cellClosing : EndsRow "</td></tr>".toList rest := by
  have h : "</td></tr>".toList = sources [.tag true "td".toList []] ++ rowEndText := by decide
  rw [h]
  exact endsRow_of_isSuffix (t := [])
    ⟨[.tag false "tr".toList [], hiddenCell, hiddenBlock, .tag true "div".toList []], rfl⟩

def RunsInto (t rest x : Text) (body : Option Text) : Prop :=
  ∃ b tail, body = some b ∧ x ++ row t = b ++ '>' :: tail ∧ EndsRow tail rest

theorem RunsInto.append {t x : Text} {body : Option Text} (h : RunsInto t rest x body) (u : Text) :
    RunsInto t rest (u ++ x) (body.map (u ++ ·)) := by
  obtain ⟨b, tail, rfl, hb, ht⟩ := h
  exact ⟨u ++ b, tail, rfl, by rw [List.append_assoc, hb, List.append_assoc], ht⟩

theorem body?_inside {d : Char} {s : Text} (h : d ∉ s) (r : Text) :
    body? (.inside d) (s ++ r) = (body? (.inside d) r).map (s ++ ·) := by
  induction s with
  | nil => simp
  | cons c s ih =>
    rw [List.mem_cons, not_or] at h
    have hn : (Quoting.inside d).next c (s ++ r) = .inside d := if_neg (Ne.symm h.1)
    rw [List.cons_append, body?, hn, ih h.2]
    simp [Quoting.endsTag, Function.comp_def]

theorem body?_inside_none {d : Char} {r : Text} (h : d ∉ r) : body? (.inside d) r = none := by
  have := body?_inside h []
  rwa [List.append_nil] at this

theorem next_of_ne {q : Quoting} {c : Char} (hc : c ≠ '"')
    (hq : q = .inside '\'' ∨ ∃ e, q = .outside e) (r : Text) :
    (∃ e, q.next c r = .outside e) ∨
      q.next c r = .inside '\'' ∧ (q = .inside '\'' ∧ c ≠ '\'' ∨ '\'' ∈ r) := by
  rcases hq with rfl | ⟨e, rfl⟩
  · rw [Quoting.next]
    split
    · exact .inl ⟨_, rfl⟩
    · rename_i hne
      exact .inr ⟨rfl, .inl ⟨rfl, hne⟩⟩
  · rw [Quoting.next]
    split
    · rename_i h
      simp only [Bool.and_eq_true, isQuote, Bool.or_eq_true, beq_iff_eq, List.contains_iff_mem] at h
      obtain rfl := h.1.2.resolve_left hc
      exact .inr ⟨rfl, .inr h.2⟩
    · exact .inl ⟨_, rfl⟩

theorem body?_behind_text {q : Quoting} {w : Text} (hg : '>' ∉ w) (hd : '"' ∉ w)
    (hq : q = .inside '\'' ∨ ∃ e, q = .outside e) (hr : body? (.inside '\'') rest = none) :
    body? q (w ++ rowClosing ++ rest) = some (w ++ "</div".toList) ∨
      body? q (w ++ rowClosing ++ rest) = none ∧ ('\'' ∈ rest ∨ q = .inside '\'' ∧ '\'' ∉ w) := by
  induction w generalizing q with
  | nil =>
    rcases hq with rfl | ⟨e, rfl⟩
    · refine .inr ⟨?_, .inr ⟨rfl, by simp⟩⟩
      rw [List.nil_append, body?_inside (by decide), hr]
      rfl
    · left
      cases e <;> rfl
  | cons c w ih =>
    rw [List.mem_cons, not_or] at hg hd
    have hend : q.endsTag c = false := by
      rcases hq with rfl | ⟨e, rfl⟩
      · rfl
      · simpa [Quoting.endsTag] using Ne.symm hg.1
    have hstep : body? q (c :: w ++ rowClosing ++ rest) =
        (body? (q.next c (w ++ rowClosing ++ rest)) (w ++ rowClosing ++ rest)).map (c :: ·) := by
      simp [body?, hend]
    have hnext := next_of_ne (Ne.symm hd.1) hq (w ++ rowClosing ++ rest)
    rcases ih hg.2 hd.2 (hnext.symm.imp_left And.left) with hb | ⟨hb, ho⟩
    · exact .inl (by rw [hstep, hb]; rfl)
    · refine .inr ⟨by rw [hstep, hb]; rfl, or_iff_not_imp_left.2 fun hm => ?_⟩
      obtain ⟨hi, hw⟩ := ho.resolve_left hm
      have hno : '\'' ∉ w ++ rowClosing ++ rest := by
        have : '\'' ∉ rowClosing := by decide
        simp [hw, hm, this]
      rcases hnext with ⟨e, he⟩ | ⟨-, h⟩
      · rw [he] at hi
        cases hi
      · obtain ⟨hq, hc⟩ := h.resolve_right hno
        exact ⟨hq, by simp [Ne.symm hc, hw]⟩

theorem body?_row {d : Char} (hd : isQuote d = true) (hr : body? (.inside d) rest = none)
    (t : Text) :
    RunsInto t rest [] (body? (.inside d) (row t ++ rest)) ∨
      body? (.inside d) (row t ++ rest) = none ∧ (d ∈ rest ∨ d ∉ row t) := by
  simp only [isQuote, Bool.or_eq_true, beq_iff_eq] at hd
  rcases hd with rfl | rfl
  · left
    refine ⟨cellOpening, _, ?_, row_eq_cellOpening t, endsRow_blockNodes t⟩
    rw [row_eq_cellOpening, List.append_assoc]
    exact body?_of_isSealed (by decide) _
  · have hg : '>' ∉ escapeHtml t := not_mem_escapeHtml (by decide) t
    have hq : '"' ∉ escapeHtml t := not_mem_escapeHtml (by decide) t
    have hopen : '\'' ∉ rowOpening := by decide +kernel
    have hbody : body? (.inside '\'') (row t ++ rest) =
        (body? (.inside '\'') (escapeHtml t ++ rowClosing ++ rest)).map (rowOpening ++ ·) := by
      rw [row, List.append_assoc, List.append_assoc, body?_inside hopen, List.append_assoc]
    rcases body?_behind_text hg hq (.inl rfl) hr with hb | ⟨hb, ho⟩
    · left
      refine ⟨rowOpening ++ (escapeHtml t ++ "</div".toList), _, ?_, ?_, endsRow_cellClosing⟩
      · rw [hbody, hb]
        rfl
      · have hclosing : rowClosing = "</div".toList ++ '>' :: "</td></tr>".toList := rfl
        simp only [row, hclosing, List.nil_append, List.append_assoc]
    · right
      refine ⟨by rw [hbody, hb]; rfl, ho.imp_right fun hn => ?_⟩
      have : '\'' ∉ rowClosing := by decide
      simp [row, hopen, hn.2, this]

theorem next_of_subset {r r' : Text} (h : r ⊆ r') (q : Quoting) (c : Char) :
    q.next c r' = q.next c r ∨ q.next c r' = .inside c ∧ isQuote c = true ∧ c ∉ r ∧ c ∈ r' := by
  cases q with
  | inside d => exact .inl rfl
  | outside e =>
    by_cases hc : c ∈ r
    · simp [Quoting.next, hc, h hc]
    · by_cases hc' : c ∈ r'
      · by_cases hq : e = true ∧ isQuote c = true
        · simp [Quoting.next, hc, hc', hq]
        · left
          have : (e && isQuote c) = false := by simpa using hq
          simp [Quoting.next, this]
      · simp [Quoting.next, hc, hc']

theorem isQuote_of_next {q : Quoting} (hq : ∀ d, q = .inside d → isQuote d = true) {c : Char}
    {r : Text} : ∀ d, q.next c r = .inside d → isQuote d = true := by
  intro d h
  cases q with
  | inside e =>
    rw [Quoting.next] at h
    split at h
    · cases h
    · exact hq d h
  | outside e =>
    rw [Quoting.next] at h
    split at h
    · rename_i hc
      simp only [Bool.and_eq_true] at hc
      cases h
      exact hc.1.2
    · cases h

theorem body?_through_row {q : Quoting} (hq : ∀ d, q = .inside d → isQuote d = true) {y : Text}
    (hb : ∀ b, body? q (y ++ '>' :: rest) = some b → b.length ≤ y.length) (t : Text) :
    body? q (y ++ '>' :: (row t ++ rest)) = body? q (y ++ '>' :: rest) ∨
      RunsInto t rest (y ++ ['>']) (body? q (y ++ '>' :: (row t ++ rest))) := by
  induction y generalizing q with
  | nil =>
    cases q with
    | outside e => exact .inl rfl
    | inside d =>
      have hd : isQuote d = true := hq d rfl
      have hne : d ∉ ['>'] := by
        rintro hm
        obtain rfl := List.mem_singleton.1 hm
        exact absurd hd (by decide)
      have hin (r : Text) : body? (.inside d) ('>' :: r) = (body? (.inside d) r).map ('>' :: ·) :=
        body?_inside hne r
      have hr : body? (.inside d) rest = none := by
        by_contra hn
        obtain ⟨b, hs⟩ := Option.ne_none_iff_exists'.1 hn
        have := hb ('>' :: b) (by rw [List.nil_append, hin, hs]; rfl)
        simp at this
      rw [List.nil_append, List.nil_append, hin, hin]
      rcases body?_row hd hr t with hrow | ⟨hrow, -⟩
      · exact .inr (hrow.append ['>'])
      · exact .inl (by rw [hrow, hr])
  | cons c y ih =>
    by_cases hend : q.endsTag c = true
    · left
      simp [body?, hend]
    have hstep (r : Text) : body? q (c :: y ++ '>' :: r) =
        (body? (q.next c (y ++ '>' :: r)) (y ++ '>' :: r)).map (c :: ·) := by
      simp [body?, hend]
    rw [hstep, hstep]
    have hsub : y ++ '>' :: rest ⊆ y ++ '>' :: (row t ++ rest) := by
      intro d hm
      simp only [List.mem_append, List.mem_cons] at hm ⊢
      tauto
    rcases next_of_subset hsub q c with hn | ⟨hn, hc, hm, hm'⟩
    · rw [hn]
      refine (ih (isQuote_of_next hq) fun b h => ?_).imp (congrArg _) (·.append [c])
      simpa using hb (c :: b) (by rw [hstep, h]; rfl)
    · -- the row has the first quote that closes this one
      simp only [List.mem_append, List.mem_cons, not_or] at hm hm'
      have hrow : c ∈ row t := by tauto
      have hr := body?_inside_none hm.2.2
      have hpass : body? (.inside c) (y ++ '>' :: (row t ++ rest)) =
          (body? (.inside c) (row t ++ rest)).map (y ++ ['>'] ++ ·) := by
        have := @body?_inside c (y ++ ['>']) (by simp [hm.1, hm.2.1]) (row t ++ rest)
        simpa using this
      rw [hn, hpass]
      rcases body?_row hc hr t with h | ⟨-, h | h⟩
      · have h := (h.append (y ++ ['>'])).append [c]
        simp only [List.append_nil] at h
        exact .inr h
      · exact absurd h hm.2.2
      · exact absurd hrow h

theorem comment?_none_iff {t : Text} : comment? t = none ↔ ¬ "<!--".toList <+: t := by
  unfold comment?
  split
  · simp
  · rename_i h
    refine ⟨fun _ ⟨r, hr⟩ => h r hr.symm, fun _ => rfl⟩

theorem comment?_none_append {y r : Text} (h : comment? (y ++ '>' :: r) = none) (r' : Text) :
    comment? (y ++ '>' :: r') = none := by
  rw [comment?_none_iff] at h ⊢
  have hsplit (r : Text) : y ++ '>' :: r = (y ++ ['>']) ++ r := by simp
  intro hp
  rw [hsplit] at h hp
  rcases List.prefix_or_prefix_of_prefix hp (List.prefix_append _ _) with hp | hp
  · exact h (hp.trans (List.prefix_append _ _))
  · have hm : '>' ∈ "<!--".toList := hp.subset (by simp)
    exact absurd hm (by decide)

theorem takeWhile_append_cons {p : Char → Bool} {c : Char} (h : p c = false) (a b : Text) :
    (a ++ c :: b).takeWhile p = a.takeWhile p := by
  induction a with
  | nil => exact List.takeWhile_cons_of_neg (by simp [h])
  | cons d a ih => rw [List.cons_append, List.takeWhile_cons, List.takeWhile_cons, ih]

theorem startsName_append_cons (r s : Text) :
    startsName (r ++ '>' :: s) = startsName (r ++ ['>']) := by
  have hp : isNameChar '>' = false := by decide
  simp only [startsName, takeWhile_append_cons hp, Spacing.dropWhile_append_cons hp]
  cases r.dropWhile isNameChar <;> rfl

theorem tagStart?_opening {c : Char} (h : c ≠ '/') (r : Text) :
    tagStart? ('<' :: c :: r) = if startsName (c :: r) then some (false, c :: r) else none := by
  unfold tagStart?
  split
  · rename_i he
    exact absurd (List.cons.inj (List.cons.inj he).2).1 h
  · rename_i he
    rw [(List.cons.inj he).2]
  · rename_i h2
    exact absurd rfl (h2 (c :: r))

theorem tagStart?_append (y r : Text) :
    tagStart? (y ++ '>' :: r) = (tagStart? (y ++ ['>'])).map fun s => (s.1, s.2 ++ r) := by
  match y with
  | [] => rfl
  | c :: y =>
    by_cases hc : c = '<'
    · subst hc
      match y with
      | [] => rfl
      | d :: y =>
        by_cases hd : d = '/'
        · subst hd
          simp only [List.cons_append, tagStart?, startsName_append_cons y r]
          split <;> simp
        · have h := startsName_append_cons (d :: y) r
          simp only [List.cons_append] at h
          simp only [List.cons_append, tagStart?_opening hd, h]
          split <;> simp
    · simp [tagStart?, hc]

theorem exists_of_tagStart? {y r : Text} {closing : Bool}
    (h : tagStart? (y ++ ['>']) = some (closing, r)) :
    ∃ name w, y = '<' :: ((if closing then ['/'] else []) ++ name ++ w) ∧
      ∀ s, beginsRowEnd (y ++ '>' :: s) = (closing && name.map Char.toLower == "tr".toList) ∧
        lexeme? (y ++ '>' :: s) = (body? (.outside false) (w ++ '>' :: s)).map fun b =>
          (.tag (.ofBody closing name b), (tagText closing name b).length - 1) := by
  have hp : isNameChar '>' = false := by decide
  obtain ⟨hy, hn⟩ := eq_of_tagStart? h
  obtain ⟨z, c, rfl⟩ : ∃ z c, r = z ++ [c] := by
    rcases List.eq_nil_or_concat r with rfl | ⟨z, c, rfl⟩
    · simp [startsName] at hn
    · exact ⟨z, c, List.concat_eq_append⟩
  obtain ⟨rfl, rfl⟩ : y = '<' :: (if closing then '/' :: z else z) ∧ c = '>' := by
    have hy : y ++ ['>'] = ('<' :: (if closing then '/' :: z else z)) ++ [c] := by
      rw [hy]
      cases closing <;> simp
    obtain ⟨h1, h2⟩ := List.append_inj' hy rfl
    exact ⟨h1, (List.cons.inj h2).1.symm⟩
  refine ⟨z.takeWhile isNameChar, z.dropWhile isNameChar, ?_, fun s => ?_⟩
  · cases closing <;> simp
  · have hs := tagStart?_append ('<' :: (if closing then '/' :: z else z)) s
    rw [h, Option.map_some] at hs
    simp only [List.append_assoc, List.singleton_append] at hs
    refine ⟨?_, ?_⟩
    · rw [beginsRowEnd, hs, Option.any_some, takeWhile_append_cons hp]
    · rw [lexeme?, comment?_of_tagStart? hs, tag?_of_tagStart? hs, takeWhile_append_cons hp,
        Spacing.dropWhile_append_cons hp]
      simp only [Option.map_map]
      congr 1
      funext b
      cases closing <;> simp [tagText] <;> omega

theorem lexeme?_through_row {y : Text} (hc : comment? (y ++ '>' :: rest) = none)
    (hb : ∀ k n, lexeme? (y ++ '>' :: rest) = some (.tag k, n) → n ≤ y.length)
    (hr : beginsRowEnd (y ++ '>' :: rest) = false) (t : Text) :
    lexeme? (y ++ '>' :: (row t ++ rest)) = lexeme? (y ++ '>' :: rest) ∨
      EndsRow (y ++ '>' :: row t) rest := by
  cases hs : tagStart? (y ++ ['>']) with
  | none =>
    have hn (s : Text) : tagStart? (y ++ '>' :: s) = none := by rw [tagStart?_append, hs]; rfl
    left
    simp [lexeme?, hc, comment?_none_append hc, tag?_of_tagStart?_none (hn _)]
  | some s =>
    obtain ⟨closing, z⟩ := s
    obtain ⟨name, w, rfl, hl⟩ := exists_of_tagStart? hs
    have hbody : ∀ b, body? (.outside false) (w ++ '>' :: rest) = some b → b.length ≤ w.length := by
      intro b h
      have := hb _ _ (by rw [(hl rest).2, h]; rfl)
      cases closing <;> simp [tagText] at this <;> omega
    rcases body?_through_row (by simp) hbody t with h | ⟨b, tail, h, hw, ht⟩
    · left
      rw [(hl _).2, (hl _).2, h]
    · right
      have hw : w ++ '>' :: row t = b ++ '>' :: tail := by simpa using hw
      have he : '<' :: ((if closing then ['/'] else []) ++ name ++ w) ++ '>' :: row t =
          tagText closing name b ++ tail := by
        cases closing <;> simp [tagText, hw]
      have hall : '<' :: ((if closing then ['/'] else []) ++ name ++ w) ++ '>' :: (row t ++ rest) =
          tagText closing name b ++ (tail ++ rest) := by
        rw [← List.append_assoc, ← he]
        simp
      have hl' := (hl (row t ++ rest)).2
      rw [h, hall] at hl'
      rw [he]
      refine ht.cons (p := .hit (.tag (.ofBody closing name b)) (tagText closing name b)) ?_ rfl
        (scan_append (by simp [tagText]) hl')
      rw [← hr, (hl rest).1]
      rfl

theorem beginsRowEnd_of_lexeme? {s : Text} {k : Tag} {n : Nat}
    (h : lexeme? s = some (.tag k, n)) :
    beginsRowEnd s = (k.closing && k.name == "tr".toList) := by
  have ht := tag?_of_lexeme? h
  cases hs : tagStart? s with
  | none => simp [tag?_of_tagStart?_none hs] at ht
  | some x =>
    rw [tag?_of_tagStart? hs] at ht
    obtain ⟨b, -, hb⟩ := Option.map_eq_some_iff.1 ht
    rw [← (Prod.mk.inj hb).1, beginsRowEnd, hs, Option.any_some]
    rfl

theorem comment?_none_of_lexeme? {s : Text} (h : ∀ n, lexeme? s ≠ some (.comment, n)) :
    comment? s = none := by
  cases hc : comment? s with
  | none => rfl
  | some x => exact absurd (by rw [lexeme?, hc]) (h x.2)

def EndsWithTag (ps : Lexemes) : Prop :=
  ∃ qs k y, ps = qs ++ [.hit (.tag k) (y ++ ['>'])]

theorem EndsWithTag.exists_source {ps : Lexemes} (h : EndsWithTag ps) :
    ∃ y, source ps = y ++ ['>'] := by
  obtain ⟨qs, k, y, rfl⟩ := h
  refine ⟨source qs ++ y, ?_⟩
  rw [source_append, List.append_assoc]
  exact congrArg _ (List.append_nil _)

theorem EndsWithTag.of_cons {p : Piece Lexeme} {ps : Lexemes} (h : EndsWithTag (p :: ps)) :
    EndsWithTag ps ∨ ps = [] ∧ ∃ k y, p = .hit (.tag k) (y ++ ['>']) := by
  obtain ⟨qs, k, y, he⟩ := h
  cases qs with
  | nil =>
    obtain ⟨rfl, rfl⟩ := List.cons.inj he
    exact .inr ⟨rfl, k, y, rfl⟩
  | cons q qs => exact .inl ⟨qs, k, y, (List.cons.inj he).2⟩

theorem endsRow_append {ps : Lexemes} (hl : lexemes (source ps ++ rest) = ps ++ lexemes rest)
    (hlast : ps = [] ∨ EndsWithTag ps)
    (hr : ∀ qs p rs, ps = qs ++ p :: rs → beginsRowEnd (source (p :: rs) ++ rest) = false)
    (t : Text) : EndsRow (source ps ++ row t) rest := by
  induction ps with
  | nil => exact endsRow_row t
  | cons p ps ih =>
    have htail : lexemes (source ps ++ rest) = ps ++ lexemes rest := by
      have := @lexemes_source_tail _ p [] (ps ++ lexemes rest) hl
      rwa [source_append, source, source, source_lexemes] at this
    have hlast := hlast.resolve_left (List.cons_ne_nil p ps)
    have ih := ih htail (hlast.of_cons.symm.imp_left And.left) fun qs q rs he =>
      hr (p :: qs) q rs (by rw [he]; rfl)
    have hhead := hr [] p ps rfl
    obtain ⟨y, hy⟩ := hlast.exists_source
    have hsrc (r : Text) : source (p :: ps) ++ r = y ++ '>' :: r := by
      rw [hy, List.append_assoc, List.singleton_append]
    have hcons (r : Text) : source (p :: ps) ++ r = p.source ++ (source ps ++ r) := by
      rw [source_cons, List.append_assoc]
    have hrest : p.source ++ (source ps ++ row t ++ rest) = y ++ '>' :: (row t ++ rest) := by
      rw [← hsrc, hcons, List.append_assoc]
    rw [hsrc] at hl hhead
    cases p with
    | char c =>
      have hn := lexeme?_of_char hl
      have hc : comment? (y ++ '>' :: rest) = none := comment?_none_of_lexeme? (by simp [hn])
      rcases lexeme?_through_row hc (by simp [hn]) hhead t with h | h
      · rw [hcons]
        rw [hn, ← hrest] at h
        exact ih.cons rfl rfl (lexemes_char h)
      · rwa [hsrc]
    | hit x s =>
      obtain ⟨n, hn, hs⟩ := lexeme?_of_hit hl
      cases x with
      | comment =>
        obtain ⟨z, hz⟩ := (hlast.of_cons.resolve_right (by simp)).exists_source
        have hlt : n + 1 < (y ++ '>' :: rest).length := by
          by_contra hge
          rw [List.take_of_length_le (Nat.not_lt.1 hge), ← hsrc, hcons, hz] at hs
          simpa [Piece.source] using congrArg List.length hs
        obtain ⟨inner, hi, htake⟩ := take_eq_commentText hn hlt
        rw [hcons]
        rw [hs] at htake
        exact ih.cons rfl rfl (htake ▸ lexemes_commentText hi _)
      | tag k =>
        obtain ⟨closing, name, body, rest', -, -, htext, hlen, -⟩ := exists_tagText hn
        have hslen : s.length = n + 1 := by
          rw [← hs, htext, hlen, List.take_left]
        have hb : n ≤ y.length := by
          have := congrArg List.length hy
          rw [source_cons] at this
          simp only [Piece.source, List.length_append, List.length_singleton] at this
          omega
        have hc : comment? (y ++ '>' :: rest) = none := comment?_none_of_lexeme? (by simp [hn])
        have hk : closesRow (.hit (.tag k) s) = false := by
          rw [← hhead, beginsRowEnd_of_lexeme? hn]
          rfl
        rcases lexeme?_through_row hc (by simp [hn, hb]) hhead t with h | h
        · rw [hcons]
          rw [hn, ← hrest] at h
          have hne : s ≠ [] := List.ne_nil_of_length_pos (by omega)
          refine ih.cons hk rfl (scan_append hne ?_)
          rw [← Nat.add_sub_cancel (m := 1) (n := n), ← hslen] at h
          exact h
        · rwa [hsrc]

theorem mem_placed (start : Nat) (qs : Lexemes) (p : Piece Lexeme) (ps : Lexemes) :
    (start + (source qs).length, p) ∈ placed start (qs ++ p :: ps) := by
  induction qs generalizing start with
  | nil => exact List.mem_cons_self
  | cons q qs ih =>
    rw [source_cons, List.length_append, ← Nat.add_assoc]
    exact List.mem_cons_of_mem _ (ih _)

theorem mem_rowEnds {html : Text} {qs ps : Lexemes} {p : Piece Lexeme}
    (h : lexemes html = qs ++ p :: ps) (hp : beginsRowEnd (source (p :: ps)) = true) :
    (source qs).length ∈ rowEnds html := by
  have hm := mem_placed 0 qs p ps
  rw [Nat.zero_add, ← h] at hm
  refine List.mem_map.2 ⟨_, List.mem_filter.2 ⟨hm, ?_⟩, rfl⟩
  change beginsRowEnd (html.drop (source qs).length) = true
  rwa [eq_source_append h, List.drop_left]

def rowEndToken (start : Nat) : Token :=
  { Tag.ofBody true "tr".toList [] with start, stop := start + rowEndText.length }

theorem EndsRow.findTag? {s : Text} (h : EndsRow s rest) :
    ∃ start, findTag? (s ++ rest) "tr".toList true 0 = some (rowEndToken start) ∧
      (rowEndToken start).stop = s.length := by
  obtain ⟨ps, hl, rfl, hps⟩ := h
  have hname : lower "tr".toList = "tr".toList := by decide
  have hnone : ((tokensFrom [] 0 ps).filter (·.toTag.isAmong ["tr".toList])).find?
      (fun k => 0 ≤ k.start && k.closing == true) = none := by
    refine List.find?_eq_none.2 fun k hk => ?_
    obtain ⟨hk, hn⟩ := List.mem_filter.1 hk
    obtain ⟨s, hs⟩ := exists_of_mem_tokensFrom hk
    have hc := hps _ hs
    simp only [Tag.isAmong, hname, List.isEmpty_cons, List.any_cons, List.any_nil, Bool.or_false,
      Bool.false_or, beq_iff_eq] at hn
    simp only [closesRow, ← hn, BEq.rfl, Bool.and_true] at hc
    simp [hc]
  have hamong : (Tag.ofBody true "tr".toList []).isAmong ["tr".toList] = true := by decide
  have hend (start : Nat) : ((tokensFrom [] start (rowEndPiece :: lexemes rest)).filter
      (·.toTag.isAmong ["tr".toList])).find? (fun k => 0 ≤ k.start && k.closing == true) =
      some (rowEndToken start) := by
    have hcons : tokensFrom [] start (rowEndPiece :: lexemes rest) =
        rowEndToken start :: tokensFrom [] (start + rowEndText.length) (lexemes rest) := rfl
    have hk : (rowEndToken start).isAmong ["tr".toList] = true := hamong
    simp only [hcons, List.filter_cons, hk, if_true]
    exact List.find?_cons_of_pos (by simp; rfl)
  refine ⟨(source ps).length, ?_, by rw [List.length_append]; rfl⟩
  rw [Markup.findTag?, tokens_eq_filter, tokens, hl, tokensFrom_append, List.filter_append,
    List.find?_append, hnone, hend, Option.none_or, Nat.zero_add]

theorem exists_split_of_findOpening? {html name : Text} {k : Token}
    (h : findOpening? html name = some k) :
    ∃ ps qs, lexemes html = ps ++ qs ∧ EndsWithTag ps ∧ k.stop = (source ps).length := by
  obtain ⟨ps, s, qs, hl, -, -, -, hstop⟩ := exists_of_findOpening? h
  obtain ⟨n, hn, hs⟩ := lexeme?_of_hit (lexemes_source_of_eq hl)
  obtain ⟨closing, name, body, r, -, -, htext, hlen, -⟩ := exists_tagText hn
  rw [htext, hlen, List.take_left] at hs
  refine ⟨ps ++ [.hit (.tag k.toTag) s], qs, by rw [hl, List.append_assoc]; rfl, ?_, ?_⟩
  · exact ⟨ps, k.toTag, '<' :: ((if closing then '/' :: name else name) ++ body), by rw [← hs]; rfl⟩
  · rw [hstop, source_append, List.length_append]
    simp [source, Piece.source]

/-- The preheader and the balancing text stand together behind the first table tag, in this order,
if no closing row tag begins in front of the table. -/
theorem balance_behind_preheader {html p b : Text} {k : Token}
    (hk : findOpening? html "table".toList = some k) (hp : allBlank p = false)
    (hb : allBlank b = false) (hr : ∀ i ∈ rowEnds html, k.stop ≤ i) :
    injectBalance (injectPreheader html p) b =
      html.take k.stop ++ row (trim p) ++ row (trim b) ++ html.drop k.stop := by
  obtain ⟨ps, qs, hl, hlast, hstop⟩ := exists_split_of_findOpening? hk
  have hhtml := eq_source_append hl
  have htake : html.take k.stop = source ps := by rw [hhtml, hstop, List.take_left]
  have hdrop : html.drop k.stop = source qs := by rw [hhtml, hstop, List.drop_left]
  have hnone : ∀ us q vs, ps = us ++ q :: vs →
      beginsRowEnd (source (q :: vs) ++ source qs) = false := by
    intro us q vs he
    by_contra hbegins
    rw [Bool.not_eq_false, ← source_append] at hbegins
    have hle := hr _ (mem_rowEnds (by rw [hl, he, List.append_assoc]; rfl) hbegins)
    have hq : q.source ≠ [] := by
      refine source_ne_nil_of_mem_scan (t := html) (f := lexeme?) ?_
      rw [← lexemes, hl, he]
      simp
    have hpos := List.length_pos_of_ne_nil hq
    rw [hstop, he, source_append, source_cons, List.length_append, List.length_append] at hle
    omega
  have hends : EndsRow (source ps ++ row (trim p)) (source qs) := by
    refine endsRow_append ?_ (.inr hlast) hnone _
    rw [← hhtml, lexemes_source_of_eq hl, hl]
  obtain ⟨start, hfind, hend⟩ := hends.findTag?
  have hpre : injectPreheader html p = source ps ++ row (trim p) ++ source qs := by
    rw [injectPreheader, hp, hk, insertBehind, htake, hdrop]
    rfl
  have hplace : balancePlace? (source ps ++ row (trim p) ++ source qs) =
      some (rowEndToken start) := by
    rw [balancePlace?, hfind]
    rfl
  rw [hpre, injectBalance, hb, hplace, insertBehind, hend, List.take_left, List.drop_left, htake,
    hdrop]
  rfl

def openQuotePage : Text := "<!--</tr>--><a title=\"><table></tr>".toList

theorem balance_behind_preheader_of_open_quote :
    findOpening? openQuotePage "table".toList =
        some ⟨⟨"table".toList, [], false, false⟩, 23, 30⟩ ∧
      rowEnds openQuotePage = [30] ∧
      injectBalance (injectPreheader openQuotePage "p".toList) " b".toList =
        "<!--</tr>--><a title=\"><table>".toList ++ row "p".toList ++ row "b".toList ++
          "</tr>".toList := by
  have hk : findOpening? openQuotePage "table".toList =
      some ⟨⟨"table".toList, [], false, false⟩, 23, 30⟩ := by decide
  have hr : rowEnds openQuotePage = [30] := by decide
  have hends : ∀ i ∈ rowEnds openQuotePage, 30 ≤ i := by simp [hr]
  refine ⟨hk, hr, (balance_behind_preheader hk (by decide) (by decide) hends).trans ?_⟩
  decide +kernel

theorem balance_apart_behind_stray_row_end :
    ¬ ∀ (html p b : Text) (k : Token), findOpening? html "table".toList = some k →
      allBlank p = false → allBlank b = false →
      injectBalance (injectPreheader html p) b =
        html.take k.stop ++ row (trim p) ++ row (trim b) ++ html.drop k.stop := by
  intro h
  have := h "</tr><table>".toList "p".toList "b".toList
    ⟨⟨"table".toList, [], false, false⟩, 5, 12⟩ (by decide) (by decide) (by decide)
  revert this
  decide

end MailMarkup.HiddenText
