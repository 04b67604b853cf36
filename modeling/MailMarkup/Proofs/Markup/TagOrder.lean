import MailMarkup.Proofs.Run.Rewriter

namespace MailMarkup.Markup

open Text

def outlineOf (ps : Lexemes) : List (Text × Bool) :=
  ps.filterMap fun
    | .hit (.tag k) _ => some (k.name, k.closing)
    | _ => none

def outline (html : Text) : List (Text × Bool) :=
  (tokens [] html).map fun k => (k.name, k.closing)

theorem map_tokensFrom (start : Nat) (ps : Lexemes) :
    (tokensFrom [] start ps).map (fun k => (k.name, k.closing)) = outlineOf ps := by
  induction ps using Lexemes.induction generalizing start with
  | nil => rfl
  | char c ps ih => exact ih _
  | comment s ps ih => exact ih _
  | tag k s ps ih => exact congrArg ((k.name, k.closing) :: ·) (ih _)

theorem outline_eq (html : Text) : outline html = outlineOf (lexemes html) := by
  rw [outline, tokens, map_tokensFrom]

def fallbacksFrom (start : Nat) : Lexemes → List Nat
  | [] => []
  | p :: ps =>
    let rest := fallbacksFrom (start + p.source.length) ps
    if fallsBackAt ((p :: ps).flatMap Piece.source) then start :: rest else rest

def fallbacks (html : Text) : List Nat := fallbacksFrom 0 (lexemes html)

theorem outlineOf_tag (k : Tag) (s : Text) (ps : Lexemes) :
    outlineOf (.hit (.tag k) s :: ps) = (k.name, k.closing) :: outlineOf ps := rfl

def rewrittenAt (ks : List Token) (es : List (Option Text)) : List Nat :=
  (ks.zip es).filterMap fun x => x.2.map fun _ => x.1.start

theorem le_start_of_mem_tokensFrom {names : List Text} {start : Nat} {ps : Lexemes} {k : Token}
    (h : k ∈ tokensFrom names start ps) : start ≤ k.start := by
  rw [tokensFrom_eq_filter] at h
  replace h := (List.mem_filter.1 h).1
  induction ps using Lexemes.induction generalizing start with
  | nil => cases h
  | char c ps ih => exact Nat.le_of_add_right_le (ih h)
  | comment s ps ih => exact Nat.le_of_add_right_le (ih h)
  | tag t s ps ih =>
    rcases List.mem_cons.1 h with rfl | h
    · exact Nat.le_refl _
    · exact Nat.le_of_add_right_le (ih h)

theorem le_of_mem_rewrittenAt {names : List Text} {start j : Nat} {ps : Lexemes}
    {es : List (Option Text)} (h : j ∈ rewrittenAt (tokensFrom names start ps) es) : start ≤ j := by
  obtain ⟨x, hx, he⟩ := List.mem_filterMap.1 h
  obtain ⟨t, -, rfl⟩ := Option.map_eq_some_iff.1 he
  exact le_start_of_mem_tokensFrom (List.of_mem_zip hx).1

theorem rewrittenAt_some (k : Token) (ks : List Token) (t : Text) (es : List (Option Text)) :
    rewrittenAt (k :: ks) (some t :: es) = k.start :: rewrittenAt ks es := rfl

theorem rewrittenAt_none (k : Token) (ks : List Token) (es : List (Option Text)) :
    rewrittenAt (k :: ks) (none :: es) = rewrittenAt ks es := rfl

theorem edited_of_rewrittenAt_nil {names : List Text} {start : Nat} {ps : Lexemes}
    {es : List (Option Text)} (h : rewrittenAt (tokensFrom names start ps) es = []) :
    ps.edited names es = ps.flatMap Piece.source := by
  induction ps using Lexemes.induction generalizing start es with
  | nil => rfl
  | char c ps ih => exact congrArg ([c] ++ ·) (ih h)
  | comment s ps ih => exact congrArg (s ++ ·) (ih h)
  | tag k s ps ih =>
    simp only [Lexemes.edited, List.flatMap_cons, Piece.source]
    by_cases hk : k.isAmong names = true
    · rw [if_pos hk]
      rw [tokensFrom_among hk] at h
      cases es with
      | nil => simp [edited_nil]
      | cons e es =>
        cases e with
        | some t => simp [rewrittenAt] at h
        | none =>
          simp only [List.head?_cons, Option.join_some, Option.getD_none, List.tail_cons]
          rw [ih h]
    · rw [if_neg hk]
      rw [tokensFrom_not_among hk] at h
      rw [ih h]

abbrev IsLegalOne (a : Attribute) : Prop := Attributes.isLegalName a.name = true

abbrev Fits (ks : List Token) (es : List (Option Text)) : Prop :=
  List.Forall₂ (fun (k : Token) e => Written IsLegalOne k.toTag e) ks es

theorem Written.isOpening {k : Tag} {t : Text} (h : Written IsLegalOne k (some t)) :
    k.closing = false ∧ IsOpening k.name t := by
  obtain ⟨hc, hn, hl, as, ha, rfl | rfl⟩ := h t rfl
  · exact ⟨hc, by simpa [hl] using isOpening_openTag hn ha⟩
  · exact ⟨hc, by simpa [hl] using isOpening_closedTag hn ha⟩

theorem IsOpening.head_angle {name t : Text} (h : IsOpening name t) : ∃ r, t = '<' :: r := by
  obtain ⟨n, body, -, -, rfl⟩ := h
  exact ⟨_, rfl⟩

theorem sameToAngle_edited {names : List Text} {start : Nat} {t : Text} {es : List (Option Text)}
    (h : Fits (tokensFrom names start (lexemes t)) es) :
    SameToAngle t ((lexemes t).edited names es) := by
  induction t generalizing start with
  | nil => exact .nil
  | cons c r ih =>
    cases hl : lexeme? (c :: r) with
    | none =>
      rw [lexemes_char hl] at h ⊢
      exact .cons c (ih h)
    | some x =>
      obtain ⟨x, n⟩ := x
      obtain rfl := exists_angle_of_lexeme? hl
      rw [lexemes, scan_cons_some hl] at h ⊢
      cases x with
      | comment => exact .angle _ _
      | tag k =>
        simp only [Lexemes.edited]
        split
        · rename_i hk
          rw [tokensFrom_among hk] at h
          cases h with
          | @cons _ e _ es he _ =>
            cases e with
            | none => exact .angle _ _
            | some u =>
              obtain ⟨v, hv⟩ := he.isOpening.2.head_angle
              simp only [List.head?_cons, Option.join_some, Option.getD_some, hv]
              exact .angle _ _
        · exact .angle _ _

theorem mem_fallbacksFrom_cons {start i : Nat} {p : Piece Lexeme} {ps : Lexemes}
    (h : i ∈ fallbacksFrom (start + p.source.length) ps) : i ∈ fallbacksFrom start (p :: ps) := by
  simp only [fallbacksFrom]
  split
  · exact List.mem_cons_of_mem _ h
  · exact h

theorem not_fallsBackAt_of_lt {start j : Nat} {p : Piece Lexeme} {ps : Lexemes}
    (hf : ∀ i ∈ fallbacksFrom start (p :: ps), j ≤ i) (hj : start < j) :
    fallsBackAt ((p :: ps).flatMap Piece.source) = false := by
  by_contra hb
  rw [Bool.not_eq_false] at hb
  have hm : start ∈ fallbacksFrom start (p :: ps) := by
    rw [fallbacksFrom, if_pos hb]
    exact List.mem_cons_self
  have := hf start hm
  omega

theorem take_eq_commentText {t : Text} {n : Nat} (h : lexeme? t = some (.comment, n))
    (hn : n + 1 < t.length) :
    ∃ inner, endsComment inner = true ∧ t.take (n + 1) = commentText inner := by
  obtain ⟨b, rfl, rfl⟩ := lexeme?_comment h
  have hlt : commentLength b < b.length := by
    simp [commentText] at hn
    omega
  have hlen : 3 + commentLength b + 1 = "<!--".toList.length + commentLength b := by
    simp
    omega
  refine ⟨_, endsComment_take hlt, ?_⟩
  rw [hlen, commentText, List.take_length_add_append, commentText]

theorem take_eq_tagText {t : Text} {k : Tag} {n : Nat} (h : lexeme? t = some (.tag k, n))
    (hf : fallsBackAt t = false) :
    ∃ closing name body, IsTag name body ∧ k = .ofBody closing name body ∧
      t.take (n + 1) = tagText closing name body := by
  obtain ⟨closing, name, body, rest, -, hk, htext, hn, ht⟩ := exists_tagText h
  refine ⟨closing, name, body, ht hf, hk, ?_⟩
  rw [hn, htext, List.take_left]

theorem fallbacksFrom_cons_eq_nil {place : Nat} {p : Piece Lexeme} {ps : Lexemes}
    (h : fallbacksFrom place (p :: ps) = []) :
    fallsBackAt ((p :: ps).flatMap Piece.source) = false ∧
      fallbacksFrom (place + p.source.length) ps = [] := by
  rw [fallbacksFrom] at h
  split at h
  · cases h
  · rename_i hf
    exact ⟨by simpa using hf, h⟩

inductive NeverFallsBack : Text → Prop
  | nil : NeverFallsBack []
  | char {c : Char} {r : Text} (startsNone : lexeme? (c :: r) = none)
      (stays : fallsBackAt (c :: r) = false) (rest : NeverFallsBack r) : NeverFallsBack (c :: r)
  | comment {inner r : Text} (ends : endsComment inner = true) (rest : NeverFallsBack r) :
      NeverFallsBack (commentText inner ++ r)
  | openComment {t : Text} (all : lexemes t = [.hit .comment t]) : NeverFallsBack t
  | tag {closing : Bool} {name body r : Text} (isTag : IsTag name body)
      (rest : NeverFallsBack r) : NeverFallsBack (tagText closing name body ++ r)

theorem neverFallsBack_of_fallbacksFrom {place : Nat} {t : Text}
    (hf : fallbacksFrom place (lexemes t) = []) : NeverFallsBack t := by
  match t with
  | [] => exact .nil
  | c :: r =>
    cases hl : lexeme? (c :: r) with
    | none =>
      rw [lexemes_char hl] at hf
      obtain ⟨hb, hf⟩ := fallbacksFrom_cons_eq_nil hf
      rw [List.flatMap_cons, source_lexemes] at hb
      exact .char hl hb (neverFallsBack_of_fallbacksFrom hf)
    | some x =>
      obtain ⟨x, n⟩ := x
      have hs : lexemes (c :: r) = .hit x ((c :: r).take (n + 1)) :: lexemes (r.drop n) :=
        scan_cons_some hl
      have hsrc : (c :: r).take (n + 1) ++ r.drop n = c :: r := List.take_append_drop (n + 1) _
      rw [hs] at hf
      obtain ⟨hb, hf⟩ := fallbacksFrom_cons_eq_nil hf
      rw [List.flatMap_cons, source_lexemes, Piece.source, hsrc] at hb
      have ih := neverFallsBack_of_fallbacksFrom hf
      cases x with
      | comment =>
        by_cases hlt : n + 1 < (c :: r).length
        · obtain ⟨inner, hi, ht⟩ := take_eq_commentText hl hlt
          rw [← hsrc, ht]
          exact .comment hi ih
        · -- a comment without an end is the rest of the text
          have hnil : r.drop n = [] := List.drop_eq_nil_of_le (by simpa using hlt)
          have htake : (c :: r).take (n + 1) = c :: r := List.take_of_length_le (by omega)
          rw [hnil, htake] at hs
          exact .openComment hs
      | tag k =>
        obtain ⟨closing, name, body, ht, -, htake⟩ := take_eq_tagText hl hb
        rw [← hsrc, htake]
        exact .tag ht ih
termination_by t.length
decreasing_by all_goals (simp only [List.length_drop, List.length_cons]; omega)

theorem not_mem_rewrittenAt_nil (names : List Text) {es : List (Option Text)} {j : Nat}
    (start : Nat) :
    j ∉ rewrittenAt (tokensFrom names start (lexemes [])) es := by
  simp [lexemes, scan, scanFrom, tokensFrom, rewrittenAt]

theorem outlineOf_kept {t : Text} {k : Tag} {n : Nat} (h : lexeme? t = some (.tag k, n))
    (hf : fallsBackAt t = false) (u : Text) :
    outlineOf (lexemes (t.take (n + 1) ++ u)) = (k.name, k.closing) :: outlineOf (lexemes u) := by
  obtain ⟨closing, name, body, ht, rfl, htake⟩ := take_eq_tagText h hf
  rw [htake, lexemes_tagText ht, outlineOf_tag]

theorem IsOpening.outlineOf_append {name t : Text} (h : IsOpening name t) (u : Text) :
    outlineOf (lexemes (t ++ u)) = (name, false) :: outlineOf (lexemes u) := by
  obtain ⟨n, body, ht, hname, rfl⟩ := h
  rw [lexemes_tagText ht, outlineOf_tag]
  simp [Tag.ofBody, hname]

theorem outlineOf_edited {names : List Text} {start : Nat} {t : Text} {es : List (Option Text)}
    (h : Fits (tokensFrom names start (lexemes t)) es)
    (hf : ∀ j ∈ rewrittenAt (tokensFrom names start (lexemes t)) es,
      ∀ i ∈ fallbacksFrom start (lexemes t), j ≤ i) :
    outlineOf (lexemes ((lexemes t).edited names es)) = outlineOf (lexemes t) := by
  by_cases hn : rewrittenAt (tokensFrom names start (lexemes t)) es = []
  · rw [edited_of_rewrittenAt_nil hn, source_lexemes]
  obtain ⟨j, hj⟩ := List.exists_mem_of_ne_nil _ hn
  match t with
  | [] => rfl
  | c :: r =>
    cases hl : lexeme? (c :: r) with
    | none =>
      rw [lexemes_char hl] at h hf hj ⊢
      have hb : fallsBackAt (c :: r) = false := by
        have := not_fallsBackAt_of_lt (hf j hj) (le_of_mem_rewrittenAt hj)
        rwa [List.flatMap_cons, source_lexemes] at this
      have hu := (sameToAngle_edited h).lexeme?_none hl hb
      have ih := outlineOf_edited (t := r) h fun j hj i hi => hf j hj i (mem_fallbacksFrom_cons hi)
      simp only [Lexemes.edited, Piece.source, List.singleton_append]
      rw [lexemes_char hu]
      exact ih
    | some x =>
      obtain ⟨x, n⟩ := x
      have hs : lexemes (c :: r) = .hit x ((c :: r).take (n + 1)) :: lexemes (r.drop n) :=
        scan_cons_some hl
      have hsrc : (lexemes (c :: r)).flatMap Piece.source = c :: r := source_lexemes _
      rw [hs] at h hf hj hsrc ⊢
      cases x with
      | comment =>
        have hlt : n + 1 < (c :: r).length := by
          by_contra hge
          have hnil : r.drop n = [] := List.drop_eq_nil_of_le (by simpa using hge)
          rw [hnil] at hj
          exact not_mem_rewrittenAt_nil names (start + ((c :: r).take (n + 1)).length) hj
        obtain ⟨inner, hi, ht⟩ := take_eq_commentText hl hlt
        have ih := outlineOf_edited (t := r.drop n) h
          fun j hj i hi => hf j hj i (mem_fallbacksFrom_cons hi)
        simp only [Lexemes.edited, Piece.source, ht]
        rw [lexemes_commentText hi]
        exact ih
      | tag k =>
        by_cases hk : k.isAmong names = true
        · rw [tokensFrom_among hk] at h hf hj
          cases h with
          | @cons _ e _ es he hes =>
            cases e with
            | some u =>
              rw [rewrittenAt_some] at hf
              have ih := outlineOf_edited (t := r.drop n) hes fun j hj i hi =>
                hf j (List.mem_cons_of_mem _ hj) i (mem_fallbacksFrom_cons hi)
              obtain ⟨hc, ho⟩ := he.isOpening
              simp only [Lexemes.edited, if_pos hk, List.head?_cons, Option.join_some,
                Option.getD_some, List.tail_cons]
              rw [ho.outlineOf_append, outlineOf_tag, ih, hc]
            | none =>
              rw [rewrittenAt_none] at hf hj
              have ih := outlineOf_edited (t := r.drop n) hes fun j hj i hi =>
                hf j hj i (mem_fallbacksFrom_cons hi)
              have hlt : start < j := Nat.lt_of_lt_of_le (by simp) (le_of_mem_rewrittenAt hj)
              have hb := hsrc ▸ not_fallsBackAt_of_lt (hf j hj) hlt
              simp only [Lexemes.edited, if_pos hk, List.head?_cons, Option.join_some,
                Option.getD_none, List.tail_cons]
              rw [outlineOf_kept hl hb, outlineOf_tag, ih]
        · rw [tokensFrom_not_among hk] at h hf hj
          have ih := outlineOf_edited (t := r.drop n) h fun j hj i hi =>
            hf j hj i (mem_fallbacksFrom_cons hi)
          have hlt : start < j := Nat.lt_of_lt_of_le (by simp) (le_of_mem_rewrittenAt hj)
          have hb := hsrc ▸ not_fallsBackAt_of_lt (hf j hj) hlt
          simp only [Lexemes.edited, if_neg hk]
          rw [outlineOf_kept hl hb, outlineOf_tag, ih]
termination_by t.length
decreasing_by all_goals (simp only [List.length_drop, List.length_cons]; omega)

end MailMarkup.Markup

namespace MailMarkup.Run

open Text Markup

def Rewriter.rewritten (r : Rewriter) (c : Config) (html : Text) : List Nat :=
  match r.edits c html with
  | .ok es => rewrittenAt (tokens r.names html) es
  | .error _ => []

theorem isLegal_forcedAttributes (l : Layout) : (Table.forcedAttributes l).IsLegal := by
  simp only [Attributes.IsLegal, Attributes.All, Table.forcedAttributes, List.mem_cons,
    List.not_mem_nil, or_false, forall_eq_or_imp, forall_eq]
  decide

theorem Rewriter.suits_legal (r : Rewriter) (c : Config) (k : Tag) : r.Suits IsLegalOne c k := by
  cases r with
  | stripHeights => trivial
  | normalizeTables => exact ⟨isLegal_forcedAttributes c.layout, fun _ _ => by rfl⟩
  | enhanceImages => exact ⟨by rfl, fun _ => by rfl, fun _ _ => by rfl⟩
  | collapseImageCells => exact fun _ _ => by rfl
  | cleanColspans => trivial
  | tagLinks => exact fun _ _ _ _ => by rfl
  | propagateBackgrounds => exact fun _ _ => by rfl

/-- A stage that writes tags anew keeps the names of all tags in their order, if the scanner falls
back nowhere in front of a tag that is written anew. -/
theorem outline_rewritten {r : Rewriter} {c : Config} {html out : Text}
    (h : r.stage.apply c html = .ok out)
    (hf : ∀ j ∈ r.rewritten c html, ∀ i ∈ fallbacks html, j ≤ i) :
    outline out = outline html := by
  rw [r.apply_stage] at h
  cases he : r.edits c html with
  | error f => simp [he, Except.map] at h
  | ok es =>
    simp only [he, Except.map, Except.ok.injEq] at h
    simp only [Rewriter.rewritten, he] at hf
    rw [← h, outline_eq, outline_eq]
    by_cases hes : es = []
    · rw [hes, editTags_nil]
    · exact outlineOf_edited (Rewriter.forall₂_written he hes fun k _ =>
        ⟨Attributes.isLegal_parse k.attrs, r.suits_legal c k.toTag⟩) hf

def plainConfig : Config := ⟨[], [], [], ⟨[], []⟩, ⟨false, ⟨.px650, false⟩⟩, false⟩

theorem outline_rewritten_before_open_quote :
    outline "<table><a href='</table>".toList = [("table".toList, false), ("a".toList, false)] :=
  (@outline_rewritten .stripHeights plainConfig "<table height=1><a href='</table>".toList _
    (by decide +kernel) (by decide +kernel)).trans (by decide +kernel)

theorem outline_lost_behind_open_quote :
    ¬ ∀ (r : Rewriter) (c : Config) (html out : Text), r.stage.apply c html = .ok out →
      outline out = outline html := by
  intro h
  have hn : Table.normalize plainConfig.layout "<a href=\"><table>".toList =
      .ok ("<a href=\">".toList ++ Table.newTag plainConfig.layout) := by decide +kernel
  have ho := h .normalizeTables plainConfig _ _ hn
  revert ho
  decide +kernel

end MailMarkup.Run
