import MailMarkup.Proofs.Markup.TagOrder

namespace MailMarkup.Markup

open Text

def ComesFrom (k : Tag) (s : Text) (x : Token × Option Text) : Prop :=
  (x.1.toTag = k ∧ x.2 = none) ∨
    (x.2 = some s ∧ ∃ name body, IsTag name body ∧ s = tagText false name body ∧
      k = .ofBody false name body)

theorem tag_of_mem_lexemes_edited {names : List Text} {place : Nat} {t : Text}
    {es : List (Option Text)} (hf : NeverFallsBack t)
    (h : Fits (tokensFrom names place (lexemes t)) es) {k : Tag} {s : Text}
    (hm : .hit (.tag k) s ∈ lexemes ((lexemes t).edited names es))
    (hk : k.isAmong names = true) :
    ∃ x ∈ (tokensFrom names place (lexemes t)).zip es, ComesFrom k s x := by
  induction hf generalizing place es with
  | nil => cases hm
  | @char c r startsNone stays _ ih =>
    rw [lexemes_char startsNone] at h hm ⊢
    have hu := (sameToAngle_edited h).lexeme?_none startsNone stays
    simp only [Lexemes.edited, Piece.source, List.singleton_append] at hm
    rw [lexemes_char hu] at hm
    exact ih h (by simpa using hm)
  | comment ends _ ih =>
    rw [lexemes_commentText ends] at h hm ⊢
    simp only [Lexemes.edited, Piece.source] at hm
    rw [lexemes_commentText ends] at hm
    exact ih h (by simpa using hm)
  | @openComment t all =>
    have hend : Lexemes.edited names [.hit .comment t] es = t := List.append_nil _
    rw [all, hend, all] at hm
    simp at hm
  | @tag closing n body r isTag _ ih =>
    rw [lexemes_tagText isTag] at h hm ⊢
    by_cases hn : (Tag.ofBody closing n body).isAmong names = true
    · rw [tokensFrom_among hn] at h ⊢
      cases h with
      | @cons _ e _ es he hes =>
        simp only [Lexemes.edited, if_pos hn, List.head?_cons, Option.join_some,
          List.tail_cons] at hm
        cases e with
        | none =>
          rw [Option.getD_none, lexemes_tagText isTag] at hm
          rcases List.mem_cons.1 hm with hm | hm
          · simp only [Piece.hit.injEq, Lexeme.tag.injEq] at hm
            exact ⟨_, List.mem_cons_self, .inl ⟨hm.1.symm, rfl⟩⟩
          · exact List.exists_mem_cons_of_exists (ih hes hm)
        | some u =>
          obtain ⟨-, m, new, ht, -, rfl⟩ := he.isOpening
          rw [Option.getD_some, lexemes_tagText ht] at hm
          rcases List.mem_cons.1 hm with hm | hm
          · simp only [Piece.hit.injEq, Lexeme.tag.injEq] at hm
            exact ⟨_, List.mem_cons_self,
              .inr ⟨congrArg some hm.2.symm, m, new, ht, hm.2, hm.1⟩⟩
          · exact List.exists_mem_cons_of_exists (ih hes hm)
    · rw [tokensFrom_not_among hn] at h ⊢
      simp only [Lexemes.edited, if_neg hn] at hm
      rw [lexemes_tagText isTag] at hm
      rcases List.mem_cons.1 hm with hm | hm
      · simp only [Piece.hit.injEq, Lexeme.tag.injEq] at hm
        exact absurd (hm.1 ▸ hk) hn
      · exact ih h hm

theorem exists_edits_of_settled {names : List Text} {f : Tag → Except Fault (Option Text)}
    {ps : Lexemes} (h : ∀ k s, .hit (.tag k) s ∈ ps → k.isAmong names = true →
      f k = .ok none ∨ f k = .ok (some s)) (place : Nat) :
    ∃ es, (tokensFrom names place ps).mapM (f ·.toTag) = .ok es ∧
      ps.edited names es = ps.flatMap Piece.source := by
  induction ps generalizing place with
  | nil => exact ⟨[], rfl, rfl⟩
  | cons p ps ih =>
    have ih := ih (fun k s hm => h k s (List.mem_cons_of_mem _ hm)) (place + p.source.length)
    obtain ⟨es, he, hes⟩ := ih
    cases p with
    | char c => exact ⟨es, he, congrArg ([c] ++ ·) hes⟩
    | hit x s =>
      cases x with
      | comment => exact ⟨es, he, congrArg (s ++ ·) hes⟩
      | tag k =>
        by_cases hk : k.isAmong names = true
        · rw [tokensFrom_among hk]
          simp only [List.mapM_cons, Piece.source] at he ⊢
          rcases h k s List.mem_cons_self hk with hf | hf
          · refine ⟨none :: es, by rw [hf, he]; rfl, ?_⟩
            simp [Lexemes.edited, hk, hes, Piece.source]
          · refine ⟨some s :: es, by rw [hf, he]; rfl, ?_⟩
            simp [Lexemes.edited, hk, hes, Piece.source]
        · rw [tokensFrom_not_among hk]
          exact ⟨es, he, by simp [Lexemes.edited, hk, hes, Piece.source]⟩

end MailMarkup.Markup
