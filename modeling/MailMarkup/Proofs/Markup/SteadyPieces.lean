import MailMarkup.Proofs.Markup.NodePositions
import MailMarkup.Proofs.Markup.TagOrder

namespace MailMarkup.Markup

open Text

def StartsNothing (t : Text) : Prop := comment? t = none ∧ tagStart? t = none

theorem StartsNothing.lexeme?_none {t : Text} (h : StartsNothing t) : lexeme? t = none := by
  simp [lexeme?, h.1, tag?_of_tagStart?_none h.2]

theorem StartsNothing.of_sameToAngle {c : Char} {t u : Text} (h : StartsNothing (c :: t))
    (hs : SameToAngle t u) : StartsNothing (c :: u) :=
  ⟨hs.comment?_none h.1, hs.tagStart?_none h.2⟩

theorem sameToAngle_append (s r r' : Text) : SameToAngle (s ++ '<' :: r) (s ++ '<' :: r') := by
  induction s with
  | nil => exact .angle r r'
  | cons c s ih => exact .cons c ih

def source (ps : Lexemes) : Text := ps.flatMap Piece.source

theorem source_cons (p : Piece Lexeme) (ps : Lexemes) : source (p :: ps) = p.source ++ source ps :=
  List.flatMap_cons

theorem source_append (ps qs : Lexemes) : source (ps ++ qs) = source ps ++ source qs :=
  List.flatMap_append

theorem eq_source_append {t : Text} {ps qs : Lexemes} (h : lexemes t = ps ++ qs) :
    t = source ps ++ source qs := by
  rw [← source_append, ← h, source, source_lexemes]

theorem take_source {t : Text} {ps qs : Lexemes} (h : lexemes t = ps ++ qs) {n : Nat}
    (hn : n ≤ (source ps).length) : t.take n <+: source ps := by
  rw [eq_source_append h, List.take_append_of_le_length hn]
  exact List.take_prefix ..

inductive Steady : Lexemes → Prop
  | nil : Steady []
  | char {c : Char} {ps : Lexemes} (start : StartsNothing (c :: (source ps ++ ['<'])))
      (rest : Steady ps) : Steady (.char c :: ps)
  | comment {inner : Text} {ps : Lexemes} (ends : endsComment inner = true) (rest : Steady ps) :
      Steady (.hit .comment (commentText inner) :: ps)
  | tag {closing : Bool} {name body : Text} {ps : Lexemes} (isTag : IsTag name body)
      (rest : Steady ps) :
      Steady (.hit (.tag (.ofBody closing name body)) (tagText closing name body) :: ps)

theorem Steady.lexemes {ps : Lexemes} (h : Steady ps) (r : Text) :
    Markup.lexemes (source ps ++ '<' :: r) = ps ++ Markup.lexemes ('<' :: r) := by
  induction h with
  | nil => rfl
  | @char c ps start _ ih =>
    have hn := (start.of_sameToAngle (sameToAngle_append (source ps) [] r)).lexeme?_none
    rw [source_cons, Piece.source, List.append_assoc, List.singleton_append, lexemes_char hn, ih]
    rfl
  | comment ends _ ih =>
    rw [source_cons, Piece.source, List.append_assoc, lexemes_commentText ends, ih]
    rfl
  | tag isTag _ ih =>
    rw [source_cons, Piece.source, List.append_assoc, lexemes_tagText isTag, ih]
    rfl

theorem startsNothing_of_lexeme?_none {t : Text} (h : lexeme? t = none)
    (hb : fallsBackAt t = false) : StartsNothing t := by
  cases hc : comment? t with
  | some x => simp [lexeme?, hc] at h
  | none =>
    simp only [lexeme?, hc, Option.map_eq_none_iff] at h
    exact ⟨hc, tagStart?_none_of_tag?_none h hb⟩

theorem steady_of_lexemes {t r : Text} {place : Nat} {ps qs : Lexemes}
    (h : lexemes t = ps ++ qs) (hq : source qs = '<' :: r)
    (hf : ∀ i ∈ fallbacksFrom place (ps ++ qs), place + (source ps).length ≤ i) : Steady ps := by
  induction ps generalizing t place with
  | nil => exact .nil
  | cons p ps ih =>
    obtain ⟨c, t, rfl⟩ : ∃ c t', t = c :: t' := by
      cases t with
      | nil => cases h
      | cons c t => exact ⟨c, t, rfl⟩
    rw [List.cons_append] at h hf
    have hpos : 0 < p.source.length := by
      refine List.length_pos_of_ne_nil (source_ne_nil_of_mem_scan (t := c :: t) (f := lexeme?) ?_)
      rw [← lexemes, h]
      exact List.mem_cons_self
    have hlen : (source (p :: ps)).length = p.source.length + (source ps).length := by
      rw [source_cons, List.length_append]
    have hb : fallsBackAt (c :: t) = false := by
      have := not_fallsBackAt_of_lt hf (by omega)
      rwa [← h, source_lexemes] at this
    have ih {t : Text} (ht : lexemes t = ps ++ qs) : Steady ps := by
      refine @ih t (place + p.source.length) ht fun i hi => ?_
      have := hf i (mem_fallbacksFrom_cons hi)
      omega
    cases hl : lexeme? (c :: t) with
    | none =>
      rw [lexemes_char hl, List.cons_eq_cons] at h
      obtain ⟨rfl, ht⟩ := h
      have hsrc : t = source ps ++ '<' :: r := by
        rw [← hq, ← source_append, ← ht, source, source_lexemes]
      refine .char ((startsNothing_of_lexeme?_none hl hb).of_sameToAngle ?_) (ih ht)
      rw [hsrc]
      exact sameToAngle_append _ _ _
    | some x =>
      obtain ⟨x, n⟩ := x
      have hs : lexemes (c :: t) = .hit x ((c :: t).take (n + 1)) :: lexemes (t.drop n) :=
        scan_cons_some hl
      rw [hs, List.cons_eq_cons] at h
      obtain ⟨rfl, ht⟩ := h
      cases x with
      | comment =>
        have hlt : n + 1 < (c :: t).length := by
          by_contra hge
          have hnil : t.drop n = [] := List.drop_eq_nil_of_le (by simpa using hge)
          rw [hnil, show lexemes [] = [] from rfl, eq_comm, List.append_eq_nil_iff] at ht
          rw [ht.2] at hq
          cases hq
        obtain ⟨inner, hi, htake⟩ := take_eq_commentText hl hlt
        rw [htake]
        exact .comment hi (ih ht)
      | tag k =>
        obtain ⟨closing, name, body, htag, rfl, htake⟩ := take_eq_tagText hl hb
        rw [htake]
        exact .tag htag (ih ht)

theorem Steady.of_append {ps qs : Lexemes} {r : Text} (h : Steady (ps ++ qs))
    (hq : source qs = '<' :: r) : Steady ps ∧ Steady qs := by
  induction ps with
  | nil => exact ⟨.nil, h⟩
  | cons p ps ih =>
    cases h with
    | @char c _ start rest =>
      obtain ⟨hps, hqs⟩ := ih rest
      refine ⟨.char (start.of_sameToAngle ?_) hps, hqs⟩
      change SameToAngle (source (ps ++ qs) ++ ['<']) _
      rw [source_append, hq, List.append_assoc]
      exact sameToAngle_append _ _ _
    | comment ends rest => exact ⟨.comment ends (ih rest).1, (ih rest).2⟩
    | tag isTag rest => exact ⟨.tag isTag (ih rest).1, (ih rest).2⟩

theorem Steady.append {ps qs : Lexemes} {r : Text} (h : Steady ps) (hqs : Steady qs)
    (hq : source qs = '<' :: r) : Steady (ps ++ qs) := by
  induction h with
  | nil => exact hqs
  | @char c ps start _ ih =>
    refine .char (start.of_sameToAngle ?_) ih
    change SameToAngle _ (source (ps ++ qs) ++ ['<'])
    rw [source_append, hq, List.append_assoc]
    exact sameToAngle_append _ _ _
  | comment ends _ ih => exact .comment ends ih
  | tag isTag _ ih => exact .tag isTag ih

theorem lexemes_source_of_eq {t : Text} {ps qs : Lexemes} (h : lexemes t = ps ++ qs) :
    lexemes (source qs) = qs := by
  induction ps generalizing t with
  | nil => rw [List.nil_append] at h; rw [← h, source, source_lexemes]
  | cons p ps ih =>
    match t with
    | [] => cases h
    | c :: t =>
      match hl : lexeme? (c :: t) with
      | none =>
        rw [lexemes_char hl] at h
        exact ih (List.cons.inj h).2
      | some (x, n) =>
        rw [lexemes, scan_cons_some hl] at h
        exact ih (List.cons.inj h).2

theorem lexemes_source_tail {t : Text} {p : Piece Lexeme} {ps qs : Lexemes}
    (h : lexemes t = ps ++ p :: qs) : lexemes (source qs) = qs :=
  @lexemes_source_of_eq t (ps ++ [p]) qs (by rw [h, List.append_assoc, List.singleton_append])

theorem lexeme?_of_hit {t s : Text} {x : Lexeme} {ps : Lexemes}
    (h : lexemes t = .hit x s :: ps) : ∃ n, lexeme? t = some (x, n) ∧ t.take (n + 1) = s := by
  match t with
  | [] => cases h
  | c :: t =>
    match hl : lexeme? (c :: t) with
    | none =>
      rw [lexemes_char hl] at h
      cases h
    | some (y, n) =>
      rw [lexemes, scan_cons_some hl, List.cons_eq_cons, Piece.hit.injEq] at h
      obtain ⟨⟨rfl, rfl⟩, -⟩ := h
      exact ⟨n, rfl, rfl⟩

theorem exists_source_tag {t s : Text} {k : Tag} {ps : Lexemes}
    (h : lexemes t = .hit (.tag k) s :: ps) :
    ∃ n, lexeme? t = some (.tag k, n) ∧ t.take (n + 1) = s ∧ ∃ r, t = '<' :: r := by
  obtain ⟨n, hn, ht⟩ := lexeme?_of_hit h
  match t with
  | [] => cases h
  | c :: r =>
    obtain rfl := exists_angle_of_lexeme? hn
    exact ⟨n, hn, ht, r, rfl⟩

theorem mem_fallbacksFrom_append {i start : Nat} {ps qs : Lexemes}
    (h : i ∈ fallbacksFrom (start + (source ps).length) qs) :
    i ∈ fallbacksFrom start (ps ++ qs) := by
  induction ps generalizing start with
  | nil => exact h
  | cons p ps ih =>
    rw [source_cons, List.length_append, ← Nat.add_assoc] at h
    exact mem_fallbacksFrom_cons (ih h)

def IsTagPiece (p : Piece Lexeme) : Prop :=
  ∃ closing name body, IsTag name body ∧
    p = .hit (.tag (.ofBody closing name body)) (tagText closing name body)

theorem IsTagPiece.exists_source {p : Piece Lexeme} (h : IsTagPiece p) (ps : Lexemes) :
    ∃ r, source (p :: ps) = '<' :: r := by
  obtain ⟨closing, name, body, -, rfl⟩ := h
  exact ⟨_, rfl⟩

theorem IsTagPiece.steady {p : Piece Lexeme} (h : IsTagPiece p) {ps : Lexemes} (hps : Steady ps) :
    Steady (p :: ps) := by
  obtain ⟨closing, name, body, htag, rfl⟩ := h
  exact .tag htag hps

theorem Steady.isTagPiece {ps : Lexemes} (h : Steady ps) {k : Tag} {s : Text}
    (hm : .hit (.tag k) s ∈ ps) : IsTagPiece (.hit (.tag k) s) := by
  induction h with
  | nil => cases hm
  | char _ _ ih =>
    rcases List.mem_cons.1 hm with he | hm
    · cases he
    · exact ih hm
  | comment _ _ ih =>
    rcases List.mem_cons.1 hm with he | hm
    · cases he
    · exact ih hm
  | tag isTag _ ih =>
    rcases List.mem_cons.1 hm with he | hm
    · exact ⟨_, _, _, isTag, he⟩
    · exact ih hm

theorem Steady.append_tag {p : Piece Lexeme} {ps qs : Lexemes} (hps : Steady ps)
    (hp : IsTagPiece p) (hqs : Steady qs) : Steady (ps ++ p :: qs) := by
  obtain ⟨r, hr⟩ := hp.exists_source qs
  exact hps.append (hp.steady hqs) hr

theorem Steady.of_append_tag {p : Piece Lexeme} {ps qs : Lexemes} (h : Steady (ps ++ p :: qs))
    (hp : IsTagPiece p) : Steady ps ∧ Steady qs := by
  obtain ⟨r, hr⟩ := hp.exists_source qs
  obtain ⟨hps, hqs⟩ := h.of_append hr
  refine ⟨hps, ?_⟩
  cases hqs with
  | char _ rest => exact rest
  | comment _ rest => exact rest
  | tag _ rest => exact rest

theorem Steady.lexemes_tag {p : Piece Lexeme} {ps : Lexemes} (hps : Steady ps)
    (hp : IsTagPiece p) (r : Text) :
    Markup.lexemes (source ps ++ (p.source ++ r)) = ps ++ p :: Markup.lexemes r := by
  obtain ⟨closing, name, body, htag, rfl⟩ := hp
  exact (hps.lexemes _).trans (congrArg (ps ++ ·) (lexemes_tagText htag r))

theorem steady_tag_of_lexemes {t s : Text} {k : Tag} {ps qs : Lexemes}
    (h : lexemes t = ps ++ .hit (.tag k) s :: qs)
    (hf : ∀ i ∈ fallbacks t, (source ps).length < i) :
    Steady ps ∧ IsTagPiece (.hit (.tag k) s) := by
  have hu := lexemes_source_of_eq h
  obtain ⟨n, hl, hs, r, hr⟩ := exists_source_tag hu
  rw [fallbacks, h, ← Nat.zero_add (source ps).length] at hf
  refine ⟨steady_of_lexemes h hr fun i hi => Nat.le_of_lt (hf i hi), ?_⟩
  have hb : fallsBackAt (source (.hit (.tag k) s :: qs)) = false :=
    not_fallsBackAt_of_lt (fun i hi => hf i (mem_fallbacksFrom_append hi)) (Nat.lt_succ_self _)
  obtain ⟨closing, name, body, htag, rfl, htake⟩ := take_eq_tagText hl hb
  exact ⟨closing, name, body, htag, by rw [← hs, htake]⟩

def opensPiece (name : Text) : Piece Lexeme → Bool
  | .hit (.tag k) _ => k.isAmong [name] && k.closing == false
  | _ => false

theorem opensPiece_tag (name s : Text) (k : Tag) :
    opensPiece name (.hit (.tag k) s) = (lower name == k.name && k.closing == false) := by
  simp [opensPiece, Tag.isAmong]

theorem tokensFrom_append (start : Nat) (ps qs : Lexemes) :
    tokensFrom [] start (ps ++ qs) =
      tokensFrom [] start ps ++ tokensFrom [] (start + (source ps).length) qs := by
  induction ps generalizing start with
  | nil => rfl
  | cons p ps ih =>
    rw [source_cons, List.length_append, ← Nat.add_assoc]
    cases p with
    | char c => exact ih _
    | hit x s =>
      cases x with
      | comment => exact ih _
      | tag k => exact congrArg (_ :: ·) (ih _)

theorem exists_of_mem_tokensFrom {start : Nat} {ps : Lexemes} {k : Token}
    (h : k ∈ tokensFrom [] start ps) : ∃ s, .hit (.tag k.toTag) s ∈ ps := by
  induction ps using Lexemes.induction generalizing start with
  | nil => cases h
  | char c ps ih => exact (ih h).imp fun _ => List.mem_cons_of_mem _
  | comment s ps ih => exact (ih h).imp fun _ => List.mem_cons_of_mem _
  | tag t s ps ih =>
    rcases List.mem_cons.1 h with rfl | h
    · exact ⟨s, List.mem_cons_self⟩
    · exact (ih h).imp fun _ => List.mem_cons_of_mem _

theorem findOpening?_eq_find? (t name : Text) :
    findOpening? t name =
      (tokensFrom [] 0 (lexemes t)).find?
        fun k => k.toTag.isAmong [name] && k.closing == false := by
  rw [findOpening?, findTag?, tokens_eq_filter, List.find?_filter, tokens]
  congr 1
  funext k
  simp

theorem find?_of_not_opens {name : Text} {ps : Lexemes} (h : ∀ p ∈ ps, opensPiece name p = false)
    (start : Nat) :
    (tokensFrom [] start ps).find?
      (fun k => k.toTag.isAmong [name] && k.closing == false) = none := by
  refine List.find?_eq_none.2 fun k hk => ?_
  obtain ⟨s, hs⟩ := exists_of_mem_tokensFrom hk
  simpa [opensPiece] using h _ hs

theorem findOpening?_of_lexemes {t name s : Text} {k : Tag} {ps qs : Lexemes}
    (h : lexemes t = ps ++ .hit (.tag k) s :: qs) (hp : ∀ p ∈ ps, opensPiece name p = false)
    (hk : opensPiece name (.hit (.tag k) s) = true) :
    findOpening? t name =
      some { k with start := (source ps).length, stop := (source ps).length + s.length } := by
  rw [findOpening?_eq_find?, h, tokensFrom_append, List.find?_append, find?_of_not_opens hp,
    Option.none_or, tokensFrom_among rfl, Nat.zero_add]
  exact List.find?_cons_of_pos hk

theorem exists_of_findOpening? {t name : Text} {k : Token} (h : findOpening? t name = some k) :
    ∃ ps s qs, lexemes t = ps ++ .hit (.tag k.toTag) s :: qs ∧
      (∀ p ∈ ps, opensPiece name p = false) ∧ opensPiece name (.hit (.tag k.toTag) s) = true ∧
      k.start = (source ps).length ∧ k.stop = (source ps).length + s.length := by
  cases hf : firstSplit (opensPiece name) (lexemes t) with
  | none =>
    rw [findOpening?_eq_find?, find?_of_not_opens (firstSplit_eq_none.1 hf)] at h
    cases h
  | some x =>
    obtain ⟨ps, p, qs⟩ := x
    obtain ⟨hl, hp, hps⟩ := eq_of_firstSplit hf
    match p, hp with
    | .hit (.tag k') s, hk =>
      rw [findOpening?_of_lexemes hl hps hk, Option.some.injEq] at h
      subst h
      exact ⟨ps, s, qs, hl, hps, hk, rfl, rfl⟩

theorem findOpening?_isSome_iff {t name : Text} :
    (findOpening? t name).isSome = (lexemes t).any (opensPiece name) := by
  cases hf : firstSplit (opensPiece name) (lexemes t) with
  | none =>
    have hn := firstSplit_eq_none.1 hf
    rw [findOpening?_eq_find?, find?_of_not_opens hn, Option.isSome_none, eq_comm,
      List.any_eq_false]
    exact fun p hp => by simp [hn p hp]
  | some x =>
    obtain ⟨ps, p, qs⟩ := x
    obtain ⟨hl, hp, hps⟩ := eq_of_firstSplit hf
    match p, hp with
    | .hit (.tag k') s, hk => simp [findOpening?_of_lexemes hl hps hk, hl, hk]

end MailMarkup.Markup
