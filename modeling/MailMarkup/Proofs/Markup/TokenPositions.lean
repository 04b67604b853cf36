import Mathlib.Data.List.Pairwise
import Mathlib.Data.List.Sort
import Mathlib.Order.Bounds.Basic
import MailMarkup.Proofs.Markup.SteadyPieces
import MailMarkup.Proofs.Run.PlainValues

namespace MailMarkup.Markup

open Text

theorem eq_or_apart {α : Type} {start stop : α → Nat} {xs : List α}
    (h : xs.Pairwise fun x y => stop x ≤ start y) {x y : α} (hx : x ∈ xs) (hy : y ∈ xs) :
    x = y ∨ stop x ≤ start y ∨ stop y ≤ start x := by
  have : Std.Symm fun x y => stop x ≤ start y ∨ stop y ≤ start x := ⟨fun _ _ => Or.symm⟩
  have hp : xs.Pairwise fun x y => stop x ≤ start y ∨ stop y ≤ start x := h.imp .inl
  exact or_iff_not_imp_left.2 fun hne => hp.forall hx hy hne

def placed (start : Nat) : Lexemes → List (Nat × Piece Lexeme)
  | [] => []
  | p :: ps => (start, p) :: placed (start + p.source.length) ps

def places (html : Text) : List (Nat × Piece Lexeme) := placed 0 (lexemes html)

theorem exists_append_of_mem_placed {start : Nat} {ps : Lexemes} {x : Nat × Piece Lexeme}
    (h : x ∈ placed start ps) :
    ∃ qs rs, ps = qs ++ x.2 :: rs ∧ x.1 = start + (source qs).length := by
  induction ps generalizing start with
  | nil => cases h
  | cons p ps ih =>
    rcases List.mem_cons.1 h with rfl | h
    · exact ⟨[], ps, rfl, rfl⟩
    · obtain ⟨qs, rs, rfl, hx⟩ := ih h
      exact ⟨p :: qs, rs, rfl, by rw [hx, source_cons, List.length_append, Nat.add_assoc]⟩

theorem le_of_mem_placed {start : Nat} {ps : Lexemes} {x : Nat × Piece Lexeme}
    (h : x ∈ placed start ps) : start ≤ x.1 := by
  obtain ⟨qs, -, -, hx⟩ := exists_append_of_mem_placed h
  omega

theorem pairwise_placed (start : Nat) (ps : Lexemes) :
    (placed start ps).Pairwise fun x y => x.1 + x.2.source.length ≤ y.1 := by
  induction ps generalizing start with
  | nil => exact .nil
  | cons p ps ih => exact .cons (fun y hy => le_of_mem_placed hy) (ih _)

theorem exists_mem_placed {start i : Nat} {ps : Lexemes} (hs : start ≤ i)
    (hi : i < start + (source ps).length) :
    ∃ x ∈ placed start ps, x.1 ≤ i ∧ i < x.1 + x.2.source.length := by
  induction ps generalizing start with
  | nil =>
    simp only [source, List.flatMap_nil, List.length_nil] at hi
    omega
  | cons p ps ih =>
    by_cases hp : i < start + p.source.length
    · exact ⟨(start, p), List.mem_cons_self, hs, hp⟩
    · rw [source_cons, List.length_append] at hi
      obtain ⟨x, hx, hle⟩ := @ih (start + p.source.length) (by omega) (by omega)
      exact ⟨x, List.mem_cons_of_mem _ hx, hle⟩

variable {html : Text}

theorem lexemes_drop_of_mem_places {x : Nat × Piece Lexeme} (h : x ∈ places html) :
    ∃ ps, lexemes (html.drop x.1) = x.2 :: ps := by
  obtain ⟨qs, ps, hl, hx⟩ := exists_append_of_mem_placed h
  have hd : html.drop x.1 = source (x.2 :: ps) := by
    rw [hx, Nat.zero_add, eq_source_append hl, List.drop_left]
  exact ⟨ps, hd ▸ lexemes_source_of_eq hl⟩

theorem exists_mem_places {i : Nat} (h : i < html.length) :
    ∃ x ∈ places html, x.1 ≤ i ∧ i < x.1 + x.2.source.length := by
  refine exists_mem_placed (Nat.zero_le i) ?_
  rwa [source, source_lexemes, Nat.zero_add]

theorem lexeme?_of_char {t : Text} {c : Char} {ps : Lexemes} (h : lexemes t = .char c :: ps) :
    lexeme? t = none := by
  cases t with
  | nil => cases h
  | cons d t =>
    cases hl : lexeme? (d :: t) with
    | none => rfl
    | some y =>
      rw [lexemes, scan_cons_some hl] at h
      cases h

structure Found where
  lexeme : Lexeme
  start : Nat
  stop : Nat

def found? (x : Nat × Piece Lexeme) : Option Found :=
  match x.2 with
  | .hit y s => some ⟨y, x.1, x.1 + s.length⟩
  | .char _ => none

def founds (html : Text) : List Found := (places html).filterMap found?

theorem found?_eq_some {x : Nat × Piece Lexeme} {f : Found} :
    found? x = some f ↔
      ∃ s, x = (f.start, .hit f.lexeme s) ∧ f.stop = f.start + s.length := by
  obtain ⟨i, p⟩ := x
  constructor
  · intro h
    cases p with
    | char c => cases h
    | hit y s =>
      obtain rfl := Option.some.inj h
      exact ⟨s, rfl, rfl⟩
  · rintro ⟨s, hx, hs⟩
    obtain ⟨rfl, rfl⟩ := Prod.mk.inj hx
    simp only [found?, ← hs]

theorem mem_founds_iff {f : Found} :
    f ∈ founds html ↔
      ∃ s, (f.start, .hit f.lexeme s) ∈ places html ∧ f.stop = f.start + s.length := by
  rw [founds, List.mem_filterMap]
  constructor
  · rintro ⟨x, hx, hf⟩
    obtain ⟨s, rfl, hs⟩ := found?_eq_some.1 hf
    exact ⟨s, hx, hs⟩
  · rintro ⟨s, hx, hs⟩
    exact ⟨_, hx, found?_eq_some.2 ⟨s, rfl, hs⟩⟩

theorem pairwise_founds (html : Text) : (founds html).Pairwise fun f g => f.stop ≤ g.start := by
  refine (pairwise_placed 0 (lexemes html)).filterMap _ fun x y hxy f hf g hg => ?_
  obtain ⟨s, rfl, hs⟩ := found?_eq_some.1 hf
  obtain ⟨t, rfl, -⟩ := found?_eq_some.1 hg
  rw [hs]
  exact hxy

theorem exists_lexeme?_of_mem_founds {y : Lexeme} {i j : Nat} (h : ⟨y, i, j⟩ ∈ founds html) :
    ∃ n, lexeme? (html.drop i) = some (y, n) ∧ j = i + ((html.drop i).take (n + 1)).length ∧
      i < j := by
  obtain ⟨s, hx, hj⟩ := mem_founds_iff.1 h
  obtain ⟨ps, hl⟩ := lexemes_drop_of_mem_places hx
  obtain ⟨n, hn, hs⟩ := lexeme?_of_hit hl
  have hj : j = i + ((html.drop i).take (n + 1)).length := hs ▸ hj
  have hne : html.drop i ≠ [] := by
    intro he
    rw [he] at hn
    cases hn
  have hpos := List.length_pos_of_ne_nil hne
  refine ⟨n, hn, hj, ?_⟩
  rw [hj, List.length_take]
  omega

theorem lexeme?_none_of_outside {i : Nat} (h : ∀ f ∈ founds html, i < f.start ∨ f.stop ≤ i) :
    lexeme? (html.drop i) = none := by
  rcases Nat.lt_or_ge i html.length with hi | hi
  · obtain ⟨⟨j, p⟩, hx, hle, hlt⟩ := exists_mem_places hi
    cases p with
    | char c =>
      have hj : j + 1 = i + 1 := Nat.le_antisymm (Nat.succ_le_succ hle) hlt
      obtain ⟨ps, hl⟩ := lexemes_drop_of_mem_places hx
      rw [← Nat.succ.inj hj]
      exact lexeme?_of_char hl
    | hit y s =>
      rcases h ⟨y, j, j + s.length⟩ (mem_founds_iff.2 ⟨s, hx, rfl⟩) with h | h
      · exact absurd hle (Nat.not_le.2 h)
      · exact absurd hlt (Nat.not_lt.2 h)
  · rw [List.drop_eq_nil_of_le hi]
    rfl

def Found.token? (f : Found) : Option Token :=
  match f.lexeme with
  | .tag k => some { k with start := f.start, stop := f.stop }
  | .comment => none

def Found.comment? (f : Found) : Option (Nat × Nat) :=
  match f.lexeme with
  | .tag _ => none
  | .comment => some (f.start, f.stop)

def commentPlaces (html : Text) : List (Nat × Nat) := (founds html).filterMap Found.comment?

theorem tokensFrom_eq_filterMap (start : Nat) (ps : Lexemes) :
    tokensFrom [] start ps = ((placed start ps).filterMap found?).filterMap Found.token? := by
  induction ps using Lexemes.induction generalizing start with
  | nil => rfl
  | char c ps ih => exact ih _
  | comment s ps ih => exact ih _
  | tag k s ps ih => exact congrArg (_ :: ·) (ih _)

theorem tokens_eq_filterMap (html : Text) :
    tokens [] html = (founds html).filterMap Found.token? := by
  rw [tokens, tokensFrom_eq_filterMap, founds, places]

theorem Found.token?_eq_some {f : Found} {k : Token} :
    f.token? = some k ↔ f = ⟨.tag k.toTag, k.start, k.stop⟩ := by
  obtain ⟨y, i, j⟩ := f
  cases y with
  | comment => simp [token?]
  | tag t => cases k; simp [token?]

theorem Found.comment?_eq_some {f : Found} {c : Nat × Nat} :
    f.comment? = some c ↔ f = ⟨.comment, c.1, c.2⟩ := by
  obtain ⟨y, i, j⟩ := f
  cases y with
  | comment => simp [comment?, Prod.ext_iff]
  | tag t => simp [comment?]

theorem mem_tokens_iff {k : Token} :
    k ∈ tokens [] html ↔ ⟨.tag k.toTag, k.start, k.stop⟩ ∈ founds html := by
  simp only [tokens_eq_filterMap, List.mem_filterMap, Found.token?_eq_some, exists_eq_right]

theorem mem_commentPlaces_iff {c : Nat × Nat} :
    c ∈ commentPlaces html ↔ ⟨.comment, c.1, c.2⟩ ∈ founds html := by
  simp only [commentPlaces, List.mem_filterMap, Found.comment?_eq_some, exists_eq_right]

theorem pairwise_tokens (html : Text) :
    (tokens [] html).Pairwise fun k l => k.stop ≤ l.start := by
  rw [tokens_eq_filterMap]
  refine (pairwise_founds html).filterMap _ fun f g hfg k hk l hl => ?_
  obtain rfl := Found.token?_eq_some.1 hk
  obtain rfl := Found.token?_eq_some.1 hl
  exact hfg

theorem pairwise_commentPlaces (html : Text) :
    (commentPlaces html).Pairwise fun c d => c.2 ≤ d.1 := by
  refine (pairwise_founds html).filterMap _ fun f g hfg c hc d hd => ?_
  obtain rfl := Found.comment?_eq_some.1 hc
  obtain rfl := Found.comment?_eq_some.1 hd
  exact hfg

theorem comment_apart {c : Nat × Nat} {k : Token} (hc : c ∈ commentPlaces html)
    (hk : k ∈ tokens [] html) : c.2 ≤ k.start ∨ k.stop ≤ c.1 :=
  (eq_or_apart (pairwise_founds html) (mem_commentPlaces_iff.1 hc)
    (mem_tokens_iff.1 hk)).resolve_left (by simp)

def Token.textIn (html : Text) (k : Token) : Text := (html.take k.stop).drop k.start

structure Tag.IsWritten (k : Tag) (name blanks s : Text) : Prop where
  isName : isName name = true
  name_eq : name.map Char.toLower = k.name
  isBlank : allBlank blanks = true
  noSlash : k.selfClosing = false → (trimEnd k.attrs).getLast? ≠ some '/'
  text : s = '<' :: ((if k.closing then ['/'] else []) ++ name ++ k.attrs ++
    (if k.selfClosing then '/' :: blanks else []) ++ ['>'])

theorem exists_trimEnd (t : Text) : ∃ e, t = trimEnd t ++ e ∧ allBlank e = true := by
  refine ⟨(t.reverse.takeWhile Text.isBlank).reverse, ?_, ?_⟩
  · rw [trimEnd, dropEndWhile, ← List.reverse_append, List.takeWhile_append_dropWhile,
      List.reverse_reverse]
  · rw [allBlank, List.all_reverse]
    exact List.all_eq_true.2 fun c hc => List.mem_takeWhile_imp hc

theorem isWritten_ofBody {name : Text} (hn : Markup.isName name = true) (closing : Bool)
    (body : Text) :
    ∃ blanks, (Tag.ofBody closing name body).IsWritten name blanks
      (tagText closing name body) := by
  obtain ⟨e, he, hb⟩ := exists_trimEnd body
  have htext : tagText closing name body =
      '<' :: ((if closing then ['/'] else []) ++ name ++ body ++ ['>']) := by
    cases closing <;> rfl
  by_cases hs : (trimEnd body).getLast? = some '/'
  · obtain ⟨u, hu⟩ := List.getLast?_eq_some_iff.1 hs
    have hk : Tag.ofBody closing name body = ⟨name.map Char.toLower, u, closing, true⟩ := by
      simp [Tag.ofBody, hu]
    rw [hk, htext, he, hu]
    exact ⟨e, hn, rfl, hb, by simp, by simp⟩
  · have hk : Tag.ofBody closing name body = ⟨name.map Char.toLower, body, closing, false⟩ := by
      simp [Tag.ofBody, hs]
    rw [hk, htext]
    exact ⟨[], hn, rfl, rfl, fun _ => hs, by simp⟩

theorem exists_isWritten {k : Token} (h : k ∈ tokens [] html) :
    k.start < k.stop ∧ k.stop ≤ html.length ∧
      ∃ name blanks, k.toTag.IsWritten name blanks (k.textIn html) := by
  obtain ⟨n, hn, hs, hlt⟩ := exists_lexeme?_of_mem_founds (mem_tokens_iff.1 h)
  obtain ⟨closing, name, body, rest, hname, hk, ht, hlen, -⟩ := exists_tagText hn
  have htake : (html.drop k.start).take (n + 1) = tagText closing name body := by
    rw [ht, hlen, List.take_left]
  have hspan : k.textIn html = tagText closing name body := by
    rw [Token.textIn, hs, List.drop_take, Nat.add_sub_cancel_left, htake, ht, List.take_left]
  have hfit : k.stop ≤ html.length := by
    simp only [List.length_take, List.length_drop] at hs
    omega
  obtain ⟨blanks, hw⟩ := isWritten_ofBody hname closing body
  refine ⟨hlt, hfit, name, blanks, ?_⟩
  rw [hspan, hk]
  exact hw

theorem lower_eq_map {t : Text} (h : ∀ c ∈ t, c.toNat < 128) : lower t = t.map Char.toLower := by
  have hf (b : Bool) : lowerFrom b t = t.map Char.toLower := by
    induction t generalizing b with
    | nil => rfl
    | cons c t ih =>
      have hc := h c List.mem_cons_self
      rw [lowerFrom, lowerChar, if_pos hc, ih fun d hd => h d (List.mem_cons_of_mem _ hd)]
      rfl
  exact hf false

theorem lower_name_of_mem_tokens {k : Token} (h : k ∈ tokens [] html) :
    lower k.name = k.name := by
  obtain ⟨-, -, name, blanks, hw⟩ := exists_isWritten h
  have hn := hw.isName
  simp only [isName, Bool.and_eq_true, List.all_eq_true] at hn
  have hc : ∀ c ∈ name.map Char.toLower, c.toNat < 128 ∧ c.toLower = c := by
    intro c hc
    obtain ⟨d, hd, rfl⟩ := List.mem_map.1 hc
    have hlt := lt_of_isNameChar (hn.2 d hd)
    have ha : ∀ n < 128, (Char.ofNat n).toLower.toNat < 128 ∧
        (Char.ofNat n).toLower.toLower = (Char.ofNat n).toLower := by
      decide
    have := ha d.toNat hlt
    rwa [Char.ofNat_toNat] at this
  rw [← hw.name_eq, lower_eq_map fun c h => (hc c h).1]
  exact (List.map_congr_left fun c h => (hc c h).2).trans (List.map_id' _)

def IsCommentEnd (html : Text) (i j : Nat) : Prop :=
  (∃ m, IsLeast {m | i ≤ m ∧ "-->".toList <+: html.drop m} m ∧ j = m + 3) ∨
    (∀ m, i ≤ m → ¬ "-->".toList <+: html.drop m) ∧ j = html.length

theorem IsCommentEnd.unique {i j k : Nat} (h : IsCommentEnd html i j)
    (h' : IsCommentEnd html i k) : j = k := by
  rcases h with ⟨m, hm, rfl⟩ | ⟨hn, rfl⟩
  · rcases h' with ⟨l, hl, rfl⟩ | ⟨hn, -⟩
    · rw [hm.unique hl]
    · exact absurd hm.1.2 (hn m hm.1.1)
  · rcases h' with ⟨l, hl, -⟩ | ⟨-, rfl⟩
    · exact absurd hl.1.2 (hn l hl.1.1)
    · rfl

theorem IsCommentEnd.of_succ {i j : Nat} (h : IsCommentEnd html (i + 1) j)
    (hi : ¬ "-->".toList <+: html.drop i) : IsCommentEnd html i j := by
  have hlt {m : Nat} (hm : i ≤ m) (hp : "-->".toList <+: html.drop m) : i + 1 ≤ m := by
    rcases Nat.eq_or_lt_of_le hm with rfl | hlt
    · exact absurd hp hi
    · exact hlt
  rcases h with ⟨m, hm, rfl⟩ | ⟨hn, rfl⟩
  · exact .inl ⟨m, ⟨⟨Nat.le_of_succ_le hm.1.1, hm.1.2⟩,
      fun l hl => hm.2 ⟨hlt hl.1 hl.2, hl.2⟩⟩, rfl⟩
  · exact .inr ⟨fun m hm hp => hn m (hlt hm hp) hp, rfl⟩

theorem isCommentEnd_append (s r : Text) :
    IsCommentEnd (s ++ r) s.length (s.length + commentLength r) := by
  induction r generalizing s with
  | nil =>
    refine .inr ⟨fun m hm hp => ?_, by simp [commentLength]⟩
    rw [List.append_nil, List.drop_eq_nil_of_le hm] at hp
    cases List.prefix_nil.1 hp
  | cons c r ih =>
    have hd : (s ++ c :: r).drop s.length = c :: r := List.drop_left
    rw [commentLength]
    split
    · rename_i hp
      refine .inl ⟨s.length, ⟨⟨Nat.le_refl _, ?_⟩, fun l hl => hl.1⟩, rfl⟩
      rw [hd]
      exact List.isPrefixOf_iff_prefix.1 hp
    · rename_i hp
      have hnext := ih (s ++ [c])
      rw [List.append_assoc, List.singleton_append, List.length_append, List.length_singleton,
        Nat.add_assoc, Nat.add_comm 1] at hnext
      refine hnext.of_succ fun h => hp ?_
      rw [hd] at h
      exact List.isPrefixOf_iff_prefix.2 h

structure Delimits (html : Text) (ks : List Token) (cs : List (Nat × Nat)) : Prop where
  ordered : cs.Pairwise (·.1 < ·.1)
  starts : ∀ i, (∃ j, (i, j) ∈ cs) ↔ "<!--".toList <+: html.drop i ∧
    (∀ k ∈ ks, i < k.start ∨ k.stop ≤ i) ∧ ∀ c ∈ cs, c.1 < i → c.2 ≤ i
  stops : ∀ c ∈ cs, IsCommentEnd html (c.1 + 4) c.2

section

variable {ks : List Token} {cs ds : List (Nat × Nat)}

theorem Delimits.mem (h : Delimits html ks cs) (h' : Delimits html ks ds) {i j : Nat}
    (hc : (i, j) ∈ cs) : (i, j) ∈ ds := by
  induction i using Nat.strongRecOn generalizing cs ds j with
  | ind i ih =>
    obtain ⟨hp, hk, hb⟩ := (h.starts i).1 ⟨j, hc⟩
    have hb' : ∀ d ∈ ds, d.1 < i → d.2 ≤ i := fun d hd hlt => hb d (ih d.1 hlt h' h hd) hlt
    obtain ⟨l, hl⟩ := (h'.starts i).2 ⟨hp, hk, hb'⟩
    obtain rfl : j = l := (h.stops _ hc).unique (h'.stops _ hl)
    exact hl

theorem Delimits.unique (h : Delimits html ks cs) (h' : Delimits html ks ds) : cs = ds := by
  have : Std.Irrefl fun c d : Nat × Nat => c.1 < d.1 := ⟨fun c => Nat.lt_irrefl c.1⟩
  have : Std.Antisymm fun c d : Nat × Nat => c.1 < d.1 :=
    ⟨fun _ _ hlt hgt => absurd hgt (Nat.lt_asymm hlt)⟩
  exact h.ordered.eq_of_mem_iff h'.ordered fun _ => ⟨h.mem h', h'.mem h⟩

end

theorem commentLength_le (t : Text) : commentLength t ≤ t.length := by
  induction t with
  | nil => exact Nat.le_refl _
  | cons c t ih =>
    rw [commentLength]
    split
    · rename_i hp
      exact (List.isPrefixOf_iff_prefix.1 hp).length_le
    · exact Nat.succ_le_succ ih

theorem delimited_of_mem {c : Nat × Nat} (h : c ∈ commentPlaces html) :
    "<!--".toList <+: html.drop c.1 ∧ IsCommentEnd html (c.1 + 4) c.2 ∧ c.1 < c.2 := by
  obtain ⟨n, hn, hs, hlt⟩ := exists_lexeme?_of_mem_founds (mem_commentPlaces_iff.1 h)
  obtain ⟨r, hr, rfl⟩ := lexeme?_comment hn
  have hdash : "<!--".toList.length = 4 := rfl
  have hdrop : html.drop c.1 = "<!--".toList ++ r := hr
  have hlen : c.2 = c.1 + (4 + commentLength r) := by
    have hle := commentLength_le r
    rw [hdrop, List.length_take, List.length_append, hdash] at hs
    omega
  have hstart : (html.take c.1 ++ "<!--".toList).length = c.1 + 4 := by
    have hd := congrArg List.length hdrop
    rw [List.length_drop, List.length_append, hdash] at hd
    rw [List.length_append, List.length_take, hdash]
    omega
  have hend := isCommentEnd_append (html.take c.1 ++ "<!--".toList) r
  rw [hstart, List.append_assoc, ← hdrop, List.take_append_drop, Nat.add_assoc, ← hlen] at hend
  exact ⟨hdrop ▸ List.prefix_append _ _, hend, hlt⟩

theorem outside_founds {i : Nat} (hk : ∀ k ∈ tokens [] html, i < k.start ∨ k.stop ≤ i)
    (hc : ∀ c ∈ commentPlaces html, i < c.1 ∨ c.2 ≤ i) :
    ∀ f ∈ founds html, i < f.start ∨ f.stop ≤ i := by
  rintro ⟨y, j, l⟩ hf
  cases y with
  | comment => exact hc (j, l) (mem_commentPlaces_iff.2 hf)
  | tag t => exact hk { t with start := j, stop := l } (mem_tokens_iff.2 hf)

theorem lexeme?_isSome_of_commentStart {t : Text} (h : "<!--".toList <+: t) :
    (lexeme? t).isSome := by
  obtain ⟨r, rfl⟩ := h
  rfl

theorem delimits_commentPlaces (html : Text) :
    Delimits html (tokens [] html) (commentPlaces html) where
  ordered := (pairwise_commentPlaces html).imp_of_mem fun hc _ h =>
    Nat.lt_of_lt_of_le (delimited_of_mem hc).2.2 h
  stops c hc := (delimited_of_mem hc).2.1
  starts i := by
    constructor
    · rintro ⟨j, hc⟩
      have hlt : i < j := (delimited_of_mem hc).2.2
      refine ⟨(delimited_of_mem hc).1, fun k hk => ?_, fun d hd hdi => ?_⟩
      · exact (comment_apart hc hk).imp_left fun h => Nat.lt_of_lt_of_le hlt h
      · rcases eq_or_apart (pairwise_commentPlaces html) hc hd with rfl | h | h
        · exact absurd hdi (Nat.lt_irrefl _)
        · exact absurd (Nat.lt_of_lt_of_le hlt h) (Nat.lt_asymm hdi)
        · exact h
    · rintro ⟨hp, hk, hb⟩
      by_contra hn
      have hc : ∀ c ∈ commentPlaces html, i < c.1 ∨ c.2 ≤ i := by
        intro c hc
        rcases Nat.lt_trichotomy i c.1 with h | rfl | h
        · exact .inl h
        · exact absurd ⟨c.2, hc⟩ hn
        · exact .inr (hb c hc h)
      have hs := lexeme?_isSome_of_commentStart hp
      rw [lexeme?_none_of_outside (outside_founds hk hc)] at hs
      cases hs

theorem tag?_none_of_lexeme?_none {t : Text} (h : lexeme? t = none) : tag? t = none := by
  cases hc : comment? t with
  | some x => simp [lexeme?, hc] at h
  | none => simpa [lexeme?, hc] using h

/-- The tokens of a text stand one behind the other and are written as they say; none begins in a
comment, and outside tokens and comments no tag can be read. A choice of names leaves out the tokens
of all other names. -/
theorem tokens_exact (html : Text) :
    (tokens [] html).Pairwise (fun k l => k.stop ≤ l.start) ∧
      (∀ k ∈ tokens [] html, k.start < k.stop ∧ k.stop ≤ html.length ∧
        ∃ name blanks, k.toTag.IsWritten name blanks (k.textIn html)) ∧
      (∃ cs, (∀ ds, Delimits html (tokens [] html) ds ↔ ds = cs) ∧
        (∀ c ∈ cs, ∀ k ∈ tokens [] html, k.start < c.1 ∨ c.2 ≤ k.start) ∧
        ∀ i, (∀ k ∈ tokens [] html, i < k.start ∨ k.stop ≤ i) →
          (∀ c ∈ cs, i < c.1 ∨ c.2 ≤ i) → tag? (html.drop i) = none) ∧
      ∀ n ns, tokens (n :: ns) html =
        (tokens [] html).filter fun k => (n :: ns).any fun m => lower m == lower k.name := by
  refine ⟨pairwise_tokens html, fun k => exists_isWritten, ⟨commentPlaces html, ?_, ?_, ?_⟩, ?_⟩
  · have hd := delimits_commentPlaces html
    exact fun ds => ⟨fun h => h.unique hd, fun h => h ▸ hd⟩
  · intro c hc k hk
    have hlt := (exists_isWritten hk).1
    exact (comment_apart hc hk).symm.imp_left fun h => Nat.lt_of_lt_of_le hlt h
  · exact fun i hk hc => tag?_none_of_lexeme?_none (lexeme?_none_of_outside (outside_founds hk hc))
  · intro n ns
    rw [tokens_eq_filter]
    refine List.filter_congr fun k hk => ?_
    rw [lower_name_of_mem_tokens hk]
    rfl

example : (tokens [] "<!--<b>--><Td a='>' / ><i <!--></p ><!--><u>".toList).map
      (fun k => (k.start, k.stop)) = [(10, 23), (23, 31), (31, 36)] ∧
    commentPlaces "<!--<b>--><Td a='>' / ><i <!--></p ><!--><u>".toList = [(0, 10), (36, 44)] := by
  decide

end MailMarkup.Markup
