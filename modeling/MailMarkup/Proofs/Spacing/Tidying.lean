import MailMarkup.Proofs.Spacing.Regions

namespace MailMarkup.Spacing

open Text Markup

theorem isLoose_of_trimmed {c : Char} {r : Text} (hc : c = ' ')
    (hr : (trimLines r).head? = some ' ') : isLoose c r = true := by
  subst hc
  cases r with
  | nil => simp [trimLines] at hr
  | cons d r =>
    rw [trimLines] at hr
    split at hr
    · rename_i hd
      simp only [Bool.and_eq_true] at hd
      rw [isLoose, List.dropWhile_cons_of_pos hd.1, hd.2]
      simp [isSpaceOrTab]
    · obtain rfl := Option.some.inj hr
      rfl

theorem tidied_tidyPlain (t : Text) : Tidied t (tidyPlain t) := by
  induction t with
  | nil => exact .nil
  | cons c r ih =>
    rw [tidyPlain, trimLines]
    split
    · rename_i hc
      exact .drop (by simp [isLoose, hc]) ih
    · rw [narrowRuns]
      split
      · rename_i hc
        exact .drop (isLoose_of_trimmed hc.1 hc.2) ih
      · exact .keep c ih

inductive Kept : List Node → Text → Prop
  | nil : Kept [] []
  | comment (inner : Text) {ns : List Node} {t : Text} (h : Kept ns t) :
    Kept (.comment inner :: ns) (commentText inner ++ t)
  | stretch {ms ns : List Node} {u t : Text} (hm : commentsOf ms = [])
    (hu : Tidied (sources ms) u) (h : Kept ns t) : Kept (ms ++ ns) (u ++ t)

theorem Kept.cons {ns : List Node} {t : Text} (h : Kept ns t) (n : Node) :
    Kept (n :: ns) (n.source ++ t) := by
  have hn : ∀ n : Node, commentsOf [n] = [] → Kept (n :: ns) (n.source ++ t) := fun n hn =>
    @Kept.stretch [n] ns n.source t hn (by simpa [sources] using .refl _) h
  cases n with
  | comment inner => exact .comment inner h
  | char c => exact hn _ rfl
  | angle c => exact hn _ rfl
  | declaration m inner => exact hn _ rfl
  | tag closing name body => exact hn _ rfl

theorem Kept.verbatim {ns : List Node} {t : Text} (h : Kept ns t) (ms : List Node) :
    Kept (ms ++ ns) (sources ms ++ t) := by
  induction ms with
  | nil => exact h
  | cons m ms ih =>
    rw [List.cons_append, sources_cons, List.append_assoc]
    exact ih.cons m

theorem Kept.exists_spaced {ns : List Node} (hc : IsClean ns) {t : Text} (h : Kept ns t) :
    ∃ ms, t = sources ms ∧ Spaced Eq Tidied ns ms := by
  induction h with
  | nil => exact ⟨[], rfl, .nil, .nil⟩
  | comment inner h ih =>
    obtain ⟨ms, rfl, hs⟩ := ih hc.tail
    exact ⟨.comment inner :: ms, rfl, hs.cons hc.head (.comment rfl)⟩
  | @stretch ls ns u t hm hu h ih =>
    obtain ⟨ms, rfl, hs⟩ := ih hc.right
    obtain ⟨ks, rfl, hk⟩ := isSpacing_tidied.exists_spaced hc.left hu
    refine ⟨ks ++ ms, (sources_append ks ms).symm, hk.clean.append hs.clean, ?_⟩
    rw [skeleton_append, skeleton_append]
    refine List.rel_append (Run.forall₂_imp_of_mem hk.firm fun n hn m hr => ?_) hs.firm
    cases hr with
    | declaration m h => exact .declaration m h
    | @comment inner inner' h =>
      have : commentText inner ∈ commentsOf ls :=
        List.mem_filterMap.2 ⟨_, (List.mem_filter.1 hn).1, rfl⟩
      simp [hm] at this
    | tag closing name h => exact .tag closing name h

theorem comment?_declaration {m : Char} {inner : Text}
    (h : (Node.declaration m inner).isValid = true) (r : Text) :
    comment? ('<' :: m :: (inner ++ '>' :: r)) = none := by
  obtain ⟨-, -, -, hd⟩ := isValid_declaration.1 h
  unfold comment?
  split
  · rename_i t he
    obtain ⟨-, he⟩ := List.cons.inj (List.cons.inj he).2
    have := isPrefixOf_dashes_append (r := r) (d := '>') (by decide) hd
    rw [he] at this
    simp at this
  · rfl

theorem region?_of_not_isAlpha {c : Char} {r : Text} (h : comment? ('<' :: c :: r) = none)
    (hc : c.isAlpha = false) : region? ('<' :: c :: r) = none := by
  rw [region?_of_comment?_none h]
  cases hs : behindProtected? (c :: r) with
  | none => rfl
  | some s =>
    rw [head_of_behindProtected? hs] at hc
    cases hc

theorem scan_source {n : Node} (hv : n.isValid = true) (hn : ∀ inner, n ≠ .comment inner) {r : Text}
    (hp : ∀ name body, n = .tag false name body →
      behindProtected? (name ++ (body ++ '>' :: r)) = none) :
    scan region? (n.source ++ r) = n.source.map .char ++ scan region? r := by
  refine scan_passed startsMarkup_region? hv hn ?_
  cases n with
  | char c =>
    simp only [Node.isValid, bne_iff_ne, ne_eq] at hv
    exact startsMarkup_region?.angle r hv
  | angle c =>
    simp only [Node.isValid, Bool.and_eq_true, bne_iff_ne, ne_eq, Bool.not_eq_true'] at hv
    exact startsMarkup_region?.start r hv.2
  | declaration m inner =>
    have hm := (isValid_declaration.1 hv).1
    have := region?_of_not_isAlpha (comment?_declaration hv r)
      (by rcases hm with rfl | rfl <;> decide)
    simpa [Node.source] using this
  | comment inner => exact absurd rfl (hn inner)
  | tag closing name body =>
    cases closing with
    | true => exact region?_of_not_isAlpha (comment?_of_ne (by decide) _) (by decide)
    | false =>
      obtain ⟨c, t, ht, hc, -⟩ := exists_tag_cons hv
      have := hp _ _ rfl
      rw [show name ++ (body ++ '>' :: r) = c :: (t ++ '>' :: r) by
        rw [← List.append_assoc, show name ++ body = _ from ht]; rfl] at this
      have hs : (Node.tag false name body).source ++ r = '<' :: c :: (t ++ '>' :: r) := by
        rw [Node.source, tagText, ht]
        simp
      rw [hs, region?_of_comment?_none (comment?_of_ne hc _), this]
      rfl

theorem scan_comment {inner : Text} (h : endsComment inner = true) (r : Text) :
    scan region? (commentText inner ++ r) =
      .hit () (commentText inner) :: scan region? r := by
  have hc : comment? (commentText inner ++ r) = some ((), (commentText inner).length - 1) := by
    simp only [commentText, String.reduceToList, List.cons_append, List.nil_append, comment?,
      commentLength_append h, List.length_cons]
    congr 2
    omega
  refine scan_append (by simp [commentText]) ?_
  unfold region?
  rw [hc]

theorem scan_opening {c : Char} {r s q : Text} (hc : c ≠ '!')
    (h : behindProtected? (c :: r) = some s)
    (hq : c :: r = q ++ s) :
    scan region? ('<' :: c :: r) = .hit () ('<' :: q) :: scan region? s := by
  have hr : region? ('<' :: c :: r) = some ((), q.length) := by
    rw [region?_of_comment?_none (comment?_of_ne hc r), h, Option.map_some, hq, List.length_append,
      Nat.add_sub_cancel]
  rw [scan_cons_some hr, hq, List.take_left, List.drop_left]

def tidiedRest (bs : List (Text × Text)) : Text :=
  bs.flatMap fun (region, t) => region ++ tidyPlain t

theorem tidy_eq (html : Text) : tidy html =
    tidyPlain (blocks (scan region? html)).1 ++ tidiedRest (blocks (scan region? html)).2 := rfl

theorem blocks_map_char (s : Text) (ps : List (Piece Unit)) :
    blocks (s.map .char ++ ps) = (s ++ (blocks ps).1, (blocks ps).2) := by
  induction s with
  | nil => rfl
  | cons c s ih => rw [List.map_cons, List.cons_append, blocks, ih]; rfl

theorem isGuarded_right {ms ns : List Node} (h : isGuarded (ms ++ ns) = true) :
    isGuarded ns = true := by
  induction ms with
  | nil => exact h
  | cons m ms ih =>
    rw [List.cons_append, isGuarded, Bool.and_eq_true] at h
    exact ih h.2

structure Blocked (x : Text) (ns : List Node) (bs : Text × List (Text × Text)) : Prop where
  split : ∃ ms ls, ns = ms ++ ls ∧ commentsOf ms = [] ∧ bs.1 = x ++ sources ms ∧
    Kept ls (tidiedRest bs.2)

theorem Blocked.tail {x : Text} (hx : IsTail x) {ns : List Node}
    (h : Blocked [] ns (blocks (scan region? (sources ns)))) :
    Blocked x ns (blocks (scan region? (x ++ sources ns))) := by
  obtain ⟨ms, ls, hn, hm, hb, hk⟩ := h
  rw [scan_tail hx, blocks_map_char]
  exact ⟨ms, ls, hn, hm, by rw [hb]; rfl, hk⟩

theorem Blocked.exists_kept {x : Text} {ns : List Node} {bs : Text × List (Text × Text)}
    (h : Blocked x ns bs) : ∃ ms ls u t, ns = ms ++ ls ∧ commentsOf ms = [] ∧
      Tidied (x ++ sources ms) u ∧ Kept ls t ∧ tidyPlain bs.1 ++ tidiedRest bs.2 = u ++ t := by
  obtain ⟨ms, ls, hn, hm, hb, hk⟩ := h
  exact ⟨ms, ls, _, _, hn, hm, hb ▸ tidied_tidyPlain bs.1, hk, rfl⟩

def IsBlocked (ns : List Node) : Prop := Blocked [] ns (blocks (scan region? (sources ns)))

theorem isBlocked_comment {inner : Text} {ns : List Node} (h : endsComment inner = true)
    (hb : IsBlocked ns) : IsBlocked (.comment inner :: ns) := by
  rw [IsBlocked, sources_cons, Node.source, scan_comment h]
  obtain ⟨ms, ls, u, t, rfl, hm, hu, hk, he⟩ := hb.exists_kept
  refine ⟨[], _, rfl, rfl, rfl, ?_⟩
  have : Kept (.comment inner :: (ms ++ ls)) (commentText inner ++ (u ++ t)) :=
    .comment inner (.stretch hm hu hk)
  rw [← he] at this
  simpa [blocks, tidiedRest] using this

theorem isBlocked_passed {n : Node} {ns : List Node} (hv : n.isValid = true)
    (hn : ∀ inner, n ≠ .comment inner)
    (hp : ∀ name body, n = .tag false name body →
      behindProtected? (name ++ (body ++ '>' :: sources ns)) = none)
    (hb : IsBlocked ns) : IsBlocked (n :: ns) := by
  rw [IsBlocked, sources_cons, scan_source hv hn hp, blocks_map_char]
  obtain ⟨ms, ls, rfl, hm, hb, hk⟩ := hb
  refine ⟨n :: ms, ls, rfl, ?_, by rw [hb]; rfl, hk⟩
  rw [← hm]
  cases n with
  | comment inner => exact absurd rfl (hn inner)
  | _ => rfl

theorem isBlocked_tail {name body q x : Text} {ns : List Node}
    (hq : name ++ (body ++ ['>']) = q ++ x) (hx : IsTail x)
    (hs : scan region? ((Node.tag false name body).source ++ sources ns) =
      .hit () ('<' :: q) :: scan region? (x ++ sources ns))
    (hb : IsBlocked ns) : IsBlocked (.tag false name body :: ns) := by
  rw [IsBlocked, sources_cons, hs]
  obtain ⟨ms, ls, u, t, rfl, hm, hu, hk, he⟩ := (hb.tail hx).exists_kept
  refine ⟨[], _, rfl, rfl, rfl, ?_⟩
  have hsp : Tidied (sources (.tag false name body :: ms)) ('<' :: q ++ u) := by
    have : sources (.tag false name body :: ms) = '<' :: q ++ (x ++ sources ms) := by
      rw [sources_cons, Node.source, tagText, List.cons_append, List.cons_append,
        ← List.append_assoc q, ← hq]
      simp
    rw [this]
    exact (Tidied.refl _).append hu
  have : Kept (.tag false name body :: ms ++ ls) (('<' :: q ++ u) ++ t) := .stretch hm hsp hk
  rw [List.append_assoc, ← he] at this
  simpa [blocks, tidiedRest] using this

theorem isBlocked_region {n : Node} {ms ls : List Node}
    (hs : scan region? (n.source ++ sources (ms ++ ls)) =
      .hit () (n.source ++ sources ms) :: scan region? (sources ls))
    (hb : IsBlocked ls) : IsBlocked (n :: (ms ++ ls)) := by
  rw [IsBlocked, sources_cons, hs]
  obtain ⟨ks, ls, u, t, rfl, hm, hu, hk, he⟩ := hb.exists_kept
  refine ⟨[], _, rfl, rfl, rfl, ?_⟩
  have := (Kept.stretch hm hu hk).verbatim (n :: ms)
  rw [← he, sources_cons] at this
  simpa [blocks, tidiedRest] using this

theorem isBlocked_opening {name body s : Text} {ns : List Node}
    (hc : IsClean (.tag false name body :: ns)) (hg : isGuarded (.tag false name body :: ns) = true)
    (hs : behindProtected? (name ++ (body ++ '>' :: sources ns)) = some s)
    (hb : ∀ ms ls, ns = ms ++ ls → IsBlocked ls) : IsBlocked (.tag false name body :: ns) := by
  rw [isGuarded, Bool.and_eq_true, List.all_eq_true] at hg
  obtain ⟨c, t, ht, hne, -⟩ := exists_tag_cons hc.head
  have hcons : name ++ (body ++ '>' :: sources ns) = c :: (t ++ '>' :: sources ns) := by
    rw [← List.append_assoc, show name ++ body = _ from ht]
    rfl
  have hsrc : ∀ r,
      (Node.tag false name body).source ++ r = '<' :: (name ++ (body ++ '>' :: r)) := by
    simp [Node.source, tagText]
  have hscan : ∀ q, name ++ (body ++ '>' :: sources ns) = q ++ s →
      scan region? ('<' :: (name ++ (body ++ '>' :: sources ns))) =
        .hit () ('<' :: q) :: scan region? s := by
    intro q hq
    rw [hcons] at hq hs ⊢
    exact scan_opening hne hs hq
  rcases endsRegion hc.head hc.tail hg.1 hs with ⟨q, x, hq, hx, rfl⟩ | ⟨ms, ls, rfl, rfl⟩
  · refine isBlocked_tail hq hx ?_ (hb [] ns rfl)
    rw [hsrc]
    refine hscan q ?_
    rw [← List.append_assoc q, ← hq]
    simp
  · refine isBlocked_region ?_ (hb ms ls rfl)
    rw [hsrc, hsrc]
    refine hscan _ ?_
    simp [sources_append]

theorem isBlocked {ns : List Node} (hc : IsClean ns) (hg : isGuarded ns = true) :
    IsBlocked ns := by
  induction hl : ns.length using Nat.strong_induction_on generalizing ns with
  | _ l ih =>
    cases ns with
    | nil => exact ⟨[], [], rfl, rfl, rfl, .nil⟩
    | cons n ns =>
      have hb : ∀ ms ls, ns = ms ++ ls → IsBlocked ls := by
        rintro ms ls rfl
        refine ih ls.length ?_ hc.tail.right (@isGuarded_right (n :: ms) ls hg) rfl
        rw [← hl, List.length_cons, List.length_append]
        omega
      by_cases hcom : ∃ inner, n = .comment inner
      · obtain ⟨inner, rfl⟩ := hcom
        exact isBlocked_comment hc.head (hb [] ns rfl)
      · by_cases hp : ∃ name body s, n = .tag false name body ∧
            behindProtected? (name ++ (body ++ '>' :: sources ns)) = some s
        · obtain ⟨name, body, s, rfl, hs⟩ := hp
          exact isBlocked_opening hc hg hs hb
        · refine isBlocked_passed hc.head (fun inner he => hcom ⟨inner, he⟩) ?_ (hb [] ns rfl)
          intro name body hn
          by_contra hne
          obtain ⟨s, hs⟩ := Option.ne_none_iff_exists'.1 hne
          exact hp ⟨name, body, s, hn, hs⟩

theorem exists_tidy {ns : List Node} (hc : IsClean ns) (hg : isGuarded ns = true) :
    ∃ ms, tidy (sources ns) = sources ms ∧ Spaced Eq Tidied ns ms := by
  obtain ⟨ms, ls, u, t, rfl, hm, hu, hk, he⟩ := (isBlocked hc hg).exists_kept
  have := Kept.exists_spaced hc (.stretch hm hu hk)
  rwa [← he, ← tidy_eq] at this

end MailMarkup.Spacing
