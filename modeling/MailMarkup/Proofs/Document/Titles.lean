import MailMarkup.Proofs.Document.Wrapping

namespace MailMarkup.Document

open Text Markup Spacing

def mentions (w : Text) : Text → Bool
  | [] => false
  | c :: r => startsFolded w (c :: r) || mentions w r

def shellMarks : List Text :=
  ["<!doctype".toList, "<?xml".toList, "<title".toList, "</title".toList]

def isInert (inner : Text) : Bool := shellMarks.all (!mentions · (commentText inner))

def areInert (ns : List Node) : Bool := ns.all fun
  | .comment inner => isInert inner
  | _ => true

theorem areInert_cons {n : Node} {ns : List Node} (h : areInert (n :: ns) = true) :
    (∀ inner, n = .comment inner → isInert inner = true) ∧ areInert ns = true := by
  rw [areInert, List.all_cons, Bool.and_eq_true] at h
  exact ⟨fun inner hn => by subst hn; exact h.1, h.2⟩

theorem startsFolded_append {w : Text} (hw : '>' ∉ w) (t r : Text) :
    startsFolded w (t ++ '>' :: r) = startsFolded w (t ++ ['>']) := by
  rw [startsFolded, startsFolded, dropFolded?_append hw, dropFolded?_append hw, Option.isSome_map,
    Option.isSome_map]

theorem passes_of_mentions {f : Text → Option β} {w : Text} (hw : '>' ∉ w)
    (hf : ∀ t, f t ≠ none → startsFolded w t = true) {t : Text}
    (h : mentions w (t ++ ['>']) = false) (r : Text) : Passes f (t ++ ['>']) r := by
  have hnone : ∀ s : Text, startsFolded w (s ++ ['>']) = false → f (s ++ '>' :: r) = none := by
    intro s hs
    by_contra hn
    have := hf _ hn
    rw [startsFolded_append hw, hs] at this
    cases this
  induction t with
  | nil =>
    simp only [List.nil_append, mentions, Bool.or_false] at h
    exact .cons (hnone [] h) (.nil f r)
  | cons c t ih =>
    simp only [List.cons_append, mentions, Bool.or_eq_false_iff] at h
    refine .cons ?_ (ih h.2)
    have := hnone (c :: t) h.1
    simpa using this

theorem passes_comment {f : Text → Option β} {w : Text} (hw : w ∈ shellMarks)
    (hf : ∀ t, f t ≠ none → startsFolded w t = true) {inner : Text}
    (hv : endsComment inner = true) (h : isInert inner = true) (r : Text) :
    Passes f (commentText inner) r := by
  have hg : ∀ w ∈ shellMarks, '>' ∉ w := by decide
  obtain ⟨i, rfl⟩ := exists_of_endsComment hv
  rw [isInert, List.all_eq_true] at h
  have hm : mentions w ((commentText i) ++ ['>']) = false := by
    have := h w hw
    simpa [commentText] using this
  have := passes_of_mentions (hg w hw) hf hm r
  simpa [commentText] using this

theorem hits_of_passes {f : Recogniser α} {t : Text} (h : Passes f t []) : hits f t = [] := by
  have := scan_of_passes h
  rw [List.append_nil] at this
  rw [hits, this]
  exact (List.filterMap_append ..).trans (by rw [filterMap_map_char]; rfl)

theorem holds_doctype?_of_isInert {inner : Text} (hv : endsComment inner = true)
    (h : isInert inner = true) : holds doctype? (.comment inner) = false := by
  have hf : ∀ t, doctype? t ≠ none → startsFolded "<!doctype".toList t = true := by
    intro t ht
    rw [startsFolded]
    cases hd : dropFolded? "<!doctype".toList t with
    | some r => rfl
    | none =>
      rw [doctype?, hd] at ht
      exact absurd rfl ht
  rw [holds, Node.source, hits_of_passes (passes_comment (by decide) hf hv h [])]
  rfl

theorem holds_xmlDeclaration?_of_isInert {inner : Text} (hv : endsComment inner = true)
    (h : isInert inner = true) : holds xmlDeclaration? (.comment inner) = false := by
  have hf : ∀ t, xmlDeclaration? t ≠ none → startsFolded "<?xml".toList t = true := by
    intro t ht
    rw [startsFolded]
    cases hd : dropFolded? "<?xml".toList t with
    | some r => rfl
    | none =>
      rw [xmlDeclaration?, hd] at ht
      exact absurd rfl ht
  rw [holds, Node.source, hits_of_passes (passes_comment (by decide) hf hv h [])]
  rfl

def behindTitle? : Text → Option Text := dropClosing? (dropFolded? "title".toList)

theorem dropsName_title : DropsName (dropFolded? "title".toList) :=
  dropsName_folded (forall_eq_false (by decide))

theorem closing?_eq (t : Text) : untilTitleEnd?.closing? t = behindTitle? t := by
  have hw : "</title".toList = '<' :: '/' :: "title".toList := rfl
  match t with
  | [] => rfl
  | c :: t =>
    by_cases hc : c = '<'
    · subst hc
      cases t with
      | nil => rfl
      | cons d t =>
        by_cases hd : d = '/'
        · subst hd
          rw [untilTitleEnd?.closing?, hw, dropFolded?, if_pos (by decide), dropFolded?,
            if_pos (by decide)]
          rfl
        · rw [untilTitleEnd?.closing?, hw, dropFolded?, if_pos (by decide),
            dropFolded?_of_ne hd (by decide), behindTitle?, dropClosing?_angle hd]
          rfl
    · rw [untilTitleEnd?.closing?, hw, dropFolded?_of_ne hc (by decide), behindTitle?,
        dropClosing?_of_ne hc]
      rfl

theorem startsFolded_of_behindTitle? (t : Text) (h : behindTitle? t ≠ none) :
    startsFolded "</title".toList t = true := by
  rw [← closing?_eq, untilTitleEnd?.closing?] at h
  rw [startsFolded]
  cases hd : dropFolded? "</title".toList t with
  | some r => rfl
  | none =>
    rw [hd] at h
    exact absurd rfl h

theorem untilTitleEnd?_of_passes {s r : Text} (h : Passes behindTitle? s r) :
    untilTitleEnd? (s ++ r) = (untilTitleEnd? r).map fun x => (s ++ x.1, x.2) := by
  induction s with
  | nil => simp
  | cons c s ih =>
    rw [List.cons_append, untilTitleEnd?, closing?_eq, h.head, ih h.tail, Option.map_map]
    rfl

theorem foldLetter_of_isNameChar {c : Char} (h : isNameChar c = true) :
    foldLetter c = c.toLower := by
  have hne : ∀ d, isNameChar d = false → c ≠ d := by
    rintro d hd rfl
    rw [hd] at h
    cases h
  rw [foldLetter, if_neg (hne _ (by decide)), if_neg (hne _ (by decide)), if_neg]
  rintro (rfl | rfl)
  · exact absurd h (by decide)
  · exact absurd h (by decide)

theorem map_foldLetter_of_isName {name : Text} (h : isName name = true) :
    name.map foldLetter = name.map Char.toLower := by
  simp only [isName, Bool.and_eq_true, List.all_eq_true] at h
  exact List.map_congr_left fun c hc => foldLetter_of_isNameChar (h.2 c hc)

theorem closes_title {n : Node} (hv : n.isValid = true) :
    closes (dropFolded? "title".toList) n = closesTitle n := by
  rw [Bool.eq_iff_iff]
  constructor
  · intro h
    obtain ⟨name, body, rfl, hb, hu⟩ := exists_of_closes dropsName_title hv h
    have ht := (isValid_tag.1 hv).1
    obtain ⟨r, hr, hm⟩ := Option.bind_eq_some_iff.1 (hu [])
    obtain ⟨p, hp, hi, hl⟩ := dropsName_title _ _ hr
    obtain ⟨z, rfl, rfl⟩ := exists_of_tag_eq ht hi hp
    have hz : z = [] := by
      cases z with
      | nil => rfl
      | cons c z =>
        have hc := not_endsWith_of_isName ht.name_ok c (by simp)
        have hb : isBlank c = false := by
          by_contra hb
          rw [endsWith_iff.2 (.inl (by simpa using hb))] at hc
          cases hc
        rw [List.cons_append, List.dropWhile_cons_of_neg (by simp [hb])] at hm
        split at hm
        · rename_i he
          rw [(List.cons.inj he).1] at hc
          exact absurd hc (by decide)
        · cases hm
    subst hz
    obtain ⟨q, hq, hw⟩ := dropFolded?_eq_some_iff.1 (hl [])
    have hpq : p = q := by simpa using hq
    rw [List.append_nil] at ht ⊢
    rw [closesTitle, ← map_foldLetter_of_isName ht.name_ok, hpq, hw, hb]
    rfl
  · intro h
    unfold closesTitle at h
    split at h
    · rename_i name body
      simp only [Bool.and_eq_true, beq_iff_eq] at h
      have hn := (isValid_tag.1 hv).1.name_ok
      rw [← map_foldLetter_of_isName hn] at h
      have hd : (body ++ ['>']).dropWhile isBlank = ['>'] := by
        rw [List.dropWhile_append_of_pos fun c hc => List.all_eq_true.1 h.2 c hc]
        rfl
      simp only [closes, Node.source, tagText, if_true, List.cons_append, List.append_assoc,
        dropClosing?, ← h.1, dropFolded?_map, Option.bind_some, hd]
      rfl
    · simp at h

theorem untilTitleEnd?_sources {ns : List Node} (hc : IsClean ns) (hi : areInert ns = true) :
    untilTitleEnd? (sources ns) =
      (firstSplit closesTitle ns).map fun x => (sources x.1, sources x.2.2) := by
  induction ns with
  | nil => rfl
  | cons n ns ih =>
    obtain ⟨hin, hi⟩ := areInert_cons hi
    rw [sources_cons, firstSplit, ← closes_title hc.head]
    by_cases hcl : closes (dropFolded? "title".toList) n = true
    · have hdrop := dropClosing?_source dropsName_title hc.head hcl (sources ns)
      obtain ⟨c, t, ht⟩ := List.exists_cons_of_ne_nil n.source_ne_nil
      rw [ht, List.cons_append] at hdrop ⊢
      rw [untilTitleEnd?, closing?_eq, behindTitle?, hdrop, if_pos hcl]
      rfl
    · have hp : Passes behindTitle? n.source (sources ns) := by
        by_cases hn : ∃ inner, n = .comment inner
        · obtain ⟨inner, rfl⟩ := hn
          exact passes_comment (by decide) startsFolded_of_behindTitle? hc.head (hin inner rfl) _
        · exact passes_dropClosing? dropsName_title hc.head (fun i he => hn ⟨i, he⟩)
            (by simpa using hcl) _
      rw [untilTitleEnd?_of_passes hp, ih hc.tail hi, if_neg hcl, Option.map_map, Option.map_map]
      refine congrArg (fun f => Option.map f _) (funext fun x => ?_)
      simp [sources_cons]

def wideBlanks : List Nat := [0x85, 0xA0, 0x1680, 0x2000, 0x2001, 0x2002, 0x2003, 0x2004, 0x2005,
  0x2006, 0x2007, 0x2008, 0x2009, 0x200A, 0x2028, 0x2029, 0x202F, 0x205F, 0x3000]

theorem mem_wideBlanks {c : Char} (h : isBlank c = true) (hc : ¬ c.toNat < 128) :
    c.toNat ∈ wideBlanks := by
  simp only [isBlank, inRanges, blankRanges, List.any_cons, List.any_nil, Bool.or_eq_true,
    Bool.and_eq_true, decide_eq_true_eq, Bool.or_false] at h
  simp only [wideBlanks, List.mem_cons, List.not_mem_nil, or_false]
  omega

theorem not_isWordChar_of_isBlank {c : Char} (h : isBlank c = true) : isWordChar c = false := by
  unfold isWordChar
  split
  · have hn := not_isNameChar_of_isBlank h
    simp only [isNameChar, Bool.or_eq_false_iff] at hn
    simp [hn.1.1.1, hn.1.2]
  · rename_i hc
    have hw : ∀ n ∈ wideBlanks, wordRanges.any (fun r => r.1 ≤ n && n ≤ r.2) = false := by
      decide +kernel
    exact hw _ (mem_wideBlanks h hc)

theorem not_isWordChar_of_endsWith {c : Char} (h : endsWith c = true) : isWordChar c = false := by
  rcases endsWith_iff.1 h with h | rfl | rfl
  · exact not_isWordChar_of_isBlank h
  · decide
  · decide

theorem isWordChar_toLower {c : Char} (h : isNameChar c = true) :
    isWordChar c.toLower = isWordChar c := by
  have hd : ∀ n < 128, isWordChar (Char.ofNat n).toLower = isWordChar (Char.ofNat n) := by
    decide +kernel
  have := hd c.toNat (lt_of_isNameChar h)
  rwa [Char.ofNat_toNat] at this

theorem atWordEnd_map_toLower {name body z : Text} (ht : IsTag name body) (hz : z ⊆ name)
    (r : Text) : atWordEnd (z.map Char.toLower) = atWordEnd (z ++ (body ++ '>' :: r)) := by
  cases z with
  | nil =>
    have hx := head?_ends ht r
    rw [List.nil_append, List.map_nil, atWordEnd, atWordEnd]
    cases hh : (body ++ '>' :: r).head? with
    | none => simp [hh] at hx
    | some c =>
      rw [hh] at hx
      simp [not_isWordChar_of_endsWith (show endsWith c = true from hx)]
  | cons c z =>
    have hn := ht.name_ok
    simp only [isName, Bool.and_eq_true, List.all_eq_true] at hn
    simp [atWordEnd, isWordChar_toLower (hn.2 c (hz List.mem_cons_self))]

theorem opensTitle_iff {name body : Text} (ht : IsTag name body) (r : Text) :
    opensTitle (.tag false name body) = true ↔
      ∃ p z, name = p ++ z ∧ p.map foldLetter = "title".toList ∧
        atWordEnd (z ++ (body ++ '>' :: r)) = true := by
  simp only [opensTitle, Bool.and_eq_true, List.isPrefixOf_iff_prefix]
  constructor
  · rintro ⟨⟨x, hx⟩, he⟩
    have hx' : name.map Char.toLower = "title".toList ++ x := hx.symm
    obtain ⟨p, z, rfl, hp, rfl⟩ := List.map_eq_append_iff.1 hx'
    rw [hx', show "title".toList = "title".toList from rfl, List.drop_left' (by rfl),
      atWordEnd_map_toLower ht (List.subset_append_right p z) r] at he
    refine ⟨p, z, rfl, ?_, he⟩
    have hn := map_foldLetter_of_isName ht.name_ok
    rw [List.map_append, List.map_append] at hn
    rw [← hp]
    exact (List.append_inj hn (by simp)).1
  · rintro ⟨p, z, rfl, hp, he⟩
    have hn := map_foldLetter_of_isName ht.name_ok
    rw [← hn, List.map_append, hp]
    refine ⟨List.prefix_append _ _, ?_⟩
    rw [List.drop_left' (by rfl)]
    have hz : z.map foldLetter = z.map Char.toLower := by
      rw [List.map_append, List.map_append] at hn
      exact (List.append_inj hn (by simp)).2
    rw [hz, atWordEnd_map_toLower ht (List.subset_append_right p z) r]
    exact he

theorem title?_source {name body : Text} (hv : (Node.tag false name body).isValid = true)
    (h : opensTitle (.tag false name body) = true) (r : Text) :
    ∃ q x, (Node.tag false name body).source = q ++ x ∧ IsTail x ∧
      title? ((Node.tag false name body).source ++ r) =
        (untilTitleEnd? (x ++ r)).map fun y =>
          (y.1, ((Node.tag false name body).source ++ r).length - y.2.length - 1) := by
  obtain ⟨ht, -⟩ := isValid_tag.1 hv
  obtain ⟨p, z, rfl, hp, he⟩ := (opensTitle_iff ht r).1 h
  have hsrc : ∀ r, (Node.tag false (p ++ z) body).source ++ r =
      '<' :: (p ++ (z ++ (body ++ '>' :: r))) := by
    intro r
    simp [Node.source, tagText]
  have hdrop : dropFolded? "<title".toList ((Node.tag false (p ++ z) body).source ++ r) =
      some (z ++ (body ++ '>' :: r)) := by
    rw [hsrc, show "<title".toList = '<' :: "title".toList from rfl, dropFolded?,
      if_pos (by decide), ← hp, dropFolded?_map]
  have hm : '>' ∈ z ++ (body ++ ['>']) := by simp
  obtain ⟨-, h2, h3⟩ := append_of_mem hm (p := (· != '>')) (by decide) r
  obtain ⟨c, x, hx⟩ := List.exists_cons_of_ne_nil h3
  have hc : c = '>' := by
    have := List.head?_dropWhile_not (· != '>') (z ++ (body ++ ['>']))
    rw [hx] at this
    simpa using this
  subst hc
  have hsplit := List.takeWhile_append_dropWhile (p := (· != '>')) (l := z ++ (body ++ ['>']))
  rw [hx] at hsplit
  have hwhole : ((p ++ z) ++ body) ++ ['>'] =
      (p ++ ((z ++ (body ++ ['>'])).takeWhile (· != '>') ++ ['>'])) ++ x := by
    have : p ++ (z ++ (body ++ ['>'])) = _ := congrArg (p ++ ·) hsplit.symm
    simpa using this
  refine ⟨'<' :: (p ++ ((z ++ (body ++ ['>'])).takeWhile (· != '>') ++ ['>'])), x, ?_,
    isTail_of_suffix (isHarmless_tag hv) hwhole, ?_⟩
  · have := hsrc []
    rw [List.append_nil] at this
    rw [this, List.cons_append, ← hwhole]
    simp
  · have hw : (z ++ (body ++ '>' :: r)).head?.any isWordChar = false := by
      simpa [atWordEnd] using he
    have hd : (z ++ (body ++ '>' :: r)).dropWhile (· != '>') = '>' :: (x ++ r) := by
      rw [hx] at h2
      simpa using h2
    rw [title?, hdrop]
    simp only [Option.bind_eq_bind, Option.bind_some, hw, hd, Bool.false_eq_true, if_false]
    cases untilTitleEnd? (x ++ r) <;> rfl

theorem exists_of_title? {t : Text} (h : title? t ≠ none) :
    ∃ u, dropFolded? "<title".toList t = some u ∧ atWordEnd u = true := by
  rw [title?] at h
  cases hd : dropFolded? "<title".toList t with
  | none =>
    rw [hd] at h
    exact absurd rfl h
  | some u =>
    refine ⟨u, rfl, ?_⟩
    by_contra he
    have hw : u.head?.any isWordChar = true := by simpa [atWordEnd] using he
    rw [hd] at h
    simp only [Option.bind_eq_bind, Option.bind_some, hw, if_true] at h
    exact absurd rfl h

theorem opensTitle_of_title? {n : Node} (hv : n.isValid = true) (hn : ∀ inner, n ≠ .comment inner)
    {r : Text} (h : title? (n.source ++ r) ≠ none) : opensTitle n = true := by
  obtain ⟨u, hd, he⟩ := exists_of_title? h
  have hw : "<title".toList = '<' :: "title".toList := rfl
  have halpha : ∀ {c : Char} {t : Text}, n.source ++ r = '<' :: c :: t → c.isAlpha = true := by
    intro c t ht
    rw [ht, hw, dropFolded?, if_pos (by decide)] at hd
    exact head_of_dropFolded? (d := 't') hd (by decide) (by decide)
  cases n with
  | char c =>
    simp only [Node.isValid, bne_iff_ne, ne_eq] at hv
    rw [Node.source, List.singleton_append, hw, dropFolded?_of_ne hv (by decide)] at hd
    cases hd
  | angle c =>
    simp only [Node.isValid, Bool.and_eq_true, Bool.not_eq_true'] at hv
    rw [isMarkupStart_of_isAlpha (halpha rfl)] at hv
    cases hv.2
  | declaration m inner =>
    have hm := (isValid_declaration.1 hv).1
    have := halpha rfl
    rcases hm with rfl | rfl <;> exact absurd this (by decide)
  | comment inner => exact absurd rfl (hn inner)
  | tag closing name body =>
    cases closing with
    | true => exact absurd (halpha rfl) (by decide)
    | false =>
      have ht := (isValid_tag.1 hv).1
      have hs : (Node.tag false name body).source ++ r = '<' :: (name ++ (body ++ '>' :: r)) := by
        simp [Node.source, tagText]
      rw [hs, hw, dropFolded?, if_pos (by decide)] at hd
      obtain ⟨p, hp, hi, hl⟩ := dropsName_title _ _ hd
      obtain ⟨z, rfl, rfl⟩ := exists_of_tag_eq ht hi hp
      obtain ⟨q, hq, hf⟩ := dropFolded?_eq_some_iff.1 (hl [])
      have hpq : p = q := by simpa using hq
      exact (opensTitle_iff ht r).2 ⟨p, z, rfl, by rw [hpq, hf], he⟩

theorem startsMarkup_title? : StartsMarkup title? where
  angle r h := by
    rw [title?, show "<title".toList = '<' :: "title".toList from rfl,
      dropFolded?_of_ne h (by decide)]
    rfl
  start {c} r h := by
    by_contra hne
    obtain ⟨u, hd, -⟩ := exists_of_title? hne
    rw [show "<title".toList = '<' :: "title".toList from rfl, dropFolded?,
      if_pos (by decide)] at hd
    rw [isMarkupStart_of_isAlpha (head_of_dropFolded? (d := 't') hd (by decide) (by decide))] at h
    cases h

theorem findHit_of_passes {f : Recogniser α} {s r : Text} (h : Passes f s r) :
    findHit f (s ++ r) = (findHit f r).map fun y => (s ++ y.1, y.2) := by
  induction s with
  | nil => simp
  | cons c s ih =>
    rw [List.cons_append, findHit, h.head, ih h.tail, Option.map_map]
    rfl

theorem findHit_whole {f : Recogniser α} {a : α} {t w r : Text} (hw : w ≠ []) (ht : t = w ++ r)
    (h : f t = some (a, t.length - r.length - 1)) : findHit f t = some ([], a, r) := by
  obtain ⟨c, w, rfl⟩ := List.exists_cons_of_ne_nil hw
  subst ht
  rw [List.cons_append] at h ⊢
  rw [findHit, h]
  have hl : (c :: (w ++ r)).length - r.length - 1 = w.length := by
    simp only [List.length_cons, List.length_append]
    omega
  simp only [hl, List.drop_left]

theorem passes_title? {n : Node} {r : Text} (hv : n.isValid = true)
    (hi : ∀ inner, n = .comment inner → isInert inner = true)
    (h : opensTitle n = true → title? (n.source ++ r) = none) : Passes title? n.source r := by
  by_cases hn : ∃ inner, n = .comment inner
  · obtain ⟨inner, rfl⟩ := hn
    refine passes_comment (w := "<title".toList) (by decide) (fun t ht => ?_) hv (hi inner rfl) r
    obtain ⟨u, hu, -⟩ := exists_of_title? ht
    rw [startsFolded, hu]
    rfl
  · have hn : ∀ inner, n ≠ .comment inner := fun inner he => hn ⟨inner, he⟩
    refine passes_source startsMarkup_title? hv hn ?_
    by_contra hne
    exact hne (h (opensTitle_of_title? hv hn hne))

theorem untilTitleEnd?_tail {x : Text} (hx : IsTail x) (r : Text) :
    untilTitleEnd? (x ++ r) = (untilTitleEnd? r).map fun y => (x ++ y.1, y.2) := by
  refine untilTitleEnd?_of_passes ?_
  cases hx with
  | nil => exact .nil _ _
  | harmless hh => exact passes_harmless startsMarkup_dropClosing? hh (by decide) (by decide) r

theorem enclosed_eq_none {p q : Node → Bool} {ns : List Node} (h : firstSplit q ns = none) :
    enclosed p q ns = none := by
  rw [enclosed]
  cases hp : firstSplit p ns with
  | none => rfl
  | some z =>
    obtain ⟨l, n, r⟩ := z
    have hr : firstSplit q r = none := firstSplit_eq_none.2 fun m hm =>
      firstSplit_eq_none.1 h m ((eq_of_firstSplit hp).1 ▸ by simp [hm])
    simp [hr]

theorem findHit_title {ns : List Node} (hc : IsClean ns) (hi : areInert ns = true) :
    (enclosed opensTitle closesTitle ns = none ∧ findHit title? (sources ns) = none) ∨
      ∃ l m r x, enclosed opensTitle closesTitle ns = some (l, m, r) ∧ IsTail x ∧
        findHit title? (sources ns) = some (sources l, x ++ sources m, sources r) := by
  induction ns with
  | nil => exact .inl ⟨rfl, rfl⟩
  | cons n ns ih =>
    have hcn := hc.head
    obtain ⟨hin, hi⟩ := areInert_cons hi
    have ih := ih hc.tail hi
    have hend := untilTitleEnd?_sources hc.tail hi
    -- the rest of the nodes, if no title starts here
    have hpass : ∀ h : Passes title? n.source (sources ns), ∀ he : enclosed opensTitle closesTitle
        (n :: ns) = (enclosed opensTitle closesTitle ns).map fun x => (n :: x.1, x.2),
        (enclosed opensTitle closesTitle (n :: ns) = none ∧
          findHit title? (sources (n :: ns)) = none) ∨
        ∃ l m r x, enclosed opensTitle closesTitle (n :: ns) = some (l, m, r) ∧ IsTail x ∧
          findHit title? (sources (n :: ns)) = some (sources l, x ++ sources m, sources r) := by
      intro h he
      rw [he, sources_cons, findHit_of_passes h]
      rcases ih with ⟨h1, h2⟩ | ⟨l, m, r, x, h1, hx, h2⟩
      · exact .inl ⟨by rw [h1]; rfl, by rw [h2]; rfl⟩
      · exact .inr ⟨n :: l, m, r, x, by rw [h1]; rfl, hx, by rw [h2, sources_cons]; rfl⟩
    by_cases ho : opensTitle n = true
    · obtain ⟨name, body, rfl⟩ : ∃ name body, n = .tag false name body := by
        unfold opensTitle at ho
        split at ho
        · exact ⟨_, _, rfl⟩
        · cases ho
      obtain ⟨q, x, hq, hx, ht⟩ := title?_source hcn ho (sources ns)
      rw [untilTitleEnd?_tail hx, hend] at ht
      cases hcl : firstSplit closesTitle ns with
      | none =>
        rw [hcl] at ht
        refine hpass (passes_title? hcn hin fun _ => ht) ?_
        rw [enclosed_eq_none hcl]
        simp [enclosed, firstSplit, ho, hcl]
      | some y =>
        obtain ⟨m, c, r⟩ := y
        rw [hcl] at ht
        refine .inr ⟨[], m, r, x, ?_, hx, ?_⟩
        · simp [enclosed, firstSplit, ho, hcl]
        · have hwhole : sources (.tag false name body :: ns) =
              ((Node.tag false name body).source ++ sources (m ++ [c])) ++ sources r := by
            rw [(eq_of_firstSplit hcl).1, sources_cons]
            simp [sources]
          exact findHit_whole (by simp [Node.source, tagText]) hwhole ht
    · refine hpass (passes_title? hcn hin fun h => absurd h ho) ?_
      cases hof : firstSplit opensTitle ns with
      | none => simp [enclosed, firstSplit, ho, hof]
      | some z => simp [enclosed, firstSplit, ho, hof, Function.comp_def]

end MailMarkup.Document
