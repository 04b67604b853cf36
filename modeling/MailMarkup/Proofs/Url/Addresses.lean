import MailMarkup.Proofs.Run.PlainValues

namespace MailMarkup.Url

open Text

def isDropped (c : Char) : Bool := ['\t', '\r', '\n'].contains c

theorem cleaned_eq_self {c : Char} {t : Text} (hc : 0x20 < c.toNat)
    (ht : ∀ d ∈ c :: t, isDropped d = false) : cleaned (c :: t) = c :: t := by
  have hdrop : (c :: t).dropWhile (·.toNat ≤ 0x20) = c :: t :=
    List.dropWhile_cons_of_neg (by simpa using hc)
  rw [cleaned, hdrop, List.filter_eq_self]
  intro d hd
  rw [← isDropped, ht d hd]
  rfl

theorem not_isDropped_of_mem_cleaned {t : Text} {c : Char} (h : c ∈ cleaned t) :
    isDropped c = false := by
  simpa [isDropped] using (List.mem_filter.1 h).2

theorem lt_of_head_cleaned {t r : Text} {c : Char} (h : cleaned t = c :: r) : 0x20 < c.toNat := by
  rw [cleaned] at h
  cases hd : t.dropWhile (·.toNat ≤ 0x20) with
  | nil => simp [hd] at h
  | cons d s =>
    have hlt : 0x20 < d.toNat := by
      have := List.head?_dropWhile_not (fun c : Char => decide (c.toNat ≤ 0x20)) t
      rw [hd] at this
      simpa using this
    have hblank : ∀ e ∈ ['\t', '\r', '\n'], ¬ 0x20 < e.toNat := by simp
    have hkeep : isDropped d = false := by
      rw [isDropped, ← Bool.not_eq_true, List.contains_iff_mem]
      exact fun hm => hblank d hm hlt
    rw [hd, List.filter_cons, if_pos (by rw [← isDropped, hkeep]; rfl)] at h
    exact (List.cons.inj h).1 ▸ hlt

theorem toLower_toLower (c : Char) : c.toLower.toLower = c.toLower := by
  refine Char.ext (UInt32.toNat_inj.1 ?_)
  change c.toLower.toLower.toNat = c.toLower.toNat
  rw [toNat_toLower c.toLower, toNat_toLower c]
  repeat' split
  all_goals omega

theorem isAlpha_toLower {c : Char} (h : c.isAlpha = true) : c.toLower.isAlpha = true := by
  rw [Markup.isAlpha_iff] at h ⊢
  rw [toNat_toLower]
  split <;> omega

theorem isSchemeChar_toLower {c : Char} (h : isSchemeChar c = true) :
    isSchemeChar c.toLower = true := by
  by_cases ha : c.isAlpha = true
  · rw [isSchemeChar, Char.isAlphanum, isAlpha_toLower ha]
    rfl
  · have hc : ¬ (65 ≤ c.toNat ∧ c.toNat ≤ 90) := fun hu => ha (Markup.isAlpha_iff.2 (.inl hu))
    have heq : c.toLower = c := by
      refine Char.ext (UInt32.toNat_inj.1 ?_)
      change c.toLower.toNat = c.toNat
      rw [toNat_toLower, if_neg hc]
    rw [heq, h]

structure IsScheme (s : Text) : Prop where
  letter : s.head?.any Char.isAlpha = true
  chars : s.all isSchemeChar = true
  lower : s.map Char.toLower = s

theorem IsScheme.ne_nil {s : Text} (h : IsScheme s) : s ≠ [] := by
  rintro rfl
  exact absurd h.letter (by decide)

theorem colon_not_mem {s : Text} (h : s.all isSchemeChar = true) : ':' ∉ s :=
  fun hm => absurd (List.all_eq_true.1 h _ hm) (by decide)

theorem splitScheme_of_not_mem {t : Text} (h : ':' ∉ t) : splitScheme t = ([], t) := by
  rw [splitScheme, breakAt_of_not_mem h]

theorem splitScheme_append {s : Text} (h : ':' ∉ s) (r : Text) : splitScheme (s ++ ':' :: r) =
    if s.head?.any Char.isAlpha && s.all isSchemeChar then (s.map Char.toLower, r)
    else ([], s ++ ':' :: r) := by
  rw [splitScheme, breakAt_append h]

theorem IsScheme.splitScheme_append {s : Text} (h : IsScheme s) (r : Text) :
    splitScheme (s ++ ':' :: r) = (s, r) := by
  rw [Url.splitScheme_append (colon_not_mem h.chars), if_pos (by rw [h.letter, h.chars]; rfl),
    h.lower]

theorem isScheme_map_toLower {s : Text} (ha : s.head?.any Char.isAlpha = true)
    (hs : s.all isSchemeChar = true) : IsScheme (s.map Char.toLower) := by
  refine ⟨?_, ?_, ?_⟩
  · cases s with
    | nil => cases ha
    | cons c s => exact isAlpha_toLower ha
  · rw [List.all_map, List.all_eq_true]
    exact fun c hc => isSchemeChar_toLower (List.all_eq_true.1 hs c hc)
  · rw [List.map_map]
    exact List.map_congr_left fun c _ => toLower_toLower c

theorem exists_splitScheme (t : Text) : splitScheme t = ([], t) ∨
    ∃ s r, t = s ++ ':' :: r ∧ splitScheme t = (s.map Char.toLower, r) ∧
      IsScheme (s.map Char.toLower) := by
  unfold splitScheme
  split
  · rename_i s r hb
    split
    · rename_i h
      rw [Bool.and_eq_true] at h
      exact .inr ⟨s, r, (breakAt_eq_some hb).1, rfl, isScheme_map_toLower h.1 h.2⟩
    · exact .inl rfl
  · exact .inl rfl

theorem splitScheme_fst_append {p r : Text} (h : ∀ c ∈ r.head?, c = '?' ∨ c = '#') :
    (splitScheme (p ++ r)).1 = (splitScheme p).1 := by
  by_cases hp : ':' ∈ p
  · obtain ⟨s, v, rfl, hs⟩ := List.eq_append_cons_of_mem hp
    rw [List.append_assoc, List.cons_append, splitScheme_append hs, splitScheme_append hs]
    split <;> rfl
  · rw [splitScheme_of_not_mem hp]
    by_cases hr : ':' ∈ r
    · obtain ⟨s, v, rfl, hs⟩ := List.eq_append_cons_of_mem hr
      cases s with
      | nil => simp at h
      | cons c s =>
        -- a colon behind the mark has the mark in front of it too
        have hall : (p ++ c :: s).all isSchemeChar = false := by
          obtain rfl | rfl := h c rfl
          · simp [show isSchemeChar '?' = false by decide]
          · simp [show isSchemeChar '#' = false by decide]
        have hmem : ':' ∉ p ++ c :: s := by simpa [hp] using hs
        rw [← List.append_assoc, splitScheme_append hmem, if_neg (by simp [hall])]
    · rw [splitScheme_of_not_mem (by simp [hp, hr])]

theorem splitNetloc_append {n r : Text} (hn : n.any isNetlocEnd = false) {c : Char}
    (hc : isNetlocEnd c = true) : splitNetloc ("//".toList ++ n ++ c :: r) = (n, c :: r) := by
  have hpass : ∀ d ∈ n, (!isNetlocEnd d) = true := fun d hd => by simp [forall_eq_false hn d hd]
  change ((n ++ c :: r).takeWhile (!isNetlocEnd ·), (n ++ c :: r).dropWhile (!isNetlocEnd ·)) = _
  rw [List.takeWhile_append_of_pos hpass, List.dropWhile_append_of_pos hpass,
    List.takeWhile_cons_of_neg (by simp [hc]), List.dropWhile_cons_of_neg (by simp [hc]),
    List.append_nil]

theorem splitNetloc_of_not_prefix {t : Text} (h : ¬ "//".toList <+: t) :
    splitNetloc t = ([], t) := by
  unfold splitNetloc
  split
  · exact absurd (List.prefix_append _ _) h
  · rfl

def hasLocation (u : Url) : Bool :=
  !u.netloc.isEmpty || netlocSchemes.contains u.scheme && !"//".toList.isPrefixOf u.path

def settled (u : Url) : Url := if u.hasLocation then { u with path := rooted u.path } else u

structure IsReadable (u : Url) : Prop where
  scheme : u.scheme = [] ∨ IsScheme u.scheme
  netloc : u.netloc.any isNetlocEnd = false
  brackets : checkBrackets u.netloc = .ok ()
  separators : checkSeparators u.netloc = .ok ()
  path : '?' ∉ u.path ∧ '#' ∉ u.path
  relative : u.scheme = [] → u.netloc = [] →
    (splitScheme u.path).1 = [] ∧ ∀ c ∈ u.path.head?, 0x20 < c.toNat
  single : u.netloc = [] → ¬ "//".toList <+: u.path
  query : u.query ≠ [] ∧ '#' ∉ u.query
  clean : ∀ c ∈ u.netloc ++ u.path ++ u.query ++ u.fragment, isDropped c = false

variable {u : Url}

theorem rooted_eq (path : Text) : rooted path = [] ∨ ∃ r, rooted path = '/' :: r := by
  rw [rooted]
  split
  · rename_i h
    cases path with
    | nil => exact .inl rfl
    | cons c r =>
      refine .inr ⟨r, ?_⟩
      simpa using h
  · exact .inr ⟨path, rfl⟩

theorem rooted_rooted (path : Text) : rooted (rooted path) = rooted path := by
  rcases rooted_eq path with h | ⟨r, h⟩ <;> rw [h] <;> rfl

theorem located_of_hasLocation (h : u.hasLocation = true) :
    u.located = "//".toList ++ u.netloc ++ u.settled.path := by
  rw [located, ← hasLocation, if_pos h, settled, if_pos h]

theorem located_of_not_hasLocation (h : u.hasLocation = false) : u.located = u.path := by
  rw [located, ← hasLocation, if_neg (by simp [h])]

theorem settled_of_hasLocation (h : u.hasLocation = true) :
    u.settled = { u with path := rooted u.path } :=
  if_pos h

theorem settled_of_not_hasLocation (h : u.hasLocation = false) : u.settled = u :=
  if_neg (by simp [h])

theorem netloc_of_not_hasLocation (h : u.hasLocation = false) : u.netloc = [] := by
  rw [hasLocation, Bool.or_eq_false_iff] at h
  simpa using h.1

@[simp] theorem settled_scheme (u : Url) : u.settled.scheme = u.scheme := by
  rw [settled]
  split <;> rfl

@[simp] theorem settled_netloc (u : Url) : u.settled.netloc = u.netloc := by
  rw [settled]
  split <;> rfl

@[simp] theorem settled_query (u : Url) : u.settled.query = u.query := by
  rw [settled]
  split <;> rfl

@[simp] theorem settled_fragment (u : Url) : u.settled.fragment = u.fragment := by
  rw [settled]
  split <;> rfl

theorem settled_path_ne_nil (h : u.path ≠ []) : u.settled.path ≠ [] := by
  rw [settled]
  split
  · rw [rooted]
    split
    · exact h
    · exact List.cons_ne_nil _ _
  · exact h

theorem mem_settled_path {c : Char} (h : c ∈ u.settled.path) : c = '/' ∨ c ∈ u.path := by
  rw [settled] at h
  split at h
  · exact mem_rooted h
  · exact .inr h

theorem hasLocation_settled (h : u.hasLocation = true) : u.settled.hasLocation = true := by
  rw [settled, if_pos h]
  simp only [hasLocation, Bool.or_eq_true, Bool.and_eq_true] at h ⊢
  refine h.imp_right fun ⟨hs, hp⟩ => ⟨hs, ?_⟩
  rw [Bool.not_eq_true', ← Bool.not_eq_true, List.isPrefixOf_iff_prefix] at hp ⊢
  rw [rooted]
  split
  · exact hp
  · rename_i hr
    rw [Bool.or_eq_true, not_or] at hr
    rintro ⟨r, he⟩
    rw [← (List.cons.inj he).2] at hr
    exact hr.2 rfl

theorem render_settled (u : Url) : u.settled.render = u.render := by
  cases hl : u.hasLocation with
  | true =>
    have hpath : u.settled.settled.path = u.settled.path := by
      rw [settled_of_hasLocation (hasLocation_settled hl), settled_of_hasLocation hl]
      exact rooted_rooted u.path
    have hlocated : u.settled.located = u.located := by
      rw [located_of_hasLocation (hasLocation_settled hl), located_of_hasLocation hl, hpath,
        settled_of_hasLocation hl]
    rw [render, hlocated, settled_of_hasLocation hl]
    rfl
  | false => rw [settled_of_not_hasLocation hl]

theorem not_prefix_append {t : Text} (h : ¬ "//".toList <+: t) (r : Text) :
    ¬ "//".toList <+: t ++ '?' :: r := by
  match t with
  | [] => simp
  | [c] => simp
  | c :: d :: t => simpa using h

theorem splitScheme_eq_self {t : Text} (h : (splitScheme t).1 = []) : splitScheme t = ([], t) := by
  rcases exists_splitScheme t with ht | ⟨s, r, -, ht, hs⟩
  · exact ht
  · rw [ht] at h
    exact absurd h hs.ne_nil

theorem splitScheme_of_isNetlocEnd {c : Char} (hc : isNetlocEnd c = true) (t : Text) :
    (splitScheme (c :: t)).1 = [] := by
  have hletter : ∀ d ∈ ['/', '?', '#'], d.toLower.isAlpha = false := by simp
  rcases exists_splitScheme (c :: t) with ht | ⟨s, r, he, ht, hs⟩
  · rw [ht]
  · cases s with
    | nil => exact absurd rfl hs.ne_nil
    | cons d s =>
      obtain ⟨rfl, -⟩ := List.cons.inj he
      have hd : c.toLower.isAlpha = true := hs.letter
      rw [hletter c (List.contains_iff_mem.1 hc)] at hd
      cases hd

theorem lt_of_isAlpha {c : Char} (h : c.isAlpha = true) : 0x20 < c.toNat := by
  have hc := Markup.isAlpha_iff.1 h
  omega

def tail (u : Url) : Text := u.query ++ withMark '#' u.fragment

namespace IsReadable

theorem render_eq (h : u.IsReadable) : u.render =
    (if u.scheme.isEmpty then [] else u.scheme ++ [':']) ++ (u.located ++ '?' :: u.tail) := by
  have hq : withMark '?' u.query = '?' :: u.query := if_neg (by simp [h.query.1])
  rw [render, hq, tail]
  simp only [List.append_assoc, List.cons_append]

theorem splitNetloc_located (h : u.IsReadable) :
    splitNetloc (u.located ++ '?' :: u.tail) = (u.netloc, u.settled.path ++ '?' :: u.tail) := by
  cases hl : u.hasLocation with
  | true =>
    rw [located_of_hasLocation hl, settled, if_pos hl, List.append_assoc]
    rcases rooted_eq u.path with hr | ⟨r, hr⟩
    · rw [hr]
      exact splitNetloc_append h.netloc (by decide)
    · rw [hr]
      exact splitNetloc_append h.netloc (by decide)
  | false =>
    have hn := netloc_of_not_hasLocation hl
    rw [located_of_not_hasLocation hl, settled_of_not_hasLocation hl, hn]
    exact splitNetloc_of_not_prefix (not_prefix_append (h.single hn) _)

theorem splitScheme_located (h : u.IsReadable) (hs : u.scheme = []) :
    splitScheme (u.located ++ '?' :: u.tail) = ([], u.located ++ '?' :: u.tail) := by
  refine splitScheme_eq_self ?_
  rw [splitScheme_fst_append (by simp)]
  cases hl : u.hasLocation with
  | true =>
    rw [located_of_hasLocation hl]
    exact splitScheme_of_isNetlocEnd (by decide) _
  | false =>
    rw [located_of_not_hasLocation hl]
    exact (h.relative hs (netloc_of_not_hasLocation hl)).1

theorem splitScheme_render (h : u.IsReadable) :
    splitScheme u.render = (u.scheme, u.located ++ '?' :: u.tail) := by
  rw [h.render_eq]
  rcases h.scheme with hs | hs
  · rw [if_pos (by simp [hs]), hs]
    exact h.splitScheme_located hs
  · rw [if_neg (by simpa using hs.ne_nil), List.append_assoc]
    exact hs.splitScheme_append _

theorem exists_head_located (h : u.IsReadable) (hs : u.scheme = []) :
    ∃ c t, u.located ++ '?' :: u.tail = c :: t ∧ 0x20 < c.toNat := by
  cases hl : u.hasLocation with
  | true =>
    rw [located_of_hasLocation hl]
    exact ⟨'/', _, rfl, by decide⟩
  | false =>
    rw [located_of_not_hasLocation hl]
    cases hp : u.path with
    | nil => exact ⟨'?', _, rfl, by decide⟩
    | cons c r =>
      exact ⟨c, _, rfl, (h.relative hs (netloc_of_not_hasLocation hl)).2 c (by simp [hp])⟩

theorem exists_head_render (h : u.IsReadable) : ∃ c t, u.render = c :: t ∧ 0x20 < c.toNat := by
  rw [h.render_eq]
  cases hs : u.scheme with
  | nil => exact h.exists_head_located hs
  | cons c s =>
    have ha := (h.scheme.resolve_left (by simp [hs])).letter
    rw [hs] at ha
    exact ⟨c, _, rfl, lt_of_isAlpha ha⟩

theorem not_isDropped_of_mem_render (h : u.IsReadable) {c : Char} (hc : c ∈ u.render) :
    isDropped c = false := by
  have hmarks : ∀ d ∈ [':', '/', '?', '#'], isDropped d = false := by simp [isDropped]
  rcases mem_render hc with hm | hm | hm
  · exact hmarks c hm
  · rcases h.scheme with hs | hs
    · simp [hs] at hm
    · have hscheme := List.all_eq_true.1 hs.chars c hm
      by_contra hd
      have hblank : ∀ d ∈ ['\t', '\r', '\n'], isSchemeChar d = false := by simp [isSchemeChar]
      rw [Bool.not_eq_false, isDropped, List.contains_iff_mem] at hd
      simp [hblank c hd] at hscheme
  · exact h.clean c (by simpa using hm)

theorem cleaned_render (h : u.IsReadable) : cleaned u.render = u.render := by
  obtain ⟨c, t, he, hc⟩ := h.exists_head_render
  rw [he]
  exact cleaned_eq_self hc fun d hd => h.not_isDropped_of_mem_render (he ▸ hd)

theorem breakAt_tail (h : u.IsReadable) : breakAt '#' (u.settled.path ++ '?' :: u.tail) =
    (u.settled.path ++ '?' :: u.query, if u.fragment.isEmpty then none else some u.fragment) := by
  have hpath : '#' ∉ u.settled.path := fun hm =>
    (mem_settled_path hm).elim (by decide) h.path.2
  have hmem : '#' ∉ u.settled.path ++ '?' :: u.query := by simp [hpath, h.query.2]
  rw [tail, withMark]
  split
  · rw [List.append_nil, breakAt_of_not_mem hmem]
  · rw [← List.cons_append, ← List.append_assoc, breakAt_append hmem]

theorem parse_render (h : u.IsReadable) : parse u.render = .ok u.settled := by
  have hpath : '?' ∉ u.settled.path := fun hm =>
    (mem_settled_path hm).elim (by decide) h.path.1
  have hfragment : (if u.fragment.isEmpty then none else some u.fragment).getD [] = u.fragment := by
    split
    · rename_i he
      exact (List.isEmpty_iff.1 he).symm
    · rfl
  rw [parse, h.cleaned_render, h.splitScheme_render]
  simp only [h.splitNetloc_located, h.breakAt_tail, h.brackets, h.separators,
    breakAt_append hpath, hfragment]
  rw [settled]
  split <;> rfl

end IsReadable

theorem exists_of_parse {t : Text} (h : parse t = .ok u) : ∃ rest path,
    splitScheme (cleaned t) = (u.scheme, rest) ∧ splitNetloc rest = (u.netloc, path) ∧
      checkBrackets u.netloc = .ok () ∧ checkSeparators u.netloc = .ok () ∧
      u.path = (breakAt '?' (breakAt '#' path).1).1 ∧
      u.fragment = (breakAt '#' path).2.getD [] := by
  obtain ⟨_, hb, h⟩ := bind_eq_ok.1 h
  obtain ⟨_, hs, h⟩ := bind_eq_ok.1 h
  obtain rfl := pure_eq_ok.1 h
  exact ⟨_, _, rfl, rfl, hb, hs, rfl, rfl⟩

variable {t : Text}

theorem scheme_of_parse (h : parse t = .ok u) : u.scheme = [] ∨ IsScheme u.scheme := by
  obtain ⟨rest, path, hs, -⟩ := exists_of_parse h
  rcases exists_splitScheme (cleaned t) with ht | ⟨s, r, -, ht, hscheme⟩
  · exact .inl (Prod.mk.inj (hs.symm.trans ht)).1
  · exact .inr ((Prod.mk.inj (hs.symm.trans ht)).1 ▸ hscheme)

theorem netloc_of_parse (h : parse t = .ok u) : u.netloc.any isNetlocEnd = false := by
  obtain ⟨rest, path, -, hn, -⟩ := exists_of_parse h
  rw [List.any_eq_false]
  intro c hc
  unfold splitNetloc at hn
  split at hn
  · rw [← (Prod.mk.inj hn).1] at hc
    simpa using List.mem_takeWhile_imp hc
  · rw [← (Prod.mk.inj hn).1] at hc
    cases hc

theorem path_of_parse (h : parse t = .ok u) : '?' ∉ u.path ∧ '#' ∉ u.path := by
  obtain ⟨rest, path, -, -, -, -, hp, -⟩ := exists_of_parse h
  rw [hp]
  exact ⟨not_mem_breakAt_self _ _, (not_mem_breakAt _ (not_mem_breakAt_self _ _)).1⟩

theorem clean_of_parse (h : parse t = .ok u) {c : Char}
    (hc : c ∈ u.netloc ∨ c ∈ u.path ∨ c ∈ u.fragment) : isDropped c = false := by
  obtain ⟨rest, path, hs, hn, -, -, hp, hf⟩ := exists_of_parse h
  by_contra hd
  have hclean : c ∉ cleaned t := fun hm => hd (not_isDropped_of_mem_cleaned hm)
  have hrest := not_mem_behindScheme hclean
  rw [hs] at hrest
  have hsplit := not_mem_splitNetloc hrest
  rw [hn] at hsplit
  have hmark := not_mem_breakAt '#' hsplit.2
  rcases hc with hc | hc | hc
  · exact hsplit.1 hc
  · exact (not_mem_breakAt '?' hmark.1).1 (hp ▸ hc)
  · exact hmark.2 (hf ▸ hc)

theorem relative_splitNetloc {rest path : Text} (h : splitNetloc rest = ([], path))
    (hs : (splitScheme rest).1 = []) (hc : ∀ c ∈ rest.head?, 0x20 < c.toNat) :
    (splitScheme path).1 = [] ∧ ∀ c ∈ path.head?, 0x20 < c.toNat := by
  unfold splitNetloc at h
  split at h
  · rename_i r
    obtain ⟨-, hp⟩ := Prod.mk.inj h
    -- the path begins with the character that ended the empty location
    cases path with
    | nil => exact ⟨rfl, by simp⟩
    | cons c p =>
      have hend : isNetlocEnd c = true := by
        have := List.head?_dropWhile_not (!isNetlocEnd ·) r
        rw [hp] at this
        simpa using this
      have hlt : ∀ d ∈ ['/', '?', '#'], 0x20 < d.toNat := by simp
      refine ⟨splitScheme_of_isNetlocEnd hend p, fun d hd => ?_⟩
      obtain rfl := Option.some.inj hd
      exact hlt c (List.contains_iff_mem.1 hend)
  · obtain rfl := (Prod.mk.inj h).2
    exact ⟨hs, hc⟩

theorem relative_of_parse (h : parse t = .ok u) (hs : u.scheme = []) (hn : u.netloc = []) :
    (splitScheme u.path).1 = [] ∧ ∀ c ∈ u.path.head?, 0x20 < c.toNat := by
  obtain ⟨rest, path, hscheme, hnetloc, -, -, hp, -⟩ := exists_of_parse h
  rw [hs] at hscheme
  rw [hn] at hnetloc
  have hrest : rest = cleaned t := by
    rw [splitScheme_eq_self (congrArg Prod.fst hscheme)] at hscheme
    exact (Prod.mk.inj hscheme).2.symm
  have hhead : ∀ c ∈ (cleaned t).head?, 0x20 < c.toNat := by
    intro c hc
    obtain ⟨r, hr⟩ := List.head?_eq_some_iff.1 hc
    exact lt_of_head_cleaned hr
  obtain ⟨h1, h2⟩ := relative_splitNetloc hnetloc (hrest ▸ congrArg Prod.fst hscheme)
    (hrest ▸ hhead)
  obtain ⟨r, hr, hfirst⟩ := exists_breakAt '#' path
  obtain ⟨q, hq, hsecond⟩ := exists_breakAt '?' (breakAt '#' path).1
  rw [← hp] at hq
  have happend : path = u.path ++ (q ++ r) := by
    rw [← List.append_assoc, ← hq]
    exact hr
  have hmark : ∀ c ∈ (q ++ r).head?, c = '?' ∨ c = '#' := by
    cases q with
    | nil => exact fun c hc => .inr (hfirst c hc)
    | cons d q => exact fun c hc => .inl (hsecond c hc)
  rw [happend, splitScheme_fst_append hmark] at h1
  refine ⟨h1, fun c hc => h2 c ?_⟩
  rw [happend, List.head?_append, hc]
  rfl

theorem IsReadable.of_parse (h : parse t = .ok u)
    (hsingle : u.netloc = [] → ¬ "//".toList <+: u.path) {path query : Text}
    (hp : path = u.path ∨ u.netloc ≠ [] ∧ path = ['/']) (hne : query ≠ [])
    (hq : ∀ c ∈ query, c ≠ '#' ∧ isDropped c = false) :
    IsReadable { u with path, query } := by
  obtain ⟨-, -, -, -, hbrackets, hseparators, -, -⟩ := exists_of_parse h
  have hscheme := scheme_of_parse h
  have hnetloc := netloc_of_parse h
  refine ⟨hscheme, hnetloc, hbrackets, hseparators, ?_, ?_, ?_,
    ⟨hne, fun hm => (hq _ hm).1 rfl⟩, ?_⟩
  · have hpath := path_of_parse h
    rcases hp with rfl | ⟨-, rfl⟩
    · exact hpath
    · exact ⟨by simp, by simp⟩
  · intro hs hn
    have hrelative := relative_of_parse h hs hn
    obtain rfl := hp.resolve_right fun hp => hp.1 hn
    exact hrelative
  · intro hn
    obtain rfl := hp.resolve_right fun hp => hp.1 hn
    exact hsingle hn
  · intro c hc
    have hpath : c ∈ path → isDropped c = false := by
      rcases hp with rfl | ⟨-, rfl⟩
      · exact fun hc => clean_of_parse h (.inr (.inl hc))
      · exact fun hc => List.mem_singleton.1 hc ▸ rfl
    simp only [List.mem_append] at hc
    rcases hc with ((hc | hc) | hc) | hc
    · exact clean_of_parse h (.inl hc)
    · exact hpath hc
    · exact (hq c hc).2
    · exact clean_of_parse h (.inr (.inr hc))

end MailMarkup.Url
