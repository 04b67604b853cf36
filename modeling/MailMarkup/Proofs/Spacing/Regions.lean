import MailMarkup.Proofs.Spacing.RegionEnds

namespace MailMarkup.Spacing

open Text Markup

theorem isAlpha_of_toLower {c d : Char} (h : c.toLower = d) (hd : 97 ≤ d.toNat ∧ d.toNat ≤ 122) :
    c.isAlpha = true := by
  have ht := toNat_toLower c
  rw [h] at ht
  have hc : c.toNat = c.val.toNat := rfl
  have hr : (65 ≤ c.toNat ∧ c.toNat ≤ 90) ∨ (97 ≤ c.toNat ∧ c.toNat ≤ 122) := by
    split at ht <;> omega
  exact isAlpha_iff.2 hr

theorem isAlpha_of_foldLetter {c d : Char} (h : foldLetter c = d)
    (hd : 97 ≤ d.toNat ∧ d.toNat ≤ 122) (hne : d ≠ 's' ∧ d ≠ 'k' ∧ d ≠ 'i') :
    c.isAlpha = true := by
  unfold foldLetter at h
  split at h
  · exact absurd h.symm hne.1
  · split at h
    · exact absurd h.symm hne.2.1
    · split at h
      · exact absurd h.symm hne.2.2
      · exact isAlpha_of_toLower h hd

theorem isMarkupStart_of_isAlpha {c : Char} (h : c.isAlpha = true) : isMarkupStart c = true := by
  simp [isMarkupStart, h]

theorem head_of_officeName? {c : Char} {r w : Text} (h : officeName? (c :: r) = some w) :
    c.isAlpha = true := by
  unfold officeName? at h
  split at h
  · rename_i l r' he
    obtain ⟨rfl, -⟩ := List.cons.inj he
    simp only at h
    split at h
    · rename_i hc
      simp only [Bool.and_eq_true, List.contains_cons, List.contains_nil, Bool.or_eq_true,
        beq_iff_eq, Bool.or_false] at hc
      rcases hc.1.1 with hl | hl | hl
      · exact isAlpha_of_toLower hl (by decide)
      · exact isAlpha_of_toLower hl (by decide)
      · exact isAlpha_of_toLower hl (by decide)
    · simp at h
  · simp at h

theorem head_of_dropFolded? {c d : Char} {w r s : Text} (h : dropFolded? (d :: w) (c :: r) = some s)
    (hd : 97 ≤ d.toNat ∧ d.toNat ≤ 122) (hne : d ≠ 's' ∧ d ≠ 'k' ∧ d ≠ 'i') :
    c.isAlpha = true := by
  simp only [dropFolded?] at h
  split at h
  · rename_i hc
    exact isAlpha_of_foldLetter hc hd hne
  · simp at h

theorem eq_some_of_orElse {α : Type} {a b : Option α} {s : α} (h : (a <|> b) = some s) :
    a = some s ∨ a = none ∧ b = some s := by
  cases a with
  | none => exact .inr ⟨rfl, h⟩
  | some x => exact .inl h

theorem head_of_behindProtected? {c : Char} {r s : Text}
    (h : behindProtected? (c :: r) = some s) : c.isAlpha = true := by
  rcases eq_some_of_orElse h with h | ⟨-, h⟩
  · obtain ⟨w, hw, -⟩ := Option.bind_eq_some_iff.1 h
    exact head_of_officeName? hw
  · rcases eq_some_of_orElse h with h | ⟨-, h⟩
    · obtain ⟨w, hw, -⟩ := Option.bind_eq_some_iff.1 h
      exact head_of_dropFolded? (d := 'x') (Option.filter_eq_some_iff.1 hw).1 (by decide)
        (by decide)
    · obtain ⟨w, hw, -⟩ := Option.bind_eq_some_iff.1 h
      exact head_of_dropFolded? (d := 'p') (Option.filter_eq_some_iff.1 hw).1 (by decide)
        (by decide)

theorem comment?_of_ne {c : Char} (h : c ≠ '!') (r : Text) : comment? ('<' :: c :: r) = none := by
  unfold comment?
  split
  · rename_i he
    exact absurd (List.cons.inj (List.cons.inj he).2).1 h
  · rfl

theorem region?_of_comment?_none {r : Text} (h : comment? ('<' :: r) = none) :
    region? ('<' :: r) = (behindProtected? r).map fun s => ((), r.length - s.length) := by
  unfold region?
  rw [h]
  rfl

theorem startsMarkup_region? : StartsMarkup region? where
  angle := by
    intro c r h
    have hc : comment? (c :: r) = none := by
      unfold comment?
      split
      · rename_i he
        exact absurd (List.cons.inj he).1 h
      · rfl
    unfold region?
    rw [hc]
    split
    · rename_i he
      exact absurd he (by simp)
    · rename_i he
      exact absurd (List.cons.inj he).1 h
    · rfl
  start := by
    intro c r h
    have hc : c ≠ '!' := by
      rintro rfl
      revert h
      decide
    rw [region?_of_comment?_none (comment?_of_ne hc r)]
    cases hs : behindProtected? (c :: r) with
    | none => rfl
    | some s =>
      rw [isMarkupStart_of_isAlpha (head_of_behindProtected? hs)] at h
      cases h

inductive IsTail : Text → Prop
  | nil : IsTail []
  | harmless {t : Text} (h : isHarmless t = true) : IsTail (t ++ ['>'])

theorem scan_tail {x : Text} (h : IsTail x) (r : Text) :
    scan region? (x ++ r) = x.map .char ++ scan region? r := by
  cases h with
  | nil => rfl
  | harmless h =>
    have := scan_harmless startsMarkup_region? h (d := '>') (by decide) (by decide) r
    simpa using this

theorem append_of_mem {p : Char → Bool} {c : Char} {t : Text} (h : c ∈ t) (hp : p c = false)
    (r : Text) : (t ++ r).takeWhile p = t.takeWhile p ∧ (t ++ r).dropWhile p = t.dropWhile p ++ r ∧
      t.dropWhile p ≠ [] := by
  induction t with
  | nil => simp at h
  | cons d t ih =>
    by_cases hd : p d = true
    · have hm : c ∈ t := by
        rcases List.mem_cons.1 h with rfl | h
        · rw [hp] at hd
          cases hd
        · exact h
      obtain ⟨h1, h2, h3⟩ := ih hm
      simp [hd, h1, h2, h3]
    · simp [hd]

theorem atWordEnd_append {t : Text} (h : t ≠ []) (r : Text) : atWordEnd (t ++ r) = atWordEnd t := by
  cases t with
  | nil => exact absurd rfl h
  | cons c t => rfl

theorem officeName?_append {t : Text} (h : '>' ∈ t) (r : Text) :
    officeName? (t ++ r) = officeName? t := by
  match t with
  | [] => simp at h
  | [c] =>
    obtain rfl := List.mem_singleton.1 h
    cases r with
    | nil => rfl
    | cons e r =>
      unfold officeName?
      split
      · rename_i he
        obtain ⟨rfl, he⟩ := List.cons.inj he
        simp
      · rfl
  | l :: c :: t =>
    by_cases hc : c = ':'
    · subst hc
      by_cases hl : l = '>'
      · subst hl
        rfl
      · have hm : '>' ∈ t := by
          rcases List.mem_cons.1 h with he | h
          · exact absurd he.symm hl
          · simpa using h
        obtain ⟨h1, h2, h3⟩ := append_of_mem hm (p := isFoldedLetter) (by decide) r
        simp only [List.cons_append, officeName?, h1, drop_takeWhile_length]
        have h4 : (t ++ r).drop (t.takeWhile isFoldedLetter).length =
            t.dropWhile isFoldedLetter ++ r := by
          rw [← h1, drop_takeWhile_length, h2]
        rw [h4, atWordEnd_append h3]
    · unfold officeName?
      split
      · rename_i he
        exact absurd (List.cons.inj (List.cons.inj he).2).1 hc
      · split
        · rename_i he
          exact absurd (List.cons.inj (List.cons.inj he).2).1 hc
        · rfl

theorem exists_of_officeName? {t w : Text} (h : officeName? t = some w) :
    ∃ u, t = w ++ u ∧ ∀ c ∈ w, endsWith (plainLower c) = false := by
  unfold officeName? at h
  split at h
  · rename_i l r
    simp only at h
    split at h
    · rename_i hc
      obtain rfl := Option.some.inj h
      refine ⟨r.dropWhile isFoldedLetter, by simp, fun c hm => ?_⟩
      rcases List.mem_cons.1 hm with rfl | hm
      · simp only [Bool.and_eq_true, List.contains_cons, List.contains_nil, Bool.or_eq_true,
          beq_iff_eq, Bool.or_false] at hc
        unfold plainLower
        split
        · decide
        · split
          · decide
          · rcases hc.1.1 with hl | hl | hl <;> rw [hl] <;> decide
      · rcases List.mem_cons.1 hm with rfl | hm
        · decide
        · exact not_endsWith_plainLower (List.mem_takeWhile_imp hm)
    · simp at h
  · simp at h

theorem not_endsWith_of_plainLower {c : Char} (h : endsWith (plainLower c) = false) :
    endsWith c = false := by
  by_contra he
  have he : endsWith c = true := by simpa using he
  rw [(fold_of_endsWith he).2, he] at h
  cases h

theorem exists_of_tag_eq {name body p u r : Text} (ht : IsTag name body)
    (hp : ∀ c ∈ p, endsWith c = false) (h : name ++ (body ++ '>' :: r) = p ++ u) :
    ∃ z, name = p ++ z ∧ u = z ++ (body ++ '>' :: r) := by
  rcases List.append_eq_append_iff.1 h with ⟨x, rfl, hx⟩ | ⟨x, rfl, rfl⟩
  · cases x with
    | nil => exact ⟨[], by simp, by simpa using hx.symm⟩
    | cons e x =>
      have he : endsWith e = false := hp e (by simp)
      have hb := head?_ends ht r
      rw [hx] at hb
      simp [he] at hb
  · exact ⟨x, rfl, rfl⟩

def closers : Node → List (Text → Option Text)
  | .tag false name body =>
    let t := name ++ (body ++ ['>'])
    let office := (officeName? t).filter fun w => (behindEmptyTag? (t.drop w.length)).isNone
    (office.map dropName?).toList ++
      (["xml".toList, "pre".toList].filter fun w =>
        ((dropFolded? w t).filter atWordEnd).isSome).map dropFolded?
  | _ => []

def AreFree (names : List Text) : Prop :=
  ∀ n ∈ names, n[1]? ≠ some ':' ∧ n.head? ≠ some 'x' ∧ n.head? ≠ some 'p'

instance (names : List Text) : Decidable (AreFree names) :=
  inferInstanceAs (Decidable (∀ n ∈ names, n[1]? ≠ some ':' ∧ n.head? ≠ some 'x' ∧
    n.head? ≠ some 'p'))

def isGuarded : List Node → Bool
  | [] => true
  | n :: ns => (closers n).all (isShut · ns) && isGuarded ns

theorem behindEmptyTag?_append {t : Text} (h : '>' ∈ t) (r : Text) :
    behindEmptyTag? (t ++ r) = (behindEmptyTag? t).map (· ++ r) := by
  obtain ⟨h1, h2, h3⟩ := append_of_mem h (p := (· != '>')) (by decide) r
  have h4 : (t ++ r).drop (t.takeWhile (· != '>')).length = t.dropWhile (· != '>') ++ r := by
    rw [← h1, drop_takeWhile_length, h2]
  obtain ⟨c, x, hx⟩ := List.exists_cons_of_ne_nil h3
  simp only [behindEmptyTag?, h1, h4, drop_takeWhile_length, hx, List.cons_append]
  split
  · rename_i he
    obtain ⟨rfl, rfl⟩ := List.cons.inj he
    split <;> simp [*]
  · rename_i hn
    have hc : c ≠ '>' := fun hc => hn (x ++ r) (by rw [hc])
    split
    · rename_i he
      exact absurd (List.cons.inj he).1 hc
    · rfl

theorem exists_of_behindEmptyTag? {t s : Text} (h : behindEmptyTag? t = some s) :
    ∃ q, t = q ++ '>' :: s := by
  simp only [behindEmptyTag?, drop_takeWhile_length] at h
  split at h
  · rename_i r he
    split at h
    · obtain rfl := Option.some.inj h
      refine ⟨t.takeWhile (· != '>'), ?_⟩
      rw [← he, List.takeWhile_append_dropWhile]
    · simp at h
  · simp at h

theorem isTail_of_suffix {t q x : Text} (h : isHarmless t = true) (he : t ++ ['>'] = q ++ x) :
    IsTail x := by
  rcases List.append_eq_append_iff.1 he with ⟨y, rfl, hy⟩ | ⟨y, rfl, rfl⟩
  · cases y with
    | nil =>
      obtain rfl : x = ['>'] := by simpa using hy.symm
      exact .harmless (t := []) rfl
    | cons e y =>
      have : x = [] := by
        have := congrArg List.length hy
        simp only [List.length_cons, List.length_append, List.length_nil] at this
        exact List.length_eq_zero_iff.1 (by omega)
      subst this
      exact .nil
  · exact .harmless (isHarmless_of_isSuffix ⟨q, rfl⟩ h)

theorem dropsName_of_mem_closers {n : Node} {d : Text → Option Text} (h : d ∈ closers n) :
    DropsName d := by
  unfold closers at h
  split at h
  · simp only [List.mem_append, Option.mem_toList, List.mem_map] at h
    rcases h with h | ⟨w, hw, rfl⟩
    · obtain ⟨w, hw, rfl⟩ := Option.map_eq_some_iff.1 h
      obtain ⟨-, -, hp⟩ := exists_of_officeName? (Option.filter_eq_some_iff.1 hw).1
      exact dropsName_name hp
    · have := (List.mem_filter.1 hw).1
      simp only [List.mem_cons, List.not_mem_nil, or_false] at this
      rcases this with rfl | rfl
      · exact dropsName_folded (forall_eq_false (by decide))
      · exact dropsName_folded (forall_eq_false (by decide))
  · simp at h

section

variable {name body s : Text} {ns : List Node}

def EndsRegion (name body : Text) (ns : List Node) (s : Text) : Prop :=
  (∃ q x, name ++ (body ++ ['>']) = q ++ x ∧ IsTail x ∧ s = x ++ sources ns) ∨
    ∃ ms ls, ns = ms ++ ls ∧ s = sources ls

theorem endsRegion_of_behindClosing? (hv : (Node.tag false name body).isValid = true)
    (hc : IsClean ns) {d : Text → Option Text} (hd : d ∈ closers (.tag false name body))
    (hs : isShut d ns = true) {p z : Text} (hz : name = p ++ z)
    (h : behindClosing? d (z ++ (body ++ '>' :: sources ns)) = some s) :
    EndsRegion name body ns s := by
  have hh : isHarmless (z ++ body) = true :=
    isHarmless_of_isSuffix ⟨p, by rw [hz, List.append_assoc]⟩ (isHarmless_tag hv)
  rw [← List.append_assoc, behindClosing?_harmless hh] at h
  exact .inr (exists_of_behindClosing? (dropsName_of_mem_closers hd) hc hs h)

theorem endsRegion_of_behindOffice? (hv : (Node.tag false name body).isValid = true)
    (hc : IsClean ns) (hg : ∀ d ∈ closers (.tag false name body), isShut d ns = true)
    (h : behindOffice? (name ++ (body ++ '>' :: sources ns)) = some s) :
    EndsRegion name body ns s := by
  obtain ⟨w, hw, h⟩ := Option.bind_eq_some_iff.1 h
  obtain ⟨u, hu, hp⟩ := exists_of_officeName? hw
  obtain ⟨z, rfl, rfl⟩ := exists_of_tag_eq (isValid_tag.1 hv).1
    (fun c hm => not_endsWith_of_plainLower (hp c hm)) hu
  have hw' : officeName? ((w ++ z) ++ (body ++ ['>'])) = some w := by
    rw [← officeName?_append (by simp) (sources ns)]
    simpa using hw
  have hdrop : ((w ++ z) ++ (body ++ '>' :: sources ns)).drop w.length =
      z ++ (body ++ '>' :: sources ns) := by
    rw [List.append_assoc, List.drop_left]
  have he : behindEmptyTag? (z ++ (body ++ '>' :: sources ns)) =
      (behindEmptyTag? (z ++ (body ++ ['>']))).map (· ++ sources ns) := by
    rw [← behindEmptyTag?_append (by simp)]
    simp
  simp only [hdrop] at h
  rcases eq_some_of_orElse h with h | ⟨hn, h⟩
  · rw [he] at h
    obtain ⟨x, hx, rfl⟩ := Option.map_eq_some_iff.1 h
    obtain ⟨q, hq⟩ := exists_of_behindEmptyTag? hx
    have hq' : ((w ++ z) ++ body) ++ ['>'] = (w ++ (q ++ ['>'])) ++ x := by
      have : w ++ (z ++ (body ++ ['>'])) = w ++ (q ++ '>' :: x) := by rw [hq]
      simpa using this
    exact .inl ⟨w ++ (q ++ ['>']), x, by simpa using hq', isTail_of_suffix (isHarmless_tag hv) hq',
      rfl⟩
  · rw [he, Option.map_eq_none_iff] at hn
    have hd : dropName? w ∈ closers (.tag false (w ++ z) body) := by
      have hdrop' : ((w ++ z) ++ (body ++ ['>'])).drop w.length = z ++ (body ++ ['>']) := by
        rw [List.append_assoc, List.drop_left]
      simp only [closers, hw', Option.filter_some, hdrop', hn]
      simp
    exact endsRegion_of_behindClosing? hv hc hd (hg _ hd) rfl h

theorem endsRegion_of_behindElement? (hv : (Node.tag false name body).isValid = true)
    (hc : IsClean ns) (hg : ∀ d ∈ closers (.tag false name body), isShut d ns = true) {w : Text}
    (hw : w ∈ ["xml".toList, "pre".toList])
    (h : behindElement? w (name ++ (body ++ '>' :: sources ns)) = some s) :
    EndsRegion name body ns s := by
  obtain ⟨u, hu, h⟩ := Option.bind_eq_some_iff.1 h
  obtain ⟨hu, he⟩ := Option.filter_eq_some_iff.1 hu
  have hdw : DropsName (dropFolded? w) := by
    simp only [List.mem_cons, List.not_mem_nil, or_false] at hw
    rcases hw with rfl | rfl
    · exact dropsName_folded (forall_eq_false (by decide))
    · exact dropsName_folded (forall_eq_false (by decide))
  obtain ⟨p, hp, hi, hl⟩ := hdw _ _ hu
  obtain ⟨z, rfl, rfl⟩ := exists_of_tag_eq (isValid_tag.1 hv).1 hi hp
  have hd : dropFolded? w ∈ closers (.tag false (p ++ z) body) := by
    have hat : atWordEnd (z ++ (body ++ ['>'])) = true := by
      rw [← atWordEnd_append (by simp) (sources ns)]
      simpa using he
    have hf : ((dropFolded? w ((p ++ z) ++ (body ++ ['>']))).filter atWordEnd).isSome = true := by
      rw [List.append_assoc, hl, Option.filter_some, hat]
      rfl
    simp only [closers, List.mem_append, List.mem_map]
    exact .inr ⟨w, List.mem_filter.2 ⟨hw, hf⟩, rfl⟩
  exact endsRegion_of_behindClosing? hv hc hd (hg _ hd) rfl h

theorem endsRegion (hv : (Node.tag false name body).isValid = true)
    (hc : IsClean ns) (hg : ∀ d ∈ closers (.tag false name body), isShut d ns = true)
    (h : behindProtected? (name ++ (body ++ '>' :: sources ns)) = some s) :
    EndsRegion name body ns s := by
  rcases eq_some_of_orElse h with h | ⟨-, h⟩
  · exact endsRegion_of_behindOffice? hv hc hg h
  · rcases eq_some_of_orElse h with h | ⟨-, h⟩
    · exact endsRegion_of_behindElement? hv hc hg (by simp) h
    · exact endsRegion_of_behindElement? hv hc hg (by simp) h

end

theorem eq_colon_of_plainLower {c : Char} (h : plainLower c = ':') : c = ':' := by
  unfold plainLower at h
  split at h
  · exact absurd h (by decide)
  · split at h
    · exact absurd h (by decide)
    · exact eq_of_toLower_eq h (by decide)

theorem toLower_of_foldLetter {c d : Char} (h : foldLetter c = d)
    (hne : d ≠ 's' ∧ d ≠ 'k' ∧ d ≠ 'i') : c.toLower = d := by
  unfold foldLetter at h
  split at h
  · exact absurd h.symm hne.1
  · split at h
    · exact absurd h.symm hne.2.1
    · split at h
      · exact absurd h.symm hne.2.2
      · exact h

def IsKeptName (name : Text) : Prop :=
  name[1]? = some ':' ∨ name.head?.map Char.toLower = some 'x' ∨
    name.head?.map Char.toLower = some 'p'

theorem AreFree.not_isKeptName {names : List Text} (h : AreFree names) {name : Text}
    (hn : name.map Char.toLower ∈ names) : ¬ IsKeptName name := by
  obtain ⟨h1, h2, h3⟩ := h _ hn
  rintro (hk | hk | hk)
  · exact h1 (by simp [hk])
  · exact h2 (by simpa using hk)
  · exact h3 (by simpa using hk)

section

variable {name x : Text}

theorem isKeptName_of_colon (hn : name ≠ []) (hx : x.head?.any endsWith = true) {c : Char}
    {r : Text} (h : name ++ x = c :: ':' :: r) : IsKeptName name := by
  match name with
  | [] => exact absurd rfl hn
  | [e] =>
    obtain ⟨-, rfl⟩ := List.cons.inj h
    exact absurd (show endsWith ':' = true by simpa using hx) (by decide)
  | e :: f :: name =>
    obtain ⟨rfl, he⟩ := List.cons.inj (List.cons.inj h).2
    exact .inl rfl

theorem isKeptName_of_officeName? (hn : name ≠ []) (hx : x.head?.any endsWith = true) {w : Text}
    (h : officeName? (name ++ x) = some w) : IsKeptName name := by
  unfold officeName? at h
  split at h
  · rename_i he
    exact isKeptName_of_colon hn hx he
  · simp at h

theorem isKeptName_of_dropName? (hn : name ≠ []) (hx : x.head?.any endsWith = true) {l : Char}
    {w u : Text} (h : dropName? (l :: ':' :: w) (name ++ x) = some u) : IsKeptName name := by
  obtain ⟨c, r, hr⟩ := List.exists_cons_of_ne_nil (l := name ++ x) (by simp [hn])
  rw [hr, dropName?] at h
  split at h
  · cases r with
    | nil => simp [dropName?] at h
    | cons e r =>
      rw [dropName?] at h
      split at h
      · rename_i he
        rw [eq_colon_of_plainLower he] at hr
        exact isKeptName_of_colon hn hx hr
      · simp at h
  · simp at h

theorem isKeptName_of_dropFolded? (hn : name ≠ []) {w u : Text}
    (hw : w ∈ ["xml".toList, "pre".toList]) (h : dropFolded? w (name ++ x) = some u) :
    IsKeptName name := by
  cases name with
  | nil => exact absurd rfl hn
  | cons c name =>
    simp only [List.mem_cons, List.not_mem_nil, or_false] at hw
    rcases hw with rfl | rfl
    · simp only [String.reduceToList, List.cons_append, dropFolded?] at h
      split at h
      · rename_i hc
        exact .inr (.inl (by simp [toLower_of_foldLetter hc (by decide)]))
      · simp at h
    · simp only [String.reduceToList, List.cons_append, dropFolded?] at h
      split at h
      · rename_i hc
        exact .inr (.inr (by simp [toLower_of_foldLetter hc (by decide)]))
      · simp at h

theorem isKeptName_of_mem_closers (hn : name ≠ []) (hx : x.head?.any endsWith = true) {n : Node}
    {d : Text → Option Text} (hd : d ∈ closers n) {u : Text} (h : d (name ++ x) = some u) :
    IsKeptName name := by
  unfold closers at hd
  split at hd
  · simp only [List.mem_append, Option.mem_toList, List.mem_map] at hd
    rcases hd with hd | ⟨w, hw, rfl⟩
    · obtain ⟨w, hw, rfl⟩ := Option.map_eq_some_iff.1 hd
      have hw := (Option.filter_eq_some_iff.1 hw).1
      unfold officeName? at hw
      split at hw
      · simp only at hw
        split at hw
        · obtain rfl := Option.some.inj hw
          exact isKeptName_of_dropName? hn hx h
        · simp at hw
      · simp at hw
    · exact isKeptName_of_dropFolded? hn (List.mem_filter.1 hw).1 h
  · simp at hd

end

theorem name_ne_nil {name body : Text} (h : IsTag name body) : name ≠ [] := by
  rintro rfl
  exact absurd h.name_ok (by decide)

variable {names : List Text}

theorem closers_of_not_isFirm (hf : AreFree names) {n : Node} (hv : n.isValid = true)
    (hn : n.isFirm names = false) : closers n = [] := by
  cases n with
  | tag closing name body =>
    cases closing with
    | true => rfl
    | false =>
      have hk := hf.not_isKeptName (by simpa [Node.isFirm] using hn)
      have ht := (isValid_tag.1 hv).1
      have hx := head?_ends ht []
      refine List.eq_nil_iff_forall_not_mem.2 fun d hd => hk ?_
      simp only [closers, List.mem_append, Option.mem_toList, List.mem_map] at hd
      rcases hd with hd | ⟨w, hw, rfl⟩
      · obtain ⟨w, hw, rfl⟩ := Option.map_eq_some_iff.1 hd
        exact isKeptName_of_officeName? (name_ne_nil ht) hx (Option.filter_eq_some_iff.1 hw).1
      · obtain ⟨hw, hs⟩ := List.mem_filter.1 hw
        obtain ⟨u, hu⟩ := Option.isSome_iff_exists.1 hs
        exact isKeptName_of_dropFolded? (name_ne_nil ht) hw (Option.filter_eq_some_iff.1 hu).1
  | _ => rfl

theorem closes_of_not_isFirm (hf : AreFree names) {n m : Node} (hv : n.isValid = true)
    (hn : n.isFirm names = false) {d : Text → Option Text} (hd : d ∈ closers m) :
    closes d n = false := by
  have hne : ∀ c r, n.source = '<' :: c :: r → c ≠ '/' → closes d n = false := by
    intro c r hs hc
    rw [closes, hs, dropClosing?_angle hc]
    rfl
  cases n with
  | char c =>
    simp only [Node.isValid, bne_iff_ne, ne_eq] at hv
    rw [closes, Node.source, dropClosing?_of_ne hv]
    rfl
  | angle c =>
    refine hne c [] rfl ?_
    rintro rfl
    simp [Node.isValid, isMarkupStart] at hv
  | declaration m inner => simp [Node.isFirm] at hn
  | comment inner => simp [Node.isFirm] at hn
  | tag closing name body =>
    have ht := (isValid_tag.1 hv).1
    cases closing with
    | false =>
      obtain ⟨c, t, ht, -, -, hc, -⟩ := exists_tag_cons hv
      refine hne c (t ++ ['>']) ?_ (hc rfl)
      rw [Node.source, tagText, ht]
      rfl
    | true =>
      have hk := hf.not_isKeptName (by simpa [Node.isFirm] using hn)
      by_contra hc
      obtain ⟨s, hs⟩ := Option.isSome_iff_exists.1 ((Bool.not_eq_false _).mp hc)
      simp only [Node.source, tagText, if_true, List.cons_append, List.append_assoc] at hs
      obtain ⟨r, hr, -⟩ := Option.bind_eq_some_iff.1 hs
      exact hk (isKeptName_of_mem_closers (name_ne_nil ht) (head?_ends ht []) hd hr)

theorem behindClosing?_of_not_closes {n : Node} (hv : n.isValid = true)
    (hn : n.isFirm names = false) {d : Text → Option Text} (hd : DropsName d)
    (h : closes d n = false) : behindClosing? d n.source = none := by
  have hc : ∀ inner, n ≠ .comment inner := by
    rintro inner rfl
    simp [Node.isFirm] at hn
  have := behindClosing?_of_passes (passes_dropClosing? hd hv hc h [])
  rwa [List.append_nil] at this

theorem isShut_skeleton (hf : AreFree names) {m : Node} {d : Text → Option Text}
    (hd : d ∈ closers m) {ns : List Node} (hc : IsClean ns) :
    isShut d (skeleton names ns) = isShut d ns := by
  induction ns with
  | nil => rfl
  | cons n ns ih =>
    by_cases hn : n.isFirm names = true
    · rw [skeleton, List.filter_cons_of_pos hn, isShut, isShut]
      rw [show isShut d (List.filter _ ns) = _ from ih hc.tail]
    · have hn : n.isFirm names = false := by simpa using hn
      have h1 := closes_of_not_isFirm hf hc.head hn hd
      have h2 := behindClosing?_of_not_closes hc.head hn (dropsName_of_mem_closers hd) h1
      rw [skeleton, List.filter_cons_of_neg (by simp [hn]), isShut, h1, h2]
      simpa [skeleton] using ih hc.tail

theorem isGuarded_skeleton (hf : AreFree names) {ns : List Node} (hc : IsClean ns) :
    isGuarded (skeleton names ns) = isGuarded ns := by
  induction ns with
  | nil => rfl
  | cons n ns ih =>
    by_cases hn : n.isFirm names = true
    · have ha : (closers n).all (isShut · (skeleton names ns)) = (closers n).all (isShut · ns) := by
        rw [Bool.eq_iff_iff, List.all_eq_true, List.all_eq_true]
        exact forall₂_congr fun d hd => by rw [isShut_skeleton hf hd hc.tail]
      rw [skeleton, List.filter_cons_of_pos hn, isGuarded, isGuarded]
      rw [show List.filter _ ns = skeleton names ns from rfl, ha, ih hc.tail]
    · have hn : n.isFirm names = false := by simpa using hn
      rw [skeleton, List.filter_cons_of_neg (by simp [hn]), isGuarded,
        closers_of_not_isFirm hf hc.head hn]
      simpa [skeleton] using ih hc.tail

theorem isGuarded_of_reworked (hf : AreFree names) {ns ms : List Node} (hc : IsClean ns)
    (h : Reworked names ns ms) (hg : isGuarded ns = true) : isGuarded ms = true := by
  rw [← isGuarded_skeleton hf h.clean, h.skeleton_eq, isGuarded_skeleton hf hc]
  exact hg

end MailMarkup.Spacing
