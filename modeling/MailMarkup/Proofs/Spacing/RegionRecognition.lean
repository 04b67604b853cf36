import MailMarkup.Proofs.Document.Titles
import MailMarkup.Proofs.Markup.TokenPositions
import MailMarkup.Proofs.Spacing.Tidying

namespace MailMarkup.Spacing

open Text Markup

def Cuts (f : Text → Option Text) : Prop :=
  ∀ t s, f t = some s → ∃ q, t = q ++ '>' :: s ∧ ∀ u, f (q ++ '>' :: u) = some u

theorem Cuts.append {f : Text → Option Text} (hf : Cuts f) {t s : Text} (h : f t = some s)
    (r : Text) : f (t ++ r) = some (s ++ r) := by
  obtain ⟨q, rfl, hq⟩ := hf t s h
  rw [List.append_assoc, List.cons_append, hq]

theorem Cuts.orElse {f g : Text → Option Text} (hf : Cuts f) (hg : Cuts g)
    (hn : ∀ t s, g t = some s → f t = none) : Cuts fun t => f t <|> g t := by
  intro t s h
  rcases eq_some_of_orElse h with h | ⟨-, h⟩
  · obtain ⟨q, rfl, hq⟩ := hf t s h
    exact ⟨q, rfl, fun u => by simp [hq]⟩
  · obtain ⟨q, rfl, hq⟩ := hg t s h
    exact ⟨q, rfl, fun u => by simp [hn _ _ (hq u), hq]⟩

section

variable {d : Text → Option Text}

theorem dropClosing?_eq_some {t s : Text} :
    dropClosing? d ('<' :: '/' :: t) = some s ↔
      ∃ r, d t = some r ∧ r.dropWhile isBlank = '>' :: s := by
  rw [dropClosing?, Option.bind_eq_some_iff]
  refine exists_congr fun r => and_congr_right fun _ => ?_
  split
  · rename_i he
    simp [he]
  · rename_i hn
    simpa using hn s

theorem cuts_dropClosing? (hd : DropsName d) : Cuts (dropClosing? d) := by
  intro t s h
  obtain ⟨w, b, rfl, -, -, hu⟩ := exists_of_dropClosing? hd h
  exact ⟨'<' :: '/' :: (w ++ b), by simp, fun u => by simpa using hu u⟩

theorem behindClosing?_of_dropClosing? {t s : Text} (h : dropClosing? d t = some s) :
    behindClosing? d t = some s := by
  cases t with
  | nil => cases h
  | cons c r => rw [behindClosing?, h, Option.some_or]

theorem cuts_behindClosing? (hd : DropsName d) : Cuts (behindClosing? d) := by
  intro t s h
  induction t with
  | nil => cases h
  | cons c r ih =>
    cases hc : dropClosing? d (c :: r) with
    | some x =>
      rw [behindClosing?_of_dropClosing? hc] at h
      obtain rfl := Option.some.inj h
      obtain ⟨q, he, hq⟩ := cuts_dropClosing? hd _ _ hc
      exact ⟨q, he, fun u => behindClosing?_of_dropClosing? (hq u)⟩
    | none =>
      rw [behindClosing?_cons hc] at h
      obtain ⟨q, rfl, hq⟩ := ih h
      have hnone : dropClosing? d ((c :: q) ++ ['>']) = none := by
        by_contra hne
        obtain ⟨x, hx⟩ := Option.ne_none_iff_exists'.1 hne
        have := (cuts_dropClosing? hd).append hx s
        rw [List.append_assoc, List.singleton_append, List.cons_append, hc] at this
        cases this
      refine ⟨c :: q, rfl, fun u => ?_⟩
      have hrest : dropClosing? d (c :: (q ++ '>' :: u)) = none := dropClosing?_append hd hnone u
      rw [List.cons_append, behindClosing?_cons hrest, hq]

end

theorem takeWhile_of_not_mem {i : Text} (hi : '>' ∉ i) (r : Text) :
    (i ++ '>' :: r).takeWhile (· != '>') = i := by
  rw [List.takeWhile_append_of_pos fun c hc => by
    simpa using ne_of_mem_of_not_mem hc hi]
  simp

theorem behindEmptyTag?_eq_some {t s : Text} :
    behindEmptyTag? t = some s ↔ ∃ i, t = i ++ '/' :: '>' :: s ∧ '>' ∉ i := by
  refine ⟨fun h => ?_, ?_⟩
  · simp only [behindEmptyTag?, drop_takeWhile_length] at h
    split at h
    · rename_i r hr
      split at h
      · rename_i hlast
        obtain rfl := Option.some.inj h
        obtain ⟨i, hi⟩ := List.getLast?_eq_some_iff.1 hlast
        refine ⟨i, ?_, fun hm => ?_⟩
        · have := List.takeWhile_append_dropWhile (p := (· != '>')) (l := t)
          rw [hr, hi] at this
          simpa using this.symm
        · have hm : '>' ∈ t.takeWhile (· != '>') := hi ▸ List.mem_append_left _ hm
          exact absurd (List.mem_takeWhile_imp hm) (by decide)
      · cases h
    · cases h
  · rintro ⟨i, rfl, hi⟩
    have hi' : '>' ∉ i ++ ['/'] := by simpa using hi
    have htake := takeWhile_of_not_mem hi' s
    rw [List.append_assoc, List.singleton_append] at htake
    have hdrop : (i ++ '/' :: '>' :: s).drop (i ++ ['/']).length = '>' :: s := by
      simp
    simp only [behindEmptyTag?, htake, hdrop]
    simp

theorem cuts_behindEmptyTag? : Cuts behindEmptyTag? := by
  intro t s h
  obtain ⟨i, rfl, hi⟩ := behindEmptyTag?_eq_some.1 h
  exact ⟨i ++ ['/'], by simp, fun u => behindEmptyTag?_eq_some.2 ⟨i, by simp, hi⟩⟩

theorem cuts_behindOffice? : Cuts behindOffice? := by
  intro t s h
  obtain ⟨w, hw, h⟩ := Option.bind_eq_some_iff.1 h
  obtain ⟨z, rfl, hends⟩ := exists_of_officeName? hw
  have hd : DropsName (dropName? w) := dropsName_name hends
  simp only [List.drop_left] at h
  -- the name is read from what stands in front of the `>`
  have hname {q : Text} (hz : z = q ++ '>' :: s) (u : Text) :
      officeName? (w ++ (q ++ '>' :: u)) = some w := by
    subst hz
    have happ (v : Text) :
        officeName? (w ++ (q ++ '>' :: v)) = officeName? (w ++ q ++ ['>']) := by
      rw [← officeName?_append (t := w ++ q ++ ['>']) (by simp) v]
      simp
    rw [happ, ← happ s, hw]
  rcases eq_some_of_orElse h with h | ⟨hn, h⟩
  · obtain ⟨q, rfl, hq⟩ := cuts_behindEmptyTag? _ _ h
    refine ⟨w ++ q, by simp, fun u => ?_⟩
    rw [List.append_assoc, behindOffice?, hname rfl]
    simp [hq]
  · obtain ⟨q, rfl, hq⟩ := cuts_behindClosing? hd _ _ h
    have hnone : ∀ u, behindEmptyTag? (q ++ '>' :: u) = none := by
      have happ : ∀ v, behindEmptyTag? (q ++ '>' :: v) =
          (behindEmptyTag? (q ++ ['>'])).map (· ++ v) := fun v => by
        rw [← behindEmptyTag?_append (t := q ++ ['>']) (by simp) v]
        simp
      intro u
      rw [happ s, Option.map_eq_none_iff] at hn
      rw [happ, hn]
      rfl
    refine ⟨w ++ q, by simp, fun u => ?_⟩
    rw [List.append_assoc, behindOffice?, hname rfl]
    simp [hq, hnone]

theorem exists_of_behindElement? {w t s : Text} (h : behindElement? w t = some s) :
    ∃ z, dropFolded? w t = some z ∧ atWordEnd z = true ∧
      behindClosing? (dropFolded? w) z = some s := by
  obtain ⟨z, hz, hs⟩ := Option.bind_eq_some_iff.1 h
  obtain ⟨hdrop, hends⟩ := Option.filter_eq_some_iff.1 hz
  exact ⟨z, hdrop, hends, hs⟩

theorem cuts_behindElement? {w : Text} (hw : ∀ p ∈ w, endsWith p = false) :
    Cuts (behindElement? w) := by
  intro t s h
  obtain ⟨z, hdrop, hends, hs⟩ := exists_of_behindElement? h
  have hd : DropsName (dropFolded? w) := dropsName_folded hw
  obtain ⟨v, rfl, -, hv⟩ := hd t z hdrop
  obtain ⟨q, rfl, hq⟩ := cuts_behindClosing? hd _ _ hs
  refine ⟨v ++ q, by simp, fun u => ?_⟩
  have happ : ∀ x, atWordEnd (q ++ '>' :: x) = atWordEnd (q ++ ['>']) := fun x => by
    rw [← atWordEnd_append (t := q ++ ['>']) (by simp) x]
    simp
  have hword : atWordEnd (q ++ '>' :: u) = true := by rw [happ, ← happ s, hends]
  rw [List.append_assoc, behindElement?, hv, Option.filter_some, if_pos hword]
  exact hq u

theorem exists_of_dropFolded? {a b : Char} {w t z : Text}
    (h : dropFolded? (a :: b :: w) t = some z) :
    ∃ c e r, t = c :: e :: r ∧ foldLetter c = a ∧ foldLetter e = b := by
  match t with
  | [] => cases h
  | [c] =>
    simp only [dropFolded?] at h
    split at h <;> cases h
  | c :: e :: r =>
    simp only [dropFolded?] at h
    split at h
    · rename_i hc
      split at h
      · rename_i he
        exact ⟨c, e, r, rfl, hc, he⟩
      · cases h
    · cases h

theorem officeName?_of_ne {c e : Char} (h : e ≠ ':') (r : Text) :
    officeName? (c :: e :: r) = none := by
  unfold officeName?
  split
  · rename_i he
    exact absurd (List.cons.inj (List.cons.inj he).2).1 h
  · rfl

theorem behindOffice?_of_behindElement? {a b : Char} {w t s : Text} (hb : foldLetter ':' ≠ b)
    (h : behindElement? (a :: b :: w) t = some s) : behindOffice? t = none := by
  obtain ⟨z, hz, -, -⟩ := exists_of_behindElement? h
  obtain ⟨c, e, r, rfl, -, he⟩ := exists_of_dropFolded? hz
  have hne : e ≠ ':' := by
    rintro rfl
    exact hb he
  rw [behindOffice?, officeName?_of_ne hne]
  rfl

theorem not_endsWith_xml : ∀ p ∈ "xml".toList, endsWith p = false := forall_eq_false (by decide)

theorem not_endsWith_pre : ∀ p ∈ "pre".toList, endsWith p = false := forall_eq_false (by decide)

theorem cuts_behindProtected? : Cuts behindProtected? := by
  have hxml : Cuts (behindElement? "xml".toList) := cuts_behindElement? not_endsWith_xml
  have hpre : Cuts (behindElement? "pre".toList) := cuts_behindElement? not_endsWith_pre
  refine cuts_behindOffice?.orElse (hxml.orElse hpre fun t s h => ?_) fun t s h => ?_
  · -- no name begins with both an x and a p
    obtain ⟨z, hz, -, -⟩ := exists_of_behindElement? h
    obtain ⟨c, e, r, rfl, hc, -⟩ := exists_of_dropFolded? hz
    have hne : dropFolded? "xml".toList (c :: e :: r) = none := if_neg (by rw [hc]; decide)
    rw [behindElement?, hne]
    rfl
  · rcases eq_some_of_orElse h with h | ⟨-, h⟩
    · exact behindOffice?_of_behindElement? (by decide) h
    · exact behindOffice?_of_behindElement? (by decide) h

namespace Respaced

theorem behind {w s t : Text} (h : Respaced s (w ++ t)) (hw : ∀ c ∈ w, isBlank c = false) :
    ∃ s', s = w ++ s' ∧ Respaced s' t := by
  induction w generalizing s with
  | nil => exact ⟨s, rfl, h⟩
  | cons c w ih =>
    obtain ⟨s', rfl, hs⟩ := h.cons_of (hw c List.mem_cons_self)
    obtain ⟨r, rfl, hr⟩ := ih hs fun e he => hw e (List.mem_cons_of_mem _ he)
    exact ⟨r, rfl, hr⟩

theorem split_of {a b s : Text} {c : Char} (h : Respaced s (a ++ c :: b)) (hc : isBlank c = false) :
    ∃ a' b', s = a' ++ c :: b' ∧ Respaced a' a ∧ Respaced b' b := by
  generalize he : a ++ c :: b = t at h
  induction h generalizing a with
  | nil => simp at he
  | keep d h ih =>
    cases a with
    | nil =>
      cases he
      exact ⟨[], _, rfl, .nil, h⟩
    | cons e a =>
      obtain ⟨rfl, he'⟩ := List.cons.inj he
      obtain ⟨a', b', rfl, ha, hb⟩ := ih he'
      exact ⟨e :: a', b', rfl, .keep e ha, hb⟩
  | swap hd hd' h ih =>
    cases a with
    | nil =>
      cases he
      simp [hc] at hd'
    | cons e a =>
      obtain ⟨rfl, he'⟩ := List.cons.inj he
      obtain ⟨a', b', rfl, ha, hb⟩ := ih he'
      exact ⟨_ :: a', b', rfl, .swap hd hd' ha, hb⟩
  | drop hd hd' h ih =>
    obtain ⟨a', b', hs, ha, hb⟩ := ih he
    cases a' with
    | nil =>
      obtain ⟨rfl, -⟩ := List.cons.inj hs
      simp [hc] at hd'
    | cons e a' =>
      obtain ⟨rfl, rfl⟩ := List.cons.inj hs
      exact ⟨_ :: _ :: a', b', rfl, .drop hd hd' ha, hb⟩

theorem takeWhile {p : Char → Bool} (hp : ∀ b, isBlank b = true → p b = false) {s t : Text}
    (h : Respaced s t) :
    s.takeWhile p = t.takeWhile p ∧ Respaced (s.dropWhile p) (t.dropWhile p) := by
  induction h with
  | nil => exact ⟨rfl, .nil⟩
  | keep c h ih =>
    by_cases hc : p c = true
    · simpa [hc] using ih
    · simpa [hc] using Respaced.keep c h
  | swap hb hb' h ih => simpa [hp _ hb, hp _ hb'] using Respaced.swap hb hb' h
  | drop hb hb' h ih =>
    obtain ⟨e, u, rfl, he⟩ := h.of_cons_blank hb'
    simpa [hp _ hb, hp _ he] using Respaced.drop hb hb' h

theorem any_head? {p : Char → Bool} (hp : ∀ b, isBlank b = true → p b = false) {s t : Text}
    (h : Respaced s t) : s.head?.any p = t.head?.any p := by
  cases h with
  | nil => rfl
  | keep c h => rfl
  | swap hb hb' h => simp [hp _ hb, hp _ hb']
  | drop hb hb' h =>
    obtain ⟨e, u, rfl, he⟩ := h.of_cons_blank hb'
    simp [hp _ hb, hp _ he]

end Respaced

theorem not_isBlank_of_not_endsWith {c : Char} (h : endsWith c = false) : isBlank c = false := by
  by_contra hb
  rw [endsWith_iff.2 (.inl (by simpa using hb))] at h
  cases h

theorem atWordEnd_respaced {s t : Text} (h : Respaced s t) : atWordEnd s = atWordEnd t :=
  congrArg (!·) (h.any_head? fun _ hb => Document.not_isWordChar_of_isBlank hb)

section

variable {d : Text → Option Text} {s t : Text}

theorem exists_of_dropsName (hd : DropsName d) (h : Respaced s t) {r : Text} (ht : d t = some r) :
    ∃ r', d s = some r' ∧ Respaced r' r := by
  obtain ⟨w, rfl, hw, hu⟩ := hd t r ht
  obtain ⟨s', rfl, hs⟩ := h.behind fun c hc => not_isBlank_of_not_endsWith (hw c hc)
  exact ⟨s', hu s', hs⟩

theorem isSome_dropClosing? (hd : DropsName d) (h : Respaced s t)
    (ht : (dropClosing? d t).isSome = true) : (dropClosing? d s).isSome = true := by
  obtain ⟨x, hx⟩ := Option.isSome_iff_exists.1 ht
  obtain ⟨w, b, rfl, -, -, -⟩ := exists_of_dropClosing? hd hx
  obtain ⟨s', rfl, hs⟩ := h.behind (w := ['<', '/']) (forall_eq_false (by decide))
  obtain ⟨r, hr, hdrop⟩ := dropClosing?_eq_some.1 hx
  obtain ⟨r', hr', hs⟩ := exists_of_dropsName hd hs hr
  rw [← List.takeWhile_append_dropWhile (p := isBlank) (l := r), hdrop] at hs
  obtain ⟨b', x', rfl, hb, -⟩ := hs.split_of (by decide)
  have hblank : b'.all isBlank = true :=
    hb.all_isBlank_eq.trans (List.all_eq_true.2 fun c hc => List.mem_takeWhile_imp hc)
  have hdrop' : (b' ++ '>' :: x').dropWhile isBlank = '>' :: x' := by
    rw [List.dropWhile_append_of_pos (List.all_eq_true.1 hblank)]
    rfl
  exact Option.isSome_iff_exists.2 ⟨x', dropClosing?_eq_some.2 ⟨_, hr', hdrop'⟩⟩

theorem isSome_behindClosing? (hd : DropsName d) (h : Respaced s t)
    (ht : (behindClosing? d t).isSome = true) : (behindClosing? d s).isSome = true := by
  have hskip : ∀ {c : Char} (r : Text), isBlank c = true →
      behindClosing? d (c :: r) = behindClosing? d r := fun r hc =>
    behindClosing?_cons (dropClosing?_of_ne (ne_of_isBlank (by decide) hc).symm r)
  induction h with
  | nil => exact ht
  | keep c h ih =>
    rw [behindClosing?, Option.isSome_or, Bool.or_eq_true] at ht ⊢
    exact ht.imp (isSome_dropClosing? hd (.keep c h)) ih
  | swap hb hb' h ih =>
    rw [hskip _ hb'] at ht
    rw [hskip _ hb]
    exact ih ht
  | drop hb hb' h ih =>
    rw [hskip _ hb]
    exact ih ht

theorem isSome_behindEmptyTag? (h : Respaced s t) (ht : (behindEmptyTag? t).isSome = true) :
    (behindEmptyTag? s).isSome = true := by
  obtain ⟨x, hx⟩ := Option.isSome_iff_exists.1 ht
  obtain ⟨i, rfl, hi⟩ := behindEmptyTag?_eq_some.1 hx
  obtain ⟨i', r, rfl, hi', hr⟩ := h.split_of (c := '/') (by decide)
  obtain ⟨x', rfl, -⟩ := hr.cons_of (by decide)
  refine Option.isSome_iff_exists.2 ⟨x', behindEmptyTag?_eq_some.2 ⟨i', rfl, ?_⟩⟩
  exact fun hm => hi ((hi'.mem_iff (by decide)).1 hm)

theorem officeName?_colon (l : Char) (r : Text) :
    officeName? (l :: ':' :: r) =
      if ['v', 'o', 'w'].contains l.toLower && !(r.takeWhile isFoldedLetter).isEmpty &&
          atWordEnd (r.dropWhile isFoldedLetter)
      then some (l :: ':' :: r.takeWhile isFoldedLetter) else none := by
  simp only [officeName?, drop_takeWhile_length]

theorem exists_colon_of_officeName? {w : Text} (h : officeName? t = some w) :
    ∃ l r, t = l :: ':' :: r ∧ isBlank l = false := by
  unfold officeName? at h
  split at h
  · rename_i l r
    refine ⟨l, r, rfl, isNameChar_not_isBlank ?_⟩
    simp [isNameChar, Char.isAlphanum, head_of_officeName? (r := ':' :: r) h]
  · cases h

theorem not_isFoldedLetter_of_isBlank {b : Char} (hb : isBlank b = true) :
    isFoldedLetter b = false := by
  by_contra hl
  have := not_endsWith_of_plainLower (not_endsWith_plainLower (by simpa using hl))
  rw [endsWith_iff.2 (.inl hb)] at this
  cases this

theorem officeName?_of_respaced (h : Respaced s t) {w : Text} (ht : officeName? t = some w) :
    officeName? s = some w := by
  obtain ⟨l, r, rfl, hl⟩ := exists_colon_of_officeName? ht
  obtain ⟨r', rfl, hr⟩ := h.behind (w := [l, ':'])
    (by simp [hl, show isBlank ':' = false by decide])
  obtain ⟨htake, hdrop⟩ := hr.takeWhile (p := isFoldedLetter) fun _ hb =>
    not_isFoldedLetter_of_isBlank hb
  change officeName? (l :: ':' :: r') = some w
  rw [officeName?_colon] at ht ⊢
  rw [htake, atWordEnd_respaced hdrop, ht]

theorem isSome_behindOffice? (h : Respaced s t) (ht : (behindOffice? t).isSome = true) :
    (behindOffice? s).isSome = true := by
  obtain ⟨x, hx⟩ := Option.isSome_iff_exists.1 ht
  obtain ⟨w, hw, hx⟩ := Option.bind_eq_some_iff.1 hx
  have hw' := officeName?_of_respaced h hw
  obtain ⟨z, rfl, hends⟩ := exists_of_officeName? hw
  obtain ⟨z', rfl, hz⟩ := h.behind fun c hc =>
    not_isBlank_of_not_endsWith (not_endsWith_of_plainLower (hends c hc))
  have hd : DropsName (dropName? w) := dropsName_name hends
  rw [List.drop_left] at hx
  rw [behindOffice?, hw', Option.bind_eq_bind, Option.bind_some, List.drop_left]
  rcases eq_some_of_orElse hx with hx | ⟨-, hx⟩
  · have := isSome_behindEmptyTag? hz (by rw [hx]; rfl)
    simp [this]
  · have := isSome_behindClosing? hd hz (by rw [hx]; rfl)
    simp [this]

theorem isSome_behindElement? {w : Text} (hw : ∀ p ∈ w, endsWith p = false) (h : Respaced s t)
    (ht : (behindElement? w t).isSome = true) : (behindElement? w s).isSome = true := by
  obtain ⟨x, hx⟩ := Option.isSome_iff_exists.1 ht
  obtain ⟨z, hz, hends, hx⟩ := exists_of_behindElement? hx
  have hd : DropsName (dropFolded? w) := dropsName_folded hw
  obtain ⟨z', hz', hr⟩ := exists_of_dropsName hd h hz
  rw [behindElement?, hz', Option.filter_some, if_pos ((atWordEnd_respaced hr).trans hends)]
  exact isSome_behindClosing? hd hr (by rw [hx]; rfl)

theorem isSome_orElse {α : Type} (a b : Option α) :
    (a <|> b).isSome = (a.isSome || b.isSome) := by
  cases a <;> rfl

theorem isSome_behindProtected? (h : Respaced s t) (ht : (behindProtected? t).isSome = true) :
    (behindProtected? s).isSome = true := by
  simp only [behindProtected?, isSome_orElse, Bool.or_eq_true] at ht ⊢
  exact ht.imp (isSome_behindOffice? h) (.imp (isSome_behindElement? not_endsWith_xml h)
    (isSome_behindElement? not_endsWith_pre h))

theorem isSome_comment? (h : Respaced s t) (ht : (comment? ('<' :: t)).isSome = true) :
    (comment? ('<' :: s)).isSome = true := by
  unfold comment? at ht
  split at ht
  · rename_i r he
    obtain ⟨-, rfl⟩ := List.cons.inj he
    obtain ⟨r', rfl, -⟩ := h.behind (w := ['!', '-', '-']) (forall_eq_false (by decide))
    rfl
  · cases ht

theorem region?_none_of_respaced {c : Char} (h : Respaced s t) (hs : region? (c :: s) = none) :
    region? (c :: t) = none := by
  by_cases hc : c = '<'
  · subst hc
    have hcs : comment? ('<' :: s) = none := by
      by_contra hne
      obtain ⟨x, hx⟩ := Option.ne_none_iff_exists'.1 hne
      simp [region?, hx] at hs
    have hct : comment? ('<' :: t) = none := by
      by_contra hne
      have := isSome_comment? h (Option.isSome_iff_ne_none.2 hne)
      rw [hcs] at this
      cases this
    rw [region?_of_comment?_none hcs, Option.map_eq_none_iff] at hs
    rw [region?_of_comment?_none hct, Option.map_eq_none_iff]
    by_contra hne
    have := isSome_behindProtected? h (Option.isSome_iff_ne_none.2 hne)
    rw [hs] at this
    cases this
  · exact startsMarkup_region?.angle t hc

end

theorem exists_of_region? {t : Text} {x : Unit × Nat} (h : region? t = some x) :
    ∃ s u, t = s ++ u ∧ s ≠ [] ∧
      ∀ v, (u = [] → v = []) → scan region? (s ++ v) = .hit () s :: scan region? v := by
  obtain ⟨r, rfl⟩ : ∃ r, t = '<' :: r := by
    cases t with
    | nil => cases h
    | cons c r =>
      by_cases hc : c = '<'
      · exact ⟨r, by rw [hc]⟩
      · rw [startsMarkup_region?.angle r hc] at h
        cases h
  cases hc : comment? ('<' :: r) with
  | some y =>
    obtain ⟨inner, he⟩ : ∃ inner, '<' :: r = commentText inner := by
      unfold comment? at hc
      split at hc
      · exact ⟨_, by assumption⟩
      · cases hc
    rw [he]
    by_cases hlen : commentLength inner < inner.length
    · refine ⟨commentText (inner.take (commentLength inner)), inner.drop (commentLength inner), ?_,
        by simp [commentText], fun v _ => scan_comment (endsComment_take hlen) v⟩
      rw [commentText, commentText, List.append_assoc, List.take_append_drop]
    · refine ⟨commentText inner, [], by simp, by simp [commentText], fun v hv => ?_⟩
      obtain rfl := hv rfl
      have hall : commentLength inner = inner.length :=
        Nat.le_antisymm (commentLength_le inner) (Nat.le_of_not_lt hlen)
      have hwhole : comment? (commentText inner ++ []) =
          some ((), (commentText inner).length - 1) := by
        rw [List.append_nil]
        change some ((), 3 + commentLength inner) = _
        rw [hall, commentText, List.length_append,
          Nat.sub_add_comm (show 1 ≤ "<!--".toList.length by decide)]
        rfl
      refine scan_append (by simp [commentText]) ?_
      unfold region?
      rw [hwhole]
  | none =>
    rw [region?_of_comment?_none hc] at h
    obtain ⟨u, hu, -⟩ := Option.map_eq_some_iff.1 h
    obtain ⟨q, rfl, hq⟩ := cuts_behindProtected? _ _ hu
    refine ⟨'<' :: (q ++ ['>']), u, by simp, by simp, fun v _ => ?_⟩
    obtain ⟨e, z, hz⟩ := List.exists_cons_of_ne_nil (l := q ++ '>' :: v) (by simp)
    have hv := hq v
    rw [hz] at hv
    have hne : e ≠ '!' := by
      rintro rfl
      exact absurd (head_of_behindProtected? hv) (by decide)
    have := scan_opening hne hv (q := q ++ ['>']) (by rw [← hz]; simp)
    rw [← hz] at this
    simpa using this

end MailMarkup.Spacing
