import MailMarkup.Proofs.Spacing.Respacing
import MailMarkup.Spacing.Tidy

namespace MailMarkup.Spacing

open Text Markup

def endsWith (c : Char) : Bool := endsName [c]

theorem endsWith_iff {c : Char} : endsWith c = true ↔ isBlank c = true ∨ c = '/' ∨ c = '>' := by
  simp [endsWith, endsName, or_assoc]

theorem toLower_of_endsWith {c : Char} (h : endsWith c = true) : c.toLower = c := by
  have hn : ¬ (65 ≤ c.toNat ∧ c.toNat ≤ 90) := by
    rcases endsWith_iff.1 h with h | rfl | rfl
    · simp only [isBlank, inRanges, blankRanges, List.any_cons, List.any_nil, Bool.or_eq_true,
        Bool.and_eq_true, decide_eq_true_eq, Bool.or_false] at h
      omega
    · decide
    · decide
  have ht := toNat_toLower c
  rw [if_neg hn] at ht
  exact Char.ext (UInt32.toNat_inj.1 ht)

theorem fold_of_endsWith {c : Char} (h : endsWith c = true) :
    foldLetter c = c ∧ plainLower c = c := by
  have hne : ∀ d : Char, endsWith d = false → c ≠ d := by
    rintro d hd rfl
    simp [h] at hd
  have hl := toLower_of_endsWith h
  refine ⟨?_, ?_⟩
  · rw [foldLetter, if_neg (hne _ (by decide)), if_neg (hne _ (by decide)), if_neg, hl]
    rintro (rfl | rfl)
    · revert h; decide
    · revert h; decide
  · rw [plainLower, if_neg (hne _ (by decide)), if_neg (hne _ (by decide)), hl]

theorem not_endsWith_plainLower {p : Char} (h : isFoldedLetter p = true) :
    endsWith (plainLower p) = false := by
  rcases Background.lt_of_isFoldedLetter h with hp | rfl | rfl | rfl | rfl
  · have hd : ∀ n < 128, isFoldedLetter (Char.ofNat n) = true →
        endsWith (plainLower (Char.ofNat n)) = false := by decide
    have := hd p.toNat hp
    rw [Char.ofNat_toNat] at this
    exact this h
  · decide
  · decide
  · decide
  · decide

def DropsName (d : Text → Option Text) : Prop :=
  ∀ t r, d t = some r → ∃ w, t = w ++ r ∧ (∀ c ∈ w, endsWith c = false) ∧ ∀ u, d (w ++ u) = some u

theorem dropsName_folded {w : Text} (hw : ∀ p ∈ w, endsWith p = false) :
    DropsName (dropFolded? w) := by
  intro t r h
  induction w generalizing t with
  | nil => exact ⟨[], by simpa [dropFolded?] using h, by simp, fun _ => rfl⟩
  | cons p w ih =>
    cases t with
    | nil => simp [dropFolded?] at h
    | cons c t =>
      simp only [dropFolded?] at h
      split at h
      · rename_i hc
        obtain ⟨v, rfl, hv, hd⟩ := ih (fun q hq => hw q (List.mem_cons_of_mem _ hq)) t h
        refine ⟨c :: v, rfl, fun e he => ?_, fun u => ?_⟩
        · rcases List.mem_cons.1 he with rfl | he
          · by_contra hb
            have hb : endsWith e = true := by simpa using hb
            have := hw p List.mem_cons_self
            rw [← hc, (fold_of_endsWith hb).1, hb] at this
            cases this
          · exact hv e he
        · rw [List.cons_append, dropFolded?, if_pos hc, hd]
      · simp at h

theorem dropsName_name {w : Text} (hw : ∀ p ∈ w, endsWith (plainLower p) = false) :
    DropsName (dropName? w) := by
  intro t r h
  induction w generalizing t with
  | nil => exact ⟨[], by simpa [dropName?] using h, by simp, fun _ => rfl⟩
  | cons p w ih =>
    cases t with
    | nil => simp [dropName?] at h
    | cons c t =>
      simp only [dropName?] at h
      split at h
      · rename_i hc
        obtain ⟨v, rfl, hv, hd⟩ := ih (fun q hq => hw q (List.mem_cons_of_mem _ hq)) t h
        refine ⟨c :: v, rfl, fun e he => ?_, fun u => ?_⟩
        · rcases List.mem_cons.1 he with rfl | he
          · by_contra hb
            have hb : endsWith e = true := by simpa using hb
            have := hw p List.mem_cons_self
            rw [← hc, (fold_of_endsWith hb).2, hb] at this
            cases this
          · exact hv e he
        · rw [List.cons_append, dropName?, if_pos hc, hd]
      · simp at h

theorem eq_of_append_eq {p : Char → Bool} {a b x y : Text} (ha : ∀ c ∈ a, p c = false)
    (hb : ∀ c ∈ b, p c = false) (hx : x.head?.any p = true) (hy : y.head?.any p = true)
    (h : a ++ x = b ++ y) : a = b ∧ x = y := by
  have ht : ∀ {a x : Text}, (∀ c ∈ a, p c = false) → x.head?.any p = true →
      (a ++ x).takeWhile (!p ·) = a := by
    intro a x ha hx
    cases x with
    | nil => simp at hx
    | cons c x =>
      rw [List.takeWhile_append_of_pos fun c hc => by simp [ha c hc]]
      simp [show p c = true by simpa using hx]
  have he : a = b := by rw [← ht ha hx, h, ht hb hy]
  subst he
  exact ⟨rfl, List.append_cancel_left h⟩

theorem not_endsWith_of_isName {name : Text} (h : isName name = true) :
    ∀ c ∈ name, endsWith c = false := by
  intro c hc
  simp only [isName, Bool.and_eq_true, List.all_eq_true] at h
  by_contra he
  have he : endsWith c = true := by simpa using he
  have hn := not_isNameChar_of_endsName (t := []) he
  rw [h.2 c hc] at hn
  cases hn

theorem head?_ends {name body : Text} (h : IsTag name body) (r : Text) :
    (body ++ '>' :: r).head?.any endsWith = true := by
  have := h.ends
  cases body with
  | nil => rfl
  | cons c body => simpa [endsWith, endsName] using this

theorem isSealed_of_all_isBlank {q : Quoting} (hq : q.IsSound) {b : Text}
    (h : b.all isBlank = true) : isSealed q b = isSealed q [] := by
  induction b with
  | nil => rfl
  | cons c b ih =>
    simp only [List.all_cons, Bool.and_eq_true] at h
    rw [isSealed_blank hq h.1, ih h.2]

section

variable {d : Text → Option Text}

theorem exists_of_dropClosing? (hd : DropsName d) {t s : Text} (h : dropClosing? d t = some s) :
    ∃ w b, t = '<' :: '/' :: (w ++ (b ++ '>' :: s)) ∧ (∀ c ∈ w, endsWith c = false) ∧
      b.all isBlank = true ∧
      ∀ u, dropClosing? d ('<' :: '/' :: (w ++ (b ++ '>' :: u))) = some u := by
  unfold dropClosing? at h
  split at h
  · rename_i t'
    obtain ⟨r, hr, hm⟩ := Option.bind_eq_some_iff.1 h
    clear h
    obtain ⟨w, rfl, hw, hdw⟩ := hd _ _ hr
    split at hm
    · rename_i s' hs
      obtain rfl := Option.some.inj hm
      have hb : (r.takeWhile isBlank).all isBlank = true :=
        List.all_eq_true.2 fun c hc => List.mem_takeWhile_imp hc
      have hsplit := List.takeWhile_append_dropWhile (p := isBlank) (l := r)
      rw [hs] at hsplit
      refine ⟨w, r.takeWhile isBlank, by rw [hsplit], hw, hb, fun u => ?_⟩
      have hdrop : (r.takeWhile isBlank ++ '>' :: u).dropWhile isBlank = '>' :: u := by
        rw [List.dropWhile_append_of_pos fun c hc => List.all_eq_true.1 hb c hc]
        rfl
      simp only [dropClosing?, hdw, Option.bind_some, hdrop]
    · simp at hm
  · simp at h

theorem behindClosing?_cons {c : Char} {r : Text} (h : dropClosing? d (c :: r) = none) :
    behindClosing? d (c :: r) = behindClosing? d r := by
  rw [behindClosing?, h, Option.none_or]

theorem dropClosing?_of_ne {c : Char} (h : c ≠ '<') (r : Text) :
    dropClosing? d (c :: r) = none := by
  unfold dropClosing?
  split
  · rename_i he
    exact absurd (List.cons.inj he).1 h
  · rfl

theorem dropClosing?_angle {c : Char} (h : c ≠ '/') (r : Text) :
    dropClosing? d ('<' :: c :: r) = none := by
  unfold dropClosing?
  split
  · rename_i he
    exact absurd (List.cons.inj (List.cons.inj he).2).1 h
  · rfl

theorem startsMarkup_dropClosing? : StartsMarkup (dropClosing? d) where
  angle r h := dropClosing?_of_ne h r
  start r h := by
    refine dropClosing?_angle ?_ r
    rintro rfl
    revert h
    decide

theorem behindClosing?_of_passes {s r : Text} (h : Passes (dropClosing? d) s r) :
    behindClosing? d (s ++ r) = behindClosing? d r := by
  induction s with
  | nil => rfl
  | cons c s ih => rw [List.cons_append, behindClosing?_cons h.head, ih h.tail]

theorem behindClosing?_harmless {t : Text} (h : isHarmless t = true) (r : Text) :
    behindClosing? d (t ++ '>' :: r) = behindClosing? d r := by
  have := behindClosing?_of_passes (d := d)
    (passes_harmless startsMarkup_dropClosing? h (d := '>') (by decide) (by decide) r)
  simpa using this

theorem dropClosing?_append (hd : DropsName d) {t : Text} (h : dropClosing? d (t ++ ['>']) = none)
    (r : Text) : dropClosing? d (t ++ '>' :: r) = none := by
  cases hs : dropClosing? d (t ++ '>' :: r) with
  | none => rfl
  | some s =>
    obtain ⟨w, b, he, hw, hb, hu⟩ := exists_of_dropClosing? hd hs
    have hg : '>' ∉ '<' :: '/' :: (w ++ b) := by
      have h1 : '>' ∉ w := fun hm => absurd (hw _ hm) (by decide)
      have h2 : '>' ∉ b := fun hm => absurd (List.all_eq_true.1 hb _ hm) (by decide)
      simp [h1, h2]
    have he' : (t ++ ['>']) ++ r = ('<' :: '/' :: (w ++ b)) ++ '>' :: s := by
      simpa using he
    rcases List.append_eq_append_iff.1 he' with ⟨x, hx, -⟩ | ⟨x, hx, hs'⟩
    · exact absurd (hx ▸ (by simp)) hg
    · cases x with
      | nil =>
        rw [List.append_nil] at hx
        exact absurd (hx ▸ (by simp)) hg
      | cons e x =>
        obtain ⟨rfl, -⟩ := List.cons.inj hs'
        have := hu x
        rw [show '<' :: '/' :: (w ++ (b ++ '>' :: x)) = t ++ ['>'] by simpa using hx.symm,
          h] at this
        cases this

theorem behindClosing?_append (hd : DropsName d) {t : Text}
    (h : behindClosing? d (t ++ ['>']) = none) (r : Text) :
    behindClosing? d (t ++ '>' :: r) = behindClosing? d r := by
  induction t with
  | nil => exact behindClosing?_cons (dropClosing?_of_ne (by decide) r)
  | cons c t ih =>
    rw [List.cons_append, behindClosing?, Option.or_eq_none_iff] at h
    have : dropClosing? d (c :: (t ++ '>' :: r)) = none :=
      dropClosing?_append (t := c :: t) hd h.1 r
    rw [List.cons_append, behindClosing?_cons this, ih h.2]

def closes (d : Text → Option Text) (n : Node) : Bool := (dropClosing? d n.source).isSome

theorem exists_of_closes (hd : DropsName d) {n : Node} (hv : n.isValid = true)
    (h : closes d n = true) : ∃ name body, n = .tag true name body ∧ body.all isBlank = true ∧
      ∀ u, dropClosing? d ('<' :: '/' :: (name ++ (body ++ '>' :: u))) = some u := by
  obtain ⟨s, hs⟩ := Option.isSome_iff_exists.1 h
  obtain ⟨w, b, he, hw, hb, hu⟩ := exists_of_dropClosing? hd hs
  cases n with
  | char c => simp [Node.source] at he
  | angle c =>
    simp only [Node.source, List.cons.injEq, true_and] at he
    simp [Node.isValid, isMarkupStart, he.1] at hv
  | declaration m inner =>
    simp only [Node.source, List.cons.injEq, true_and] at he
    have hm := (isValid_declaration.1 hv).1
    rw [he.1] at hm
    exact absurd hm (by decide)
  | comment inner => simp [Node.source, commentText] at he
  | tag closing name body =>
    obtain ⟨ht, -⟩ := isValid_tag.1 hv
    cases closing with
    | false =>
      obtain ⟨c, t, htag, -, -, hc, -⟩ := exists_tag_cons hv
      rw [Node.source, tagText, htag] at he
      exact absurd (List.cons.inj (List.cons.inj he).2).1 (hc rfl)
    | true =>
      simp only [Node.source, tagText, if_true, List.cons_append, List.cons.injEq, true_and,
        List.append_assoc] at he
      have hbe : (b ++ '>' :: s).head?.any endsWith = true := by
        cases b with
        | nil => rfl
        | cons c b =>
          simp only [List.all_cons, Bool.and_eq_true] at hb
          simp [endsWith_iff, hb.1]
      obtain ⟨rfl, he'⟩ := eq_of_append_eq (not_endsWith_of_isName ht.name_ok) hw
        (head?_ends ht []) hbe he
      have h1 := body?_of_isSealed ht.sealed []
      have h2 := body?_of_isSealed (q := .outside false)
        ((isSealed_of_all_isBlank (q := .outside false) trivial hb).trans rfl) s
      rw [he', h2] at h1
      obtain rfl := Option.some.inj h1
      exact ⟨name, b, rfl, hb, hu⟩

theorem dropClosing?_source (hd : DropsName d) {n : Node} (hv : n.isValid = true)
    (h : closes d n = true) (r : Text) : dropClosing? d (n.source ++ r) = some r := by
  obtain ⟨name, body, rfl, -, hu⟩ := exists_of_closes hd hv h
  have := hu r
  simpa [Node.source, tagText] using this

theorem dropClosing?_of_not_closes (hd : DropsName d) {n : Node} (hv : n.isValid = true)
    (h : closes d n = false) (r : Text) : dropClosing? d (n.source ++ r) = none := by
  have hend : ∀ {t : Text}, n.source = t ++ ['>'] → dropClosing? d (n.source ++ r) = none := by
    intro t ht
    rw [closes, ht, Option.isSome_eq_false_iff, Option.isNone_iff_eq_none] at h
    rw [ht]
    simpa using dropClosing?_append hd h r
  cases n with
  | char c =>
    simp only [Node.isValid, bne_iff_ne, ne_eq] at hv
    exact dropClosing?_of_ne hv r
  | angle c =>
    simp only [Node.isValid, Bool.and_eq_true, bne_iff_ne, ne_eq, Bool.not_eq_true'] at hv
    exact startsMarkup_dropClosing?.start r hv.2
  | declaration m inner => exact hend (t := '<' :: m :: inner) rfl
  | comment inner =>
    obtain ⟨i, rfl⟩ := exists_of_endsComment hv
    exact hend (t := commentText i) (by simp [Node.source, commentText])
  | tag closing name body =>
    exact hend (t := '<' :: ((if closing then '/' :: name else name) ++ body)) rfl

theorem passes_dropClosing? (hd : DropsName d) {n : Node} (hv : n.isValid = true)
    (hn : ∀ inner, n ≠ .comment inner) (h : closes d n = false) (r : Text) :
    Passes (dropClosing? d) n.source r :=
  passes_source startsMarkup_dropClosing? hv hn (dropClosing?_of_not_closes hd hv h r)

theorem behindClosing?_source (hd : DropsName d) {n : Node} (hv : n.isValid = true)
    (h : behindClosing? d n.source = none) (r : Text) :
    behindClosing? d (n.source ++ r) = behindClosing? d r := by
  have hend : ∀ {x : Text}, n.source = x ++ ['>'] →
      behindClosing? d (n.source ++ r) = behindClosing? d r := by
    intro x hx
    rw [hx] at h ⊢
    simpa using behindClosing?_append hd h r
  cases n with
  | char c =>
    simp only [Node.isValid, bne_iff_ne, ne_eq] at hv
    exact behindClosing?_cons (dropClosing?_of_ne hv r)
  | angle c =>
    simp only [Node.isValid, Bool.and_eq_true, bne_iff_ne, ne_eq, Bool.not_eq_true'] at hv
    have hc : c ≠ '/' := by
      rintro rfl
      exact absurd hv.2 (by decide)
    rw [Node.source, List.cons_append, List.cons_append, behindClosing?_cons
      (dropClosing?_angle hc _), List.nil_append, behindClosing?_cons (dropClosing?_of_ne hv.1 r)]
  | declaration m inner => exact hend (x := '<' :: m :: inner) rfl
  | comment inner =>
    obtain ⟨i, rfl⟩ := exists_of_endsComment hv
    exact hend (x := commentText i) (by simp [Node.source, commentText])
  | tag closing name body =>
    exact hend (x := '<' :: ((if closing then '/' :: name else name) ++ body)) rfl

def isShut (d : Text → Option Text) : List Node → Bool
  | [] => true
  | n :: ns => closes d n || ((behindClosing? d n.source).isNone && isShut d ns)

theorem exists_of_behindClosing? (hd : DropsName d) {ns : List Node} (hc : IsClean ns)
    (hs : isShut d ns = true) {s : Text} (h : behindClosing? d (sources ns) = some s) :
    ∃ ms ls, ns = ms ++ ls ∧ s = sources ls := by
  induction ns with
  | nil => simp [sources, behindClosing?] at h
  | cons n ns ih =>
    rw [sources_cons] at h
    by_cases hcl : closes d n = true
    · have hdrop := dropClosing?_source hd hc.head hcl (sources ns)
      obtain ⟨c, t, ht⟩ := List.exists_cons_of_ne_nil n.source_ne_nil
      rw [ht, List.cons_append] at hdrop h
      rw [behindClosing?, hdrop] at h
      exact ⟨[n], ns, rfl, (Option.some.inj h).symm⟩
    · simp only [isShut, hcl, Bool.false_or, Bool.and_eq_true, Option.isNone_iff_eq_none] at hs
      rw [behindClosing?_source hd hc.head hs.1] at h
      obtain ⟨ms, ls, rfl, rfl⟩ := ih hc.tail hs.2 h
      exact ⟨n :: ms, ls, rfl, rfl⟩

end

end MailMarkup.Spacing
