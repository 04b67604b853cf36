import MailMarkup.Proofs.Run.StageNodes
import MailMarkup.Spacing.Tidy

namespace MailMarkup.Spacing

open Text

theorem ne_of_isBlank {c b : Char} (hc : isBlank c = false) (hb : isBlank b = true) : c ≠ b := by
  rintro rfl
  simp [hc] at hb

inductive Respaced : Text → Text → Prop
  | nil : Respaced [] []
  | keep (c : Char) {s t : Text} (h : Respaced s t) : Respaced (c :: s) (c :: t)
  | swap {b b' : Char} {s t : Text} (hb : isBlank b = true) (hb' : isBlank b' = true)
    (h : Respaced s t) : Respaced (b :: s) (b' :: t)
  | drop {b b' : Char} {s t : Text} (hb : isBlank b = true) (hb' : isBlank b' = true)
    (h : Respaced (b' :: s) t) : Respaced (b :: b' :: s) t

inductive Relined : Text → Text → Prop
  | nil : Relined [] []
  | keep (c : Char) {s t : Text} (h : Relined s t) : Relined (c :: s) (c :: t)
  | fold {w s t : Text} (hw : w.all isBlank = true) (hb : w.any isLineBreak = true)
    (h : Relined s t) : Relined (w ++ s) ('\n' :: t)

def isLoose (c : Char) (r : Text) : Bool :=
  (c == ' ' && r.head? == some ' ') || (isSpaceOrTab c && atLineBreak (r.dropWhile isSpaceOrTab))

inductive Tidied : Text → Text → Prop
  | nil : Tidied [] []
  | keep (c : Char) {s t : Text} (h : Tidied s t) : Tidied (c :: s) (c :: t)
  | drop {c : Char} {s t : Text} (hc : isLoose c s = true) (h : Tidied s t) : Tidied (c :: s) t

namespace Respaced

theorem append {s t s' t' : Text} (h : Respaced s t) (h' : Respaced s' t') :
    Respaced (s ++ s') (t ++ t') := by
  induction h with
  | nil => exact h'
  | keep c _ ih => exact .keep c ih
  | swap hb hb' _ ih => exact .swap hb hb' ih
  | drop hb hb' _ ih => exact .drop hb hb' ih

theorem of_cons {c : Char} {s t : Text} (h : Respaced (c :: s) t) (hc : isBlank c = false) :
    ∃ t', t = c :: t' ∧ Respaced s t' := by
  cases h with
  | keep c h => exact ⟨_, rfl, h⟩
  | swap hb => simp [hc] at hb
  | drop hb => simp [hc] at hb

theorem cons_of {c : Char} {s t : Text} (h : Respaced s (c :: t)) (hc : isBlank c = false) :
    ∃ s', s = c :: s' ∧ Respaced s' t := by
  generalize he : c :: t = u at h
  induction h with
  | nil => cases he
  | keep d h =>
    cases he
    exact ⟨_, rfl, h⟩
  | swap hb hb' h =>
    cases he
    simp [hc] at hb'
  | drop hb hb' h ih =>
    obtain ⟨s', hs, -⟩ := ih he
    cases hs
    simp [hc] at hb'

theorem of_cons_blank {b : Char} {s t : Text} (h : Respaced (b :: s) t) (hb : isBlank b = true) :
    ∃ b' t', t = b' :: t' ∧ isBlank b' = true := by
  generalize he : b :: s = u at h
  induction h generalizing b s with
  | nil => cases he
  | keep d h =>
    cases he
    exact ⟨_, _, rfl, hb⟩
  | swap hb hb' h => exact ⟨_, _, rfl, hb'⟩
  | drop hb hb' h ih => exact ih hb' rfl

theorem eq_nil_iff {s t : Text} (h : Respaced s t) : s = [] ↔ t = [] := by
  induction h with
  | nil => simp
  | keep c h ih => simp
  | swap hb hb' h ih => simp
  | drop hb hb' h ih => simpa using ih

theorem mem_iff {s t : Text} (h : Respaced s t) {c : Char} (hc : isBlank c = false) :
    c ∈ s ↔ c ∈ t := by
  induction h with
  | nil => simp
  | keep d h ih => simp [ih]
  | swap hb hb' h ih => simp [ih, ne_of_isBlank hc hb, ne_of_isBlank hc hb']
  | drop hb hb' h ih => rwa [List.mem_cons, or_iff_right (ne_of_isBlank hc hb)]

theorem all_isBlank_eq {s t : Text} (h : Respaced s t) : s.all isBlank = t.all isBlank := by
  rw [Bool.eq_iff_iff, List.all_eq_true, List.all_eq_true]
  refine ⟨fun hs c hc => ?_, fun ht c hc => ?_⟩
  · by_contra hb
    exact hb (hs c ((h.mem_iff (by simpa using hb)).2 hc))
  · by_contra hb
    exact hb (ht c ((h.mem_iff (by simpa using hb)).1 hc))

theorem all_isBlank {s t : Text} (h : Respaced s t) (hs : s.all isBlank = true) :
    t.all isBlank = true := h.all_isBlank_eq ▸ hs

theorem swap_all {w : Text} (hw : w.all isBlank = true) {b : Char} (hb : isBlank b = true)
    (hne : w ≠ []) : Respaced w [b] := by
  induction w with
  | nil => exact absurd rfl hne
  | cons c w ih =>
    simp only [List.all_cons, Bool.and_eq_true] at hw
    cases w with
    | nil => exact .swap hw.1 hb .nil
    | cons d w =>
      have hd : isBlank d = true := by simp at hw; exact hw.2.1
      exact .drop hw.1 hd (ih hw.2 (by simp))

end Respaced

namespace Relined

theorem refl (t : Text) : Relined t t := by
  induction t with
  | nil => exact .nil
  | cons c t ih => exact .keep c ih

theorem append {s t s' t' : Text} (h : Relined s t) (h' : Relined s' t') :
    Relined (s ++ s') (t ++ t') := by
  induction h with
  | nil => exact h'
  | keep c _ ih => exact .keep c ih
  | fold hw hb _ ih =>
    rw [List.append_assoc]
    exact .fold hw hb ih

theorem respaced {s t : Text} (h : Relined s t) : Respaced s t := by
  induction h with
  | nil => exact .nil
  | keep c h ih => exact .keep c ih
  | fold hw hb h ih =>
    exact (Respaced.swap_all hw rfl (by rintro rfl; simp at hb)).append ih

theorem split {a b u : Text} {c : Char} (h : Relined (a ++ c :: b) u) (hc : isBlank c = false) :
    ∃ a' b', u = a' ++ c :: b' ∧ Relined a a' ∧ Relined b b' := by
  generalize he : a ++ c :: b = s at h
  induction h generalizing a with
  | nil => simp at he
  | keep d h ih =>
    cases a with
    | nil =>
      cases he
      exact ⟨[], _, rfl, .nil, h⟩
    | cons e a =>
      obtain ⟨rfl, he'⟩ := List.cons.inj he
      obtain ⟨a', b', rfl, ha, hb⟩ := ih he'
      exact ⟨e :: a', b', rfl, .keep e ha, hb⟩
  | @fold w s t hw hb h ih =>
    rcases List.append_eq_append_iff.1 he with ⟨x, rfl, hx⟩ | ⟨x, rfl, rfl⟩
    · cases x with
      | nil =>
        obtain ⟨a', b', rfl, ha, hb'⟩ := ih (a := []) hx
        refine ⟨'\n' :: a', b', rfl, ?_, hb'⟩
        simpa using Relined.fold (by simpa using hw) (by simpa using hb) ha
      | cons e x =>
        obtain ⟨rfl, -⟩ := List.cons.inj hx
        simp [hc] at hw
    · obtain ⟨a', b', rfl, ha, hb'⟩ := ih rfl
      exact ⟨'\n' :: a', b', rfl, .fold hw hb ha, hb'⟩

theorem eq_of_not_any {s t : Text} (h : Relined s t) (hs : s.any isLineBreak = false) : t = s := by
  induction h with
  | nil => rfl
  | keep c h ih =>
    simp only [List.any_cons, Bool.or_eq_false_iff] at hs
    rw [ih hs.2]
  | fold hw hb h ih => simp [List.any_append, hb] at hs

theorem space {u : Text} (h : Relined [' '] u) : u = [' '] := h.eq_of_not_any (by decide)

end Relined

theorem isBlank_of_isSpaceOrTab {c : Char} (h : isSpaceOrTab c = true) : isBlank c = true := by
  simp only [isSpaceOrTab, Bool.or_eq_true, beq_iff_eq] at h
  rcases h with rfl | rfl <;> decide

theorem atLineBreak_iff {t : Text} :
    atLineBreak t = true ↔ ['\n'] <+: t ∨ ['\r', '\n'] <+: t := by
  unfold atLineBreak
  split
  · simp
  · simp
  · rename_i h1 h2
    constructor
    · intro h
      cases h
    rintro (⟨r, rfl⟩ | ⟨r, rfl⟩)
    · exact absurd rfl (h1 r)
    · exact absurd rfl (h2 r)

theorem exists_of_atLineBreak {t : Text} (h : atLineBreak t = true) :
    ∃ c r, t = c :: r ∧ isBlank c = true := by
  rcases atLineBreak_iff.1 h with ⟨r, rfl⟩ | ⟨r, rfl⟩
  · exact ⟨_, _, rfl, by decide⟩
  · exact ⟨_, _, rfl, by decide⟩

theorem atLineBreak_append {t : Text} (h : atLineBreak t = true) (u : Text) :
    atLineBreak (t ++ u) = true :=
  atLineBreak_iff.2 ((atLineBreak_iff.1 h).imp (·.trans (List.prefix_append t u))
    (·.trans (List.prefix_append t u)))

theorem atLineBreak_append_cons {c : Char} (h : isBlank c = false) (t u : Text) :
    atLineBreak (t ++ c :: u) = atLineBreak t := by
  have hn : ∀ e, isBlank e = true → c ≠ e := fun e he => ne_of_isBlank h he
  rw [Bool.eq_iff_iff]
  refine ⟨fun ha => atLineBreak_iff.2 ?_, fun ha => atLineBreak_append ha _⟩
  rcases atLineBreak_iff.1 ha with hp | hp
  · cases t with
    | nil => exact absurd (List.cons_prefix_cons.1 hp).1.symm (hn _ (by decide))
    | cons d t => exact .inl (by simpa using hp)
  · cases t with
    | nil => exact absurd (List.cons_prefix_cons.1 hp).1.symm (hn _ (by decide))
    | cons d t =>
      cases t with
      | nil =>
        have := (List.cons_prefix_cons.1 (List.cons_prefix_cons.1 hp).2).1
        exact absurd this.symm (hn _ (by decide))
      | cons e t => exact .inr (by simpa using hp)

theorem exists_of_isLoose {c : Char} {r : Text} (h : isLoose c r = true) :
    isBlank c = true ∧ ∃ d s, r = d :: s ∧ isBlank d = true := by
  simp only [isLoose, Bool.or_eq_true, Bool.and_eq_true, beq_iff_eq] at h
  rcases h with ⟨rfl, h⟩ | ⟨hc, h⟩
  · obtain ⟨s, rfl⟩ := List.head?_eq_some_iff.1 h
    exact ⟨by decide, ' ', s, rfl, by decide⟩
  · refine ⟨isBlank_of_isSpaceOrTab hc, ?_⟩
    cases r with
    | nil => simp [atLineBreak] at h
    | cons d s =>
      refine ⟨d, s, rfl, ?_⟩
      by_cases hd : isSpaceOrTab d = true
      · exact isBlank_of_isSpaceOrTab hd
      · rw [List.dropWhile_cons_of_neg hd] at h
        obtain ⟨e, t, he, hb⟩ := exists_of_atLineBreak h
        rwa [(List.cons.inj he).1]

theorem dropWhile_append_cons {p : Char → Bool} {c : Char} (h : p c = false) (a b : Text) :
    (a ++ c :: b).dropWhile p = a.dropWhile p ++ c :: b := by
  induction a with
  | nil => exact List.dropWhile_cons_of_neg (by simp [h])
  | cons d a ih =>
    rw [List.cons_append, List.dropWhile_cons, List.dropWhile_cons]
    split
    · exact ih
    · rfl

theorem isLoose_append_cons {d c : Char} (h : isBlank c = false) (a b : Text) :
    isLoose d (a ++ c :: b) = isLoose d a := by
  have hn : ∀ e, isBlank e = true → c ≠ e := fun e he => ne_of_isBlank h he
  have hs : isSpaceOrTab c = false := by
    by_contra hs
    rw [isBlank_of_isSpaceOrTab (by simpa using hs)] at h
    cases h
  have h1 : (a ++ c :: b).head? == some ' ' ↔ a.head? == some ' ' := by
    cases a with
    | nil => simp [hn ' ' (by decide)]
    | cons e a => simp
  rw [isLoose, isLoose, dropWhile_append_cons hs, atLineBreak_append_cons h, Bool.eq_iff_iff.2 h1]

theorem isLoose_append {d : Char} {a : Text} (h : isLoose d a = true) (b : Text) :
    isLoose d (a ++ b) = true := by
  simp only [isLoose, Bool.or_eq_true, Bool.and_eq_true, beq_iff_eq] at h ⊢
  refine h.imp (fun ⟨hd, ha⟩ => ⟨hd, ?_⟩) fun ⟨hd, ha⟩ => ⟨hd, ?_⟩
  · obtain ⟨r, rfl⟩ := List.head?_eq_some_iff.1 ha
    rfl
  · obtain ⟨c, r, hr, -⟩ := exists_of_atLineBreak ha
    rw [List.dropWhile_append, if_neg (by simp [hr])]
    exact atLineBreak_append ha b

namespace Tidied

theorem refl (t : Text) : Tidied t t := by
  induction t with
  | nil => exact .nil
  | cons c t ih => exact .keep c ih

theorem append {s t s' t' : Text} (h : Tidied s t) (h' : Tidied s' t') :
    Tidied (s ++ s') (t ++ t') := by
  induction h with
  | nil => exact h'
  | keep c _ ih => exact .keep c ih
  | drop hc _ ih => exact .drop (isLoose_append hc _) ih

theorem respaced {s t : Text} (h : Tidied s t) : Respaced s t := by
  induction h with
  | nil => exact .nil
  | keep c _ ih => exact .keep c ih
  | drop hc h ih =>
    obtain ⟨hb, d, s, rfl, hd⟩ := exists_of_isLoose hc
    exact .drop hb hd ih

theorem split {a b u : Text} {c : Char} (h : Tidied (a ++ c :: b) u) (hc : isBlank c = false) :
    ∃ a' b', u = a' ++ c :: b' ∧ Tidied a a' ∧ Tidied b b' := by
  generalize he : a ++ c :: b = s at h
  induction h generalizing a with
  | nil => simp at he
  | keep d h ih =>
    cases a with
    | nil =>
      cases he
      exact ⟨[], _, rfl, .nil, h⟩
    | cons e a =>
      obtain ⟨rfl, he'⟩ := List.cons.inj he
      obtain ⟨a', b', rfl, ha, hb⟩ := ih he'
      exact ⟨e :: a', b', rfl, .keep e ha, hb⟩
  | drop hd h ih =>
    cases a with
    | nil =>
      cases he
      rw [(exists_of_isLoose hd).1] at hc
      cases hc
    | cons e a =>
      obtain ⟨rfl, rfl⟩ := List.cons.inj he
      obtain ⟨a', b', rfl, ha, hb⟩ := ih rfl
      exact ⟨a', b', rfl, .drop (isLoose_append_cons hc a b ▸ hd) ha, hb⟩

theorem space {u : Text} (h : Tidied [' '] u) : u = [' '] := by
  cases h with
  | keep c h => cases h; rfl
  | drop hc h => cases hc

end Tidied

end MailMarkup.Spacing

namespace MailMarkup.Markup

open Text Spacing

def Quoting.IsSound : Quoting → Prop
  | outside _ => True
  | inside d => isBlank d = false

theorem isBlank_of_isQuote {c : Char} (h : isQuote c = true) : isBlank c = false := by
  simp only [isQuote, Bool.or_eq_true, beq_iff_eq] at h
  rcases h with rfl | rfl <;> decide

theorem Quoting.IsSound.onward {q : Quoting} (h : q.IsSound) (c : Char) : (q.onward c).IsSound := by
  cases q with
  | inside d =>
    rw [Quoting.onward]
    split
    · trivial
    · exact h
  | outside e =>
    rw [Quoting.onward]
    split
    · rename_i hq
      simp only [Bool.and_eq_true] at hq
      exact isBlank_of_isQuote hq.2
    · trivial

theorem Quoting.onward_blank {q : Quoting} (h : q.IsSound) {b : Char} (hb : isBlank b = true) :
    q.onward b = q ∧ q.endsTag b = false := by
  have hne : ∀ c : Char, isBlank c = false → b ≠ c := fun c hc => (ne_of_isBlank hc hb).symm
  cases q with
  | inside d => exact ⟨by simp [Quoting.onward, hne d h], rfl⟩
  | outside e =>
    have hq : isQuote b = false := by
      by_contra hq
      simp [isBlank_of_isQuote (by simpa using hq)] at hb
    simp [Quoting.onward, Quoting.endsTag, hq, hb, hne '=' (by decide), hne '>' (by decide)]

theorem isSealed_blank {q : Quoting} (h : q.IsSound) {b : Char} (hb : isBlank b = true)
    (t : Text) : isSealed q (b :: t) = isSealed q t := by
  obtain ⟨h1, h2⟩ := q.onward_blank h hb
  rw [isSealed_cons, h1, h2]
  rfl

theorem isSealed_respaced {q : Quoting} (hq : q.IsSound) {s t : Text} (h : Respaced s t) :
    isSealed q s = isSealed q t := by
  induction h generalizing q with
  | nil => rfl
  | keep c h ih => rw [isSealed_cons, isSealed_cons, ih (hq.onward c)]
  | swap hb hb' h ih => rw [isSealed_blank hq hb, isSealed_blank hq hb', ih hq]
  | drop hb hb' h ih => rw [isSealed_blank hq hb, ih hq]

theorem isBlank_of_isMarkupStart {c : Char} (h : isMarkupStart c = true) : isBlank c = false := by
  by_contra hb
  have hb : isBlank c = true := by simpa using hb
  have hn := not_isNameChar_of_isBlank hb
  simp only [isMarkupStart, Bool.or_eq_true, List.contains_cons, List.contains_nil,
    beq_iff_eq, Bool.or_false] at h
  rcases h with h | rfl | rfl | rfl
  · simp [isNameChar, Char.isAlphanum, h] at hn
  · revert hb; decide
  · revert hb; decide
  · revert hb; decide

theorem isHarmless_respaced {s t : Text} (h : Respaced s t) (hs : isHarmless s = true) :
    isHarmless t = true := by
  induction h with
  | nil => rfl
  | @keep c s t h ih =>
    simp only [isHarmless, Bool.and_eq_true, Bool.not_eq_true'] at hs ⊢
    refine ⟨?_, ih hs.2⟩
    by_contra hm
    simp only [Bool.not_eq_false, Bool.and_eq_true, beq_iff_eq] at hm
    obtain ⟨rfl, hm⟩ := hm
    cases t with
    | nil => simp at hm
    | cons d t =>
      obtain ⟨s', rfl, -⟩ := h.cons_of (isBlank_of_isMarkupStart (by simpa using hm))
      simp at hs hm
      simp [hm] at hs
  | swap hb hb' h ih =>
    have hne := (ne_of_isBlank (c := '<') (by decide) hb').symm
    simp [isHarmless, hne, ih (isHarmless_cons hs)]
  | drop hb hb' h ih => exact ih (isHarmless_cons hs)

theorem isPrefixOf_respaced {s t p : Text} (h : Respaced s t) (hp : ∀ c ∈ p, isBlank c = false) :
    p.isPrefixOf s = p.isPrefixOf t := by
  induction p generalizing s t with
  | nil => simp
  | cons c p ih =>
    have hc := hp c List.mem_cons_self
    have ih {s t : Text} (h : Respaced s t) := ih h fun d hd => hp d (List.mem_cons_of_mem _ hd)
    cases h with
    | nil => rfl
    | keep d h => simp only [List.isPrefixOf, ih h]
    | @swap b b' s t hb hb' h =>
      rw [List.isPrefixOf, List.isPrefixOf, beq_false_of_ne (ne_of_isBlank hc hb),
        beq_false_of_ne (ne_of_isBlank hc hb')]
      rfl
    | @drop b b' s t hb hb' h =>
      obtain ⟨e, t', rfl, he⟩ := h.of_cons_blank hb'
      rw [List.isPrefixOf, List.isPrefixOf, beq_false_of_ne (ne_of_isBlank hc hb),
        beq_false_of_ne (ne_of_isBlank hc he)]
      rfl

theorem eq_of_respaced {s t : Text} (h : Respaced s t) (hs : ∀ c ∈ s, isBlank c = false) :
    t = s := by
  induction h with
  | nil => rfl
  | keep c h ih => rw [ih fun d hd => hs d (List.mem_cons_of_mem _ hd)]
  | swap hb hb' h ih => simp [hs _ List.mem_cons_self] at hb
  | drop hb hb' h ih => simp [hs _ List.mem_cons_self] at hb

theorem endsComment_respaced {s t : Text} (h : Respaced s t) (hs : endsComment s = true) :
    endsComment t = true := by
  induction h with
  | nil => exact hs
  | @keep c s t h ih =>
    have hp := isPrefixOf_respaced (p := "-->".toList) (.keep c h) (forall_eq_false (by decide))
    simp only [endsComment] at hs ⊢
    rw [← hp]
    split at hs
    · rename_i hd
      rw [if_pos hd]
      obtain ⟨r, hr⟩ := List.isPrefixOf_iff_prefix.1 hd
      simp only [String.reduceToList, List.cons_append, List.nil_append, List.cons.injEq] at hr
      obtain ⟨rfl, rfl⟩ := hr
      have hr : r = [] := by simpa using hs
      subst hr
      rw [eq_of_respaced h (forall_eq_false (by decide))]
      rfl
    · rename_i hd
      rw [if_neg hd]
      exact ih hs
  | @swap b b' s t hb hb' h ih =>
    have hn : ∀ {e : Char} (r : Text), isBlank e = true →
      "-->".toList.isPrefixOf (e :: r) = false := by
      intro e r he
      simp [List.isPrefixOf, ne_of_isBlank (c := '-') (by decide) he]
    simp only [endsComment, hn _ hb, hn _ hb', Bool.false_eq_true, if_false] at hs ⊢
    exact ih hs
  | @drop b b' s t hb hb' h ih =>
    refine ih ?_
    have hn : "-->".toList.isPrefixOf (b :: b' :: s) = false := by
      simp [List.isPrefixOf, ne_of_isBlank (c := '-') (by decide) hb]
    rw [endsComment, hn] at hs
    exact hs

theorem isTag_respaced {name body body' : Text} (h : IsTag name body) (hr : Respaced body body') :
    IsTag name body' := by
  refine ⟨h.name_ok, ?_, ?_⟩
  · have he := h.ends
    cases hr with
    | nil => exact he
    | keep c h => exact he
    | swap hb hb' h => simp [endsName, hb']
    | drop hb hb' h =>
      obtain ⟨e, t', rfl, hb''⟩ := h.of_cons_blank hb'
      simp [endsName, hb'']
  · rw [← isSealed_respaced (q := .outside false) trivial hr]
    exact h.sealed

structure IsSpacing (R : Text → Text → Prop) : Prop where
  refl : ∀ t : Text, R t t
  append : ∀ {s t s' t' : Text}, R s t → R s' t' → R (s ++ s') (t ++ t')
  respaced : ∀ {s t : Text}, R s t → Respaced s t
  split : ∀ {a b u : Text} {c : Char}, R (a ++ c :: b) u → isBlank c = false →
    ∃ a' b', u = a' ++ c :: b' ∧ R a a' ∧ R b b'
  space : ∀ {u : Text}, R [' '] u → u = [' ']

theorem isSpacing_relined : IsSpacing Relined :=
  ⟨.refl, .append, Relined.respaced, Relined.split, Relined.space⟩

theorem isSpacing_tidied : IsSpacing Tidied :=
  ⟨.refl, .append, Tidied.respaced, Tidied.split, Tidied.space⟩

inductive Respelled (C R : Text → Text → Prop) : Node → Node → Prop
  | declaration (m : Char) {inner inner' : Text} (h : R inner inner') :
    Respelled C R (.declaration m inner) (.declaration m inner')
  | comment {inner inner' : Text} (h : C inner inner') :
    Respelled C R (.comment inner) (.comment inner')
  | tag (closing : Bool) (name : Text) {body body' : Text} (h : R body body') :
    Respelled C R (.tag closing name body) (.tag closing name body')

structure Spaced (C R : Text → Text → Prop) (ns ms : List Node) : Prop where
  clean : IsClean ms
  firm : List.Forall₂ (Respelled C R) (skeleton [] ns) (skeleton [] ms)

section

variable {C R : Text → Text → Prop}

theorem IsSpacing.cons (hR : IsSpacing R) {b u : Text} {c : Char} (h : R (c :: b) u)
    (hc : isBlank c = false) : ∃ u', u = c :: u' ∧ R b u' := by
  obtain ⟨a', b', rfl, ha, hb⟩ := hR.split (a := []) h hc
  obtain rfl := (hR.respaced ha).eq_nil_iff.1 rfl
  exact ⟨b', rfl, hb⟩

theorem IsSpacing.behind (hR : IsSpacing R) {p b u : Text} (h : R (p ++ b) u)
    (hp : ∀ c ∈ p, isBlank c = false) : ∃ u', u = p ++ u' ∧ R b u' := by
  induction p generalizing u with
  | nil => exact ⟨u, rfl, h⟩
  | cons c p ih =>
    obtain ⟨u1, rfl, h1⟩ := hR.cons h (hp c List.mem_cons_self)
    obtain ⟨u2, rfl, h2⟩ := ih h1 fun d hd => hp d (List.mem_cons_of_mem _ hd)
    exact ⟨u2, rfl, h2⟩

theorem Spaced.text (h : Spaced C R ns ms) {n : Node} (hn : n.isFirm [] = false) :
    Spaced C R (n :: ns) ms :=
  ⟨h.clean, by rw [skeleton, List.filter_cons_of_neg (by simp [hn])]; exact h.firm⟩

theorem Spaced.chars (h : Spaced C R ns ms) {w : Text} (hw : w.all isBlank = true) :
    Spaced C R ns (w.map .char ++ ms) := by
  induction w with
  | nil => exact h
  | cons b w ih =>
    simp only [List.all_cons, Bool.and_eq_true] at hw
    have ih := ih hw.2
    refine ⟨.cons ?_ ih.clean, ih.firm⟩
    simpa [Node.isValid] using (ne_of_isBlank (c := '<') (by decide) hw.1).symm

theorem Spaced.cons (h : Spaced C R ns ms) {n m : Node} (hm : m.isValid = true)
    (hr : Respelled C R n m) : Spaced C R (n :: ns) (m :: ms) := by
  refine ⟨.cons hm h.clean, ?_⟩
  cases hr with
  | declaration m hi => exact .cons (.declaration m hi) h.firm
  | comment hi => exact .cons (.comment hi) h.firm
  | tag closing name hb => exact .cons (.tag closing name hb) h.firm

theorem isNameChar_not_isBlank {c : Char} (h : isNameChar c = true) : isBlank c = false := by
  by_contra hb
  rw [not_isNameChar_of_isBlank (by simpa using hb)] at h
  cases h

theorem exists_of_endsComment {s : Text} (h : endsComment s = true) : ∃ t, s = t ++ ['>'] := by
  induction s with
  | nil => simp [endsComment] at h
  | cons c r ih =>
    simp only [endsComment] at h
    split at h
    · rename_i hp
      obtain ⟨x, hx⟩ := List.isPrefixOf_iff_prefix.1 hp
      simp only [String.reduceToList, List.cons_append, List.nil_append, List.cons.injEq] at hx
      obtain ⟨rfl, rfl⟩ := hx
      have hx : x = [] := by simpa using h
      exact ⟨"--".toList, by rw [hx]; rfl⟩
    · obtain ⟨t, rfl⟩ := ih h
      exact ⟨c :: t, rfl⟩

theorem IsSpacing.exists_respelled (hR : IsSpacing R) {n : Node} (hv : n.isValid = true)
    (hn : n.isFirm [] = true) {r u : Text} (h : R (n.source ++ r) u) :
    ∃ m u', u = m.source ++ u' ∧ m.isValid = true ∧ Respelled R R n m ∧ R r u' := by
  cases n with
  | char c => simp [Node.isFirm] at hn
  | angle c => simp [Node.isFirm] at hn
  | declaration m inner =>
    obtain ⟨hm, hl, hg, hd⟩ := isValid_declaration.1 hv
    have hs : (Node.declaration m inner).source ++ r = ['<', m] ++ (inner ++ '>' :: r) := by
      simp [Node.source]
    rw [hs] at h
    have hplain : ∀ c ∈ ['<', m], isBlank c = false := by
      rcases hm with rfl | rfl <;> exact forall_eq_false (by decide)
    obtain ⟨u1, rfl, h1⟩ := hR.behind h hplain
    obtain ⟨inner', u2, rfl, hi, h2⟩ := hR.split h1 (by decide)
    have hi' := hR.respaced hi
    refine ⟨.declaration m inner', u2, by simp [Node.source], ?_, .declaration m hi, h2⟩
    refine isValid_declaration.2 ⟨hm, ?_, ?_, ?_⟩
    · rwa [← hi'.mem_iff (by decide)]
    · rwa [← hi'.mem_iff (by decide)]
    · rwa [← isPrefixOf_respaced hi' (forall_eq_false (by decide))]
  | comment inner =>
    obtain ⟨i, rfl⟩ := exists_of_endsComment hv
    have hs : (Node.comment (i ++ ['>'])).source ++ r = "<!--".toList ++ (i ++ '>' :: r) := by
      simp [Node.source, commentText]
    rw [hs] at h
    obtain ⟨u1, rfl, h1⟩ := hR.behind h (forall_eq_false (by decide))
    obtain ⟨i', u2, rfl, hi, h2⟩ := hR.split h1 (by decide)
    have hi' := hR.append hi (hR.refl ['>'])
    exact ⟨.comment (i' ++ ['>']), u2, by simp [Node.source, commentText],
      endsComment_respaced (hR.respaced hi') hv, .comment hi', h2⟩
  | tag closing name body =>
    obtain ⟨ht, hh⟩ := isValid_tag.1 hv
    have hs : (Node.tag closing name body).source ++ r =
        ('<' :: (if closing then '/' :: name else name)) ++ (body ++ '>' :: r) := by
      simp [Node.source, tagText]
    have hname : ∀ c ∈ name, isBlank c = false := by
      have := ht.name_ok
      simp only [isName, Bool.and_eq_true, List.all_eq_true] at this
      exact fun c hc => isNameChar_not_isBlank (this.2 c hc)
    rw [hs] at h
    obtain ⟨u1, rfl, h1⟩ := hR.behind h (by
      intro c hc
      rcases List.mem_cons.1 hc with rfl | hc
      · decide
      · split at hc
        · rcases List.mem_cons.1 hc with rfl | hc
          · decide
          · exact hname c hc
        · exact hname c hc)
    obtain ⟨body', u2, rfl, hb, h2⟩ := hR.split h1 (by decide)
    have hb' := hR.respaced hb
    exact ⟨.tag closing name body', u2, by simp [Node.source, tagText],
      isValid_tag.2 ⟨isTag_respaced ht hb', isHarmless_respaced hb' hh⟩, .tag closing name hb, h2⟩

theorem IsSpacing.exists_spaced_behind (hR : IsSpacing R) {ns : List Node} (hc : IsClean ns)
    {w u : Text} (hw : w.all isBlank = true) (h : R (w ++ sources ns) u) :
    ∃ w' ms, u = w' ++ sources ms ∧ w'.all isBlank = true ∧ (w ≠ [] → w' ≠ []) ∧
      Spaced R R ns ms := by
  have hfront {w w' : Text} (hw : w.all isBlank = true) (hr : R w w') :
      w'.all isBlank = true ∧ (w ≠ [] → w' ≠ []) :=
    ⟨(hR.respaced hr).all_isBlank hw, mt (hR.respaced hr).eq_nil_iff.2⟩
  induction ns generalizing w u with
  | nil =>
    rw [show sources [] = [] from rfl, List.append_nil] at h
    obtain ⟨hb, hne⟩ := hfront hw h
    exact ⟨u, [], by simp [sources], hb, hne, .nil, .nil⟩
  | cons n ns ih =>
    have hcn := hc.head
    -- what stands behind a character that is no blank
    have hnext : ∀ {v t : Text}, v.all isBlank = true → R (v ++ sources ns) t →
        ∃ ms, t = sources ms ∧ Spaced R R ns ms ∧
          (v ≠ [] → ∃ b, isBlank b = true ∧ ∃ ms', ms = .char b :: ms') := by
      intro v t hv ht
      obtain ⟨v', ms, rfl, hb, hne, hs⟩ := ih hc.tail hv ht
      refine ⟨v'.map .char ++ ms, by rw [sources_append, sources_map_char], hs.chars hb, ?_⟩
      intro hv
      cases v' with
      | nil => exact absurd rfl (hne hv)
      | cons b v' =>
        simp only [List.all_cons, Bool.and_eq_true] at hb
        exact ⟨b, hb.1, _, rfl⟩
    by_cases hf : n.isFirm [] = true
    · obtain ⟨x, hx⟩ : ∃ x, n.source = '<' :: x := by
        cases n with
        | declaration m inner => exact ⟨_, rfl⟩
        | comment inner => exact ⟨_, rfl⟩
        | tag closing name body => exact ⟨_, rfl⟩
        | _ => simp [Node.isFirm] at hf
      rw [sources_cons, hx] at h
      obtain ⟨w', t, rfl, h1, h2⟩ := hR.split h (by decide)
      have h3 : R (n.source ++ sources ns) ('<' :: t) := by
        rw [hx]
        exact hR.append (hR.refl ['<']) h2
      obtain ⟨m, t', ht, hm, hr, h4⟩ := hR.exists_respelled hcn hf h3
      obtain ⟨ms, rfl, hs, -⟩ := hnext (v := []) rfl h4
      obtain ⟨hb, hne⟩ := hfront hw h1
      exact ⟨w', m :: ms, by rw [ht, sources_cons], hb, hne, hs.cons hm hr⟩
    · have hf : n.isFirm [] = false := by simpa using hf
      cases n with
      | char c =>
        rw [sources_cons, Node.source] at h
        by_cases hb : isBlank c = true
        · have hw' : (w ++ [c]).all isBlank = true := by simpa [hb] using hw
          obtain ⟨w', ms, rfl, hb', hne, hs⟩ := ih hc.tail hw' (by simpa using h)
          exact ⟨w', ms, rfl, hb', fun _ => hne (by simp), hs.text rfl⟩
        · obtain ⟨w', t, rfl, h1, h2⟩ := hR.split h (by simpa using hb)
          obtain ⟨ms, rfl, hs, -⟩ := hnext (v := []) rfl h2
          obtain ⟨hb, hne⟩ := hfront hw h1
          exact ⟨w', .char c :: ms, by rw [sources_cons]; rfl, hb, hne, .cons hcn hs.clean, hs.firm⟩
      | angle c =>
        rw [sources_cons, Node.source] at h
        obtain ⟨w', t, rfl, h1, h2⟩ := hR.split h (by decide)
        obtain ⟨hw', hne⟩ := hfront hw h1
        refine ⟨w', ?_⟩
        by_cases hb : isBlank c = true
        · obtain ⟨ms, rfl, hs, hms⟩ := hnext (v := [c]) (by simpa using hb) h2
          obtain ⟨b, hb', ms', rfl⟩ := hms (by simp)
          refine ⟨.angle b :: ms', by simp [sources_cons, Node.source], hw', hne,
            .cons ?_ hs.clean.tail, hs.firm⟩
          have hm : isMarkupStart b = false := by
            by_contra hm
            simp [isBlank_of_isMarkupStart (by simpa using hm)] at hb'
          simp [Node.isValid, hm, (ne_of_isBlank (c := '<') (by decide) hb').symm]
        · obtain ⟨t', rfl, h3⟩ := hR.cons h2 (by simpa using hb)
          obtain ⟨ms, rfl, hs, -⟩ := hnext (v := []) rfl h3
          exact ⟨.angle c :: ms, by simp [sources_cons, Node.source], hw', hne,
            .cons hcn hs.clean, hs.firm⟩
      | _ => simp [Node.isFirm] at hf

theorem IsSpacing.exists_spaced (hR : IsSpacing R) {ns : List Node} (hc : IsClean ns) {u : Text}
    (h : R (sources ns) u) : ∃ ms, u = sources ms ∧ Spaced R R ns ms := by
  obtain ⟨w, ms, rfl, hw, -, hs⟩ := hR.exists_spaced_behind hc (w := []) rfl h
  exact ⟨w.map .char ++ ms, by rw [sources_append, sources_map_char], hs.chars hw⟩

end

end MailMarkup.Markup
