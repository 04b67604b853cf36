import Mathlib.Data.List.Chain
import MailMarkup.Proofs.Document.HeadLines
import MailMarkup.Proofs.Spacing.Trimming

namespace MailMarkup.Text

structure IsOneLine (t : Text) : Prop where
  unbroken : t.any isLineBreak = false
  single : t.IsChain fun a b => a = ' ' → b ≠ ' '
  head : t.head? ≠ some ' '
  last : t.getLast? ≠ some ' '

instance (t : Text) : Decidable (IsOneLine t) :=
  decidable_of_iff (t.any isLineBreak = false ∧ (t.IsChain fun a b => a = ' ' → b ≠ ' ') ∧
      t.head? ≠ some ' ' ∧ t.getLast? ≠ some ' ')
    ⟨fun h => ⟨h.1, h.2.1, h.2.2.1, h.2.2.2⟩, fun h => ⟨h.unbroken, h.single, h.head, h.last⟩⟩

theorem IsOneLine.append {s t : Text} (hs : IsOneLine s) (ht : IsOneLine t) (hsn : s ≠ [])
    (htn : t ≠ []) : IsOneLine (s ++ ' ' :: t) where
  unbroken := by simp [hs.unbroken, ht.unbroken, show isLineBreak ' ' = false by decide]
  single := by
    refine hs.single.append (ht.single.cons fun c hc _ => ?_) fun c hc _ _ hsp => ?_
    · exact fun he => ht.head (he ▸ hc)
    · exact absurd (hsp ▸ hc) hs.last
  head := by
    rw [List.head?_append_of_ne_nil _ hsn]
    exact hs.head
  last := by
    rw [← List.singleton_append (l := t), ← List.append_assoc, List.getLast?_append_of_ne_nil _ htn]
    exact ht.last

theorem isOneLine_of_not_any {t : Text} (h : t.any isBlank = false) : IsOneLine t := by
  have hc : ∀ c ∈ t, isBlank c = false := by simpa using h
  have hspace : ' ' ∉ t := fun hm => absurd (hc _ hm) (by decide)
  refine ⟨?_, ?_, fun hh => hspace (List.mem_of_head? hh), fun hl =>
    hspace (List.mem_of_getLast? hl)⟩
  · rw [List.any_eq_false]
    exact fun c hm hb => by simpa [hc c hm] using Spacing.isBlank_of_isLineBreak hb
  · refine List.isChain_iff_forall_rel_of_append_cons_cons.2 fun a b l r he ha => ?_
    exact absurd (by rw [he, ha]; simp) hspace

theorem isOneLine_join {ws : List Text} (h : ∀ w ∈ ws, w ≠ [] ∧ w.any isBlank = false) :
    IsOneLine (join [' '] ws) := by
  induction ws with
  | nil => exact ⟨rfl, .nil, by simp [join], by simp [join]⟩
  | cons w ws ih =>
    obtain ⟨hw, hws⟩ := List.forall_mem_cons.1 h
    have hone : join [' '] [w] = w := by simp [join]
    by_cases hn : ws = []
    · subst hn
      rw [hone]
      exact isOneLine_of_not_any hw.2
    · have hsplit : join [' '] ([w] ++ ws) = join [' '] [w] ++ ' ' :: join [' '] ws :=
        join_append (by simp) hn
      rw [hone, List.singleton_append] at hsplit
      rw [hsplit]
      refine IsOneLine.append (isOneLine_of_not_any hw.2) (ih hws) hw.1 ?_
      rwa [Ne, join_eq_nil fun t ht => (hws t ht).1]

def IsWords (t : Text) : Prop :=
  ∃ ws : List Text, (∀ w ∈ ws, w ≠ [] ∧ w.any isBlank = false) ∧ t = join [' '] ws

theorem IsWords.isOneLine {t : Text} (h : IsWords t) : IsOneLine t := by
  obtain ⟨ws, hw, rfl⟩ := h
  exact isOneLine_join hw

theorem isWords_of_not_any {t : Text} (h : t.any isBlank = false) : IsWords t := by
  by_cases hn : t = []
  · exact ⟨[], by simp, hn⟩
  · refine ⟨[t], fun w hw => ?_, (List.append_nil t).symm⟩
    rw [List.mem_singleton.1 hw]
    exact ⟨hn, h⟩

theorem IsWords.append {s t : Text} (hs : IsWords s) (ht : IsWords t) (hsn : s ≠ [])
    (htn : t ≠ []) : IsWords (s ++ ' ' :: t) := by
  obtain ⟨vs, hv, rfl⟩ := hs
  obtain ⟨ws, hw, rfl⟩ := ht
  have hne : ∀ {ws : List Text}, join [' '] ws ≠ [] → ws ≠ [] := by
    rintro ws h rfl
    exact h rfl
  exact ⟨vs ++ ws, fun w hm => (List.mem_append.1 hm).elim (hv w) (hw w),
    (join_append (hne hsn) (hne htn)).symm⟩

theorem escapedChar_cases (c : Char) :
    escapedChar c = [c] ∨
      isBlank c = false ∧ (escapedChar c).any isBlank = false ∧ escapedChar c ≠ [] := by
  unfold escapedChar
  split_ifs with h1 h2 h3 h4
  · exact .inr ⟨h1 ▸ by decide, by decide, by decide⟩
  · exact .inr ⟨h2 ▸ by decide, by decide, by decide⟩
  · exact .inr ⟨h3 ▸ by decide, by decide, by decide⟩
  · exact .inr ⟨h4 ▸ by decide, by decide, by decide⟩
  · exact .inl rfl

theorem escapeHtml_cons (c : Char) (t : Text) :
    escapeHtml (c :: t) = escapedChar c ++ escapeHtml t := List.flatMap_cons

theorem head?_of_head?_escapeHtml {t : Text} {b : Char} (hb : isBlank b = true)
    (h : (escapeHtml t).head? = some b) : t.head? = some b := by
  cases t with
  | nil => cases h
  | cons c t =>
    rw [escapeHtml_cons] at h
    rcases escapedChar_cases c with he | ⟨-, he, hne⟩
    · rw [he] at h
      exact h
    · rw [List.head?_append_of_ne_nil _ hne] at h
      have := List.any_eq_false.1 he b (List.mem_of_head? h)
      exact absurd hb this

theorem any_isLineBreak_escapeHtml {t : Text} (h : t.any isLineBreak = false) :
    (escapeHtml t).any isLineBreak = false := by
  rw [List.any_eq_false] at h ⊢
  intro d hd
  obtain ⟨c, hc, hd⟩ := List.mem_flatMap.1 hd
  rcases escapedChar_cases c with he | ⟨-, he, -⟩
  · rw [he, List.mem_singleton] at hd
    exact hd ▸ h c hc
  · exact fun hb => List.any_eq_false.1 he d hd (Spacing.isBlank_of_isLineBreak hb)

theorem isChain_escapeHtml {t : Text} (h : t.IsChain fun a b => a = ' ' → b ≠ ' ') :
    (escapeHtml t).IsChain fun a b => a = ' ' → b ≠ ' ' := by
  induction t with
  | nil => exact .nil
  | cons c t ih =>
    rw [List.isChain_cons] at h
    rw [escapeHtml_cons]
    rcases escapedChar_cases c with he | ⟨-, he, -⟩
    · rw [he]
      refine (ih h.2).cons fun d hd hsp hd' => ?_
      exact h.1 d (hd' ▸ head?_of_head?_escapeHtml (by decide) (hd' ▸ hd)) hsp hd'
    · refine (isOneLine_of_not_any he).single.append (ih h.2) fun d hd _ _ hsp => ?_
      exact absurd (hsp ▸ List.mem_of_getLast? hd) fun hm => absurd rfl
        (List.any_eq_false.1 he _ hm)

end MailMarkup.Text

namespace MailMarkup.Spacing

open Text

theorem isTidy_of_isChain {t : Text} (hu : t.any isLineBreak = false)
    (hs : t.IsChain fun a b => a = ' ' → b ≠ ' ') : IsTidy t := by
  have hn : '\n' ∉ t := fun hm => List.any_eq_false.1 hu _ hm (by decide)
  refine ⟨fun h => ?_, fun b _ =>
    ⟨fun h => hn (h.subset (by simp)), fun h => hn (h.subset (by simp))⟩⟩
  have hpair := List.IsChain.infix hs h
  exact List.isChain_pair.1 hpair rfl rfl

theorem Respaced.of_append {p s v : Text} (h : Respaced (p ++ s) v) (hp : p.any isBlank = false) :
    ∃ u, v = p ++ u ∧ Respaced s u := by
  induction p generalizing v with
  | nil => exact ⟨v, rfl, h⟩
  | cons c p ih =>
    rw [List.any_cons, Bool.or_eq_false_iff] at hp
    obtain ⟨v, rfl, h1⟩ := h.of_cons hp.1
    obtain ⟨u, rfl, h2⟩ := ih h1 hp.2
    exact ⟨u, rfl, h2⟩

theorem exists_of_respaced_escapeHtml {t v : Text} (h : Respaced (escapeHtml t) v) :
    ∃ u, v = escapeHtml u ∧ Respaced t u := by
  induction t generalizing v with
  | nil => exact ⟨[], h.eq_nil_iff.1 rfl, .nil⟩
  | cons c t ih =>
    rw [escapeHtml_cons] at h
    have hself : ∀ {b : Char}, isBlank b = true → escapedChar b = [b] := fun hb =>
      (escapedChar_cases _).resolve_right fun hn => by simp [hb] at hn
    rcases escapedChar_cases c with he | ⟨-, he, -⟩
    · rw [he, List.singleton_append] at h
      generalize hs : escapeHtml t = s at h
      cases h with
      | keep c h =>
        obtain ⟨u, rfl, hu⟩ := ih (hs ▸ h)
        exact ⟨c :: u, by rw [escapeHtml_cons, he]; rfl, .keep c hu⟩
      | @swap _ b' _ _ hb hb' h =>
        obtain ⟨u, rfl, hu⟩ := ih (hs ▸ h)
        exact ⟨b' :: u, by rw [escapeHtml_cons, hself hb']; rfl, .swap hb hb' hu⟩
      | @drop _ b' s _ hb hb' h =>
        obtain ⟨u, rfl, hu⟩ := ih (hs ▸ h)
        obtain ⟨r, rfl⟩ := List.head?_eq_some_iff.1
          (head?_of_head?_escapeHtml hb' (t := t) (by rw [hs]; rfl))
        exact ⟨u, rfl, .drop hb hb' hu⟩
    · obtain ⟨v, rfl, h1⟩ := h.of_append he
      obtain ⟨u, rfl, hu⟩ := ih h1
      exact ⟨c :: u, (escapeHtml_cons c u).symm, .keep c hu⟩

end MailMarkup.Spacing
