import Mathlib.Data.List.Forall2
import Mathlib.Data.List.TakeWhile
import MailMarkup.Text.Scan

namespace MailMarkup.Text

theorem drop_takeWhile_length (p : Char → Bool) (t : Text) :
    t.drop (t.takeWhile p).length = t.dropWhile p := by
  conv_lhs => rw [← List.takeWhile_append_dropWhile (p := p) (l := t)]
  rw [List.drop_left']
  rw [List.takeWhile_append_dropWhile]

theorem forall_eq_false {p : Char → Bool} {t : Text} (h : t.any p = false) :
    ∀ c ∈ t, p c = false :=
  fun c hc => Bool.eq_false_iff.2 (List.any_eq_false.1 h c hc)

theorem modify_append_cons {α : Type} (xs ys : List α) (x : α) (f : α → α) :
    (xs ++ x :: ys).modify xs.length f = xs ++ f x :: ys := by
  induction xs with
  | nil => rfl
  | cons y xs ih => exact congrArg (y :: ·) ih

theorem take_takeWhile_length (p : Char → Bool) (t : Text) :
    t.take (t.takeWhile p).length = t.takeWhile p :=
  List.prefix_iff_eq_take.1 (List.takeWhile_prefix p) |>.symm

theorem breakAt_append {c : Char} {p : Text} (h : c ∉ p) (v : Text) :
    breakAt c (p ++ c :: v) = (p, some v) := by
  have hp : ∀ d ∈ p, (d != c) = true := fun d hd => by simpa using ne_of_mem_of_not_mem hd h
  rw [breakAt, List.dropWhile_append_of_pos hp, List.dropWhile_cons_of_neg (by simp),
    List.takeWhile_append_of_pos hp, List.takeWhile_cons_of_neg (by simp), List.append_nil]

theorem breakAt_of_not_mem {c : Char} {t : Text} (h : c ∉ t) : breakAt c t = (t, none) := by
  have hd : t.dropWhile (· != c) = [] :=
    List.dropWhile_eq_nil_iff.2 fun d hd => by simpa using ne_of_mem_of_not_mem hd h
  rw [breakAt, hd]

theorem breakAt_eq_some {c : Char} {t p v : Text} (h : breakAt c t = (p, some v)) :
    t = p ++ c :: v ∧ c ∉ p := by
  unfold breakAt at h
  split at h
  · cases h
  · rename_i d r hd
    obtain ⟨rfl, rfl⟩ : t.takeWhile (· != c) = p ∧ r = v := by simpa using h
    have hdc : d = c := by
      have := List.head?_dropWhile_not (· != c) t
      simpa [hd] using this
    refine ⟨?_, fun hm => by simpa using List.mem_takeWhile_imp hm⟩
    rw [← hdc, ← hd, hdc, List.takeWhile_append_dropWhile]

theorem exists_breakAt (c : Char) (t : Text) :
    ∃ r, t = (breakAt c t).1 ++ r ∧ ∀ d ∈ r.head?, d = c := by
  cases h : breakAt c t with
  | mk p v =>
    cases v with
    | some v => exact ⟨c :: v, (breakAt_eq_some h).1, by simp⟩
    | none =>
      refine ⟨[], ?_, by simp⟩
      unfold breakAt at h
      split at h
      · simpa using h
      · cases h

theorem not_mem_breakAt_self (c : Char) (t : Text) : c ∉ (breakAt c t).1 := by
  unfold breakAt
  split
  · rename_i h
    intro hm
    simpa using List.dropWhile_eq_nil_iff.1 h c hm
  · intro hm
    simpa using List.mem_takeWhile_imp hm

theorem not_mem_breakAt (c : Char) {x : Char} {t : Text} (h : x ∉ t) :
    x ∉ (breakAt c t).1 ∧ x ∉ (breakAt c t).2.getD [] := by
  unfold breakAt
  split
  · exact ⟨h, by simp⟩
  · rename_i d r hd
    refine ⟨fun hm => h ((List.takeWhile_prefix _).subset hm), fun hm => ?_⟩
    exact h ((List.dropWhile_suffix _).subset (hd ▸ List.mem_cons_of_mem _ hm))

theorem exists_of_mem_hits {f : Recogniser α} {t : Text} {a : α} (h : a ∈ hits f t) :
    ∃ u n, u <:+ t ∧ f u = some (a, n) := by
  cases t with
  | nil => simp [hits, scan, scanFrom] at h
  | cons c r =>
    cases hf : f (c :: r) with
    | none =>
      rw [hits, scan_cons_none hf] at h
      obtain ⟨u, n, hs, hu⟩ := exists_of_mem_hits (t := r) h
      exact ⟨u, n, hs.trans (List.suffix_cons c r), hu⟩
    | some x =>
      obtain ⟨b, n⟩ := x
      rw [hits, scan_cons_some hf] at h
      rcases List.mem_cons.1 h with rfl | h
      · exact ⟨c :: r, n, List.suffix_refl _, hf⟩
      · obtain ⟨u, m, hs, hu⟩ := exists_of_mem_hits (t := r.drop n) h
        exact ⟨u, m, hs.trans ((List.drop_suffix n r).trans (List.suffix_cons c r)), hu⟩
termination_by t.length

theorem source_ne_nil_of_mem_scan {α : Type} {f : Recogniser α} {t : Text} {p : Piece α}
    (h : p ∈ scan f t) : p.source ≠ [] := by
  cases t with
  | nil => cases h
  | cons c r =>
    cases hf : f (c :: r) with
    | none =>
      rw [scan_cons_none hf] at h
      rcases List.mem_cons.1 h with rfl | h
      · exact List.cons_ne_nil _ _
      · exact source_ne_nil_of_mem_scan h
    | some x =>
      obtain ⟨a, n⟩ := x
      rw [scan_cons_some hf] at h
      rcases List.mem_cons.1 h with rfl | h
      · exact List.cons_ne_nil _ _
      · exact source_ne_nil_of_mem_scan h
termination_by t.length

theorem scan_append {f : Recogniser α} {s rest : Text} {a : α} (hs : s ≠ [])
    (h : f (s ++ rest) = some (a, s.length - 1)) :
    scan f (s ++ rest) = .hit a s :: scan f rest := by
  obtain ⟨c, s, rfl⟩ := List.exists_cons_of_ne_nil hs
  simp only [List.length_cons, Nat.add_sub_cancel, List.cons_append] at h
  rw [List.cons_append, scan_cons_some h]
  simp

theorem bind_eq_ok {ε α β : Type} {x : Except ε α} {f : α → Except ε β} {b : β} :
    (x >>= f) = .ok b ↔ ∃ a, x = .ok a ∧ f a = .ok b := by
  cases x with
  | error e => simp [bind, Except.bind]
  | ok a => simp [bind, Except.bind]

theorem bind_eq_error {ε α β : Type} {x : Except ε α} {f : α → Except ε β} {e : ε} :
    (x >>= f) = .error e ↔ x = .error e ∨ ∃ a, x = .ok a ∧ f a = .error e := by
  cases x with
  | error e => simp [bind, Except.bind]
  | ok a => simp [bind, Except.bind]

theorem pure_eq_ok {ε α : Type} {a b : α} : (pure a : Except ε α) = .ok b ↔ a = b := by
  simp [pure, Except.pure]

theorem forall₂_of_mapM {ε α β : Type} {f : α → Except ε β} {as : List α} {bs : List β}
    (h : as.mapM f = .ok bs) : List.Forall₂ (fun a b => f a = .ok b) as bs := by
  induction as generalizing bs with
  | nil =>
    rw [List.mapM_nil, pure_eq_ok] at h
    exact h ▸ .nil
  | cons a as ih =>
    rw [List.mapM_cons, bind_eq_ok] at h
    obtain ⟨b, hb, h⟩ := h
    obtain ⟨bs', hbs, h⟩ := bind_eq_ok.1 h
    rw [← pure_eq_ok.1 h]
    exact .cons hb (ih hbs)

end MailMarkup.Text
