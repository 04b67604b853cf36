import Mathlib.Data.List.Infix
import MailMarkup.Background.Color
import MailMarkup.Proofs.Document.Declarations

namespace MailMarkup.Background

open Text

def IsOpening (f : Text) : Prop := f.map foldLetter ∈ imageFunctions

instance (f : Text) : Decidable (IsOpening f) := inferInstanceAs (Decidable (_ ∈ _))

def HoldsCall (t : Text) : Prop :=
  ∃ p f r, t = p ++ (f ++ r) ∧ (∀ c ∈ p.getLast?, isWordChar c = false) ∧ IsOpening f

def afterWord (w : Bool) (p : Text) : Bool := (p.getLast?.map isWordChar).getD w

theorem afterWord_append (w : Bool) (p q : Text) :
    afterWord w (p ++ q) = afterWord (afterWord w p) q := by
  rw [afterWord, afterWord, afterWord, List.getLast?_append]
  cases q.getLast? <;> rfl

theorem afterWord_false_of {w : Bool} {p : Text} (h : afterWord w p = false) :
    afterWord false p = false := by
  rw [afterWord] at h ⊢
  cases hp : p.getLast? with
  | none => rfl
  | some c => rwa [hp] at h

theorem afterWord_false_iff {p : Text} :
    afterWord false p = false ↔ ∀ c ∈ p.getLast?, isWordChar c = false := by
  rw [afterWord]
  cases p.getLast? <;> simp

theorem exists_of_isOpening {f : Text} (h : IsOpening f) :
    ∃ u, f = u ++ ['('] ∧ '(' ∉ u ∧ ')' ∉ u ∧ ' ' ∉ u ∧ 3 ≤ u.length := by
  have hspelled : ∀ w ∈ imageFunctions, w = w.dropLast ++ ['('] ∧ '(' ∉ w.dropLast ∧
      ')' ∉ w.dropLast ∧ ' ' ∉ w.dropLast ∧ 3 ≤ w.dropLast.length := by decide
  obtain ⟨hf, hopen, hclose, hblank, hlen⟩ := hspelled _ h
  obtain ⟨u, last, rfl, hu, hlast⟩ := List.map_eq_append_iff.1 hf
  obtain ⟨c, rfl, hc⟩ := List.map_eq_singleton_iff.1 hlast
  obtain rfl : c = '(' := Document.eq_of_foldLetter hc (by decide)
  rw [← hu] at hopen hclose hblank hlen
  have hnot {d : Char} (hd : foldLetter d = d) (hm : d ∉ u.map foldLetter) : d ∉ u :=
    fun hmem => hm (hd ▸ List.mem_map_of_mem hmem)
  exact ⟨u, rfl, hnot rfl hopen, hnot rfl hclose, hnot rfl hblank, by simpa using hlen⟩

theorem IsOpening.ne_nil {f : Text} (h : IsOpening f) : f ≠ [] := by
  obtain ⟨u, rfl, -⟩ := exists_of_isOpening h
  exact List.append_ne_nil_of_right_ne_nil u (List.cons_ne_nil _ _)

theorem eq_of_append_cons_eq {c : Char} {u v r z : Text} (hu : c ∉ u) (hv : c ∉ v)
    (h : u ++ c :: r = v ++ c :: z) : u = v ∧ r = z := by
  have hbreak := breakAt_append hu r
  rw [h, breakAt_append hv] at hbreak
  obtain ⟨rfl, hr⟩ := Prod.mk.inj hbreak
  exact ⟨rfl, (Option.some.inj hr).symm⟩

theorem behindImageFunction?_eq_some_iff {t r : Text} :
    behindImageFunction? t = some r ↔ ∃ f, t = f ++ r ∧ IsOpening f := by
  constructor
  · intro h
    obtain ⟨w, hw, hr⟩ := List.exists_of_findSome?_eq_some h
    obtain ⟨f, rfl, rfl⟩ := dropFolded?_eq_some_iff.1 hr
    exact ⟨f, rfl, hw⟩
  · rintro ⟨f, rfl, hf⟩
    cases h : behindImageFunction? (f ++ r) with
    | none =>
      have := List.findSome?_eq_none_iff.1 h _ hf
      rw [dropFolded?_map] at this
      cases this
    | some z =>
      obtain ⟨w, hw, hz⟩ := List.exists_of_findSome?_eq_some h
      obtain ⟨g, heq, rfl⟩ := dropFolded?_eq_some_iff.1 hz
      -- the first parenthesis of the text ends both names
      obtain ⟨u, rfl, hu, -⟩ := exists_of_isOpening hf
      obtain ⟨v, rfl, hv, -⟩ := exists_of_isOpening hw
      simp only [List.append_assoc, List.singleton_append] at heq
      rw [(eq_of_append_cons_eq hu hv heq).2]

theorem imageCall?_eq_none_iff {t : Text} :
    imageCall? false t = none ↔ ∀ f r, t = f ++ r → ¬ IsOpening f := by
  rw [imageCall?, if_neg Bool.false_ne_true, Option.map_eq_none_iff,
    Option.eq_none_iff_forall_ne_some]
  constructor
  · intro h f r ht hf
    exact h r (behindImageFunction?_eq_some_iff.2 ⟨f, ht, hf⟩)
  · intro h r hr
    obtain ⟨f, ht, hf⟩ := behindImageFunction?_eq_some_iff.1 hr
    exact h f r ht hf

theorem imageCall?_opening {f : Text} (h : IsOpening f) (r : Text) :
    imageCall? false (f ++ r) = some (f.length + argumentLength 1 r) := by
  rw [imageCall?, behindImageFunction?_eq_some_iff.2 ⟨f, rfl, h⟩]
  simp

theorem imageCall?_none_or (w : Bool) (t : Text) :
    imageCall? w t = none ∨ w = false ∧ ∃ f r, t = f ++ r ∧ IsOpening f := by
  cases w with
  | true => exact .inl rfl
  | false =>
    by_cases h : ∃ f r, t = f ++ r ∧ IsOpening f
    · exact .inr ⟨rfl, h⟩
    · exact .inl (imageCall?_eq_none_iff.2 fun f r ht hf => h ⟨f, r, ht, hf⟩)

theorem stripFrom_eq_drop (n : Nat) (t : Text) :
    stripFrom false n t = stripFrom false 0 (t.drop n) := by
  induction t generalizing n with
  | nil => cases n <;> rfl
  | cons c r ih =>
    cases n with
    | zero => rfl
    | succ n => exact ih n

theorem stripFrom_char {w : Bool} {c : Char} {r : Text} (h : imageCall? w (c :: r) = none) :
    stripFrom w 0 (c :: r) = c :: stripFrom (isWordChar c) 0 r := by
  rw [stripFrom, h]

theorem stripFrom_opening {f : Text} (h : IsOpening f) (r : Text) :
    stripFrom false 0 (f ++ r) = ' ' :: stripFrom false 0 (r.drop (argumentLength 1 r)) := by
  have hcall := imageCall?_opening h r
  obtain ⟨c, f, rfl⟩ := List.exists_cons_of_ne_nil h.ne_nil
  rw [List.cons_append] at hcall ⊢
  rw [stripFrom, hcall]
  have hdrop : (f ++ r).drop ((c :: f).length + argumentLength 1 r - 1) =
      r.drop (argumentLength 1 r) := by
    rw [List.length_cons, Nat.add_right_comm, Nat.add_sub_cancel, List.drop_length_add_append]
  rw [← hdrop, ← stripFrom_eq_drop]

structure IsBalanced (a : Text) : Prop where
  covered : ∀ u, u <+: a → u.count ')' ≤ u.count '('
  closed : a.count ')' = a.count '('

instance (a : Text) : Decidable (IsBalanced a) :=
  decidable_of_iff ((∀ u ∈ a.inits, u.count ')' ≤ u.count '(') ∧ a.count ')' = a.count '(')
    ⟨fun ⟨h1, h2⟩ => ⟨fun u hu => h1 u ((List.mem_inits u a).2 hu), h2⟩,
      fun h => ⟨fun u hu => h.covered u ((List.mem_inits u a).1 hu), h.closed⟩⟩

theorem argumentLength_cons (d : Nat) (c : Char) :
    (c = ')' ∧ d = 0 ∧ ∀ r, argumentLength (d + 1) (c :: r) = 1) ∨
      ∃ e, e + [c].count ')' = d + [c].count '(' ∧
        ∀ r, argumentLength (d + 1) (c :: r) = argumentLength (e + 1) r + 1 := by
  by_cases ho : c = '('
  · subst ho
    exact .inr ⟨d + 1, rfl, fun r => if_pos rfl⟩
  by_cases hc : c = ')'
  · subst hc
    cases d with
    | zero => exact .inl ⟨rfl, rfl, fun r => rfl⟩
    | succ d => exact .inr ⟨d, rfl, fun r => rfl⟩
  · refine .inr ⟨d, ?_, fun r => (if_neg ho).trans (if_neg hc)⟩
    rw [List.count_cons_of_ne ho, List.count_cons_of_ne hc]
    rfl

theorem argumentLength_append (d : Nat) (p : Text) :
    (∃ k ≤ p.length, (∀ r, argumentLength (d + 1) (p ++ r) = k) ∧
        ∃ u, u <+: p ∧ d + u.count '(' < u.count ')') ∨
      ∃ e, e + p.count ')' = d + p.count '(' ∧
        ∀ r, argumentLength (d + 1) (p ++ r) = p.length + argumentLength (e + 1) r := by
  induction p generalizing d with
  | nil => exact .inr ⟨d, rfl, fun r => (Nat.zero_add _).symm⟩
  | cons c p ih =>
    have hcount (d : Char) (u : Text) : (c :: u).count d = [c].count d + u.count d := by
      rw [← List.count_append, List.singleton_append]
    rcases argumentLength_cons d c with ⟨rfl, rfl, hend⟩ | ⟨m, hm, hstep⟩
    · exact .inl ⟨1, by simp, fun r => hend _, [')'], by simp, by decide⟩
    rcases ih m with ⟨k, hk, hlen, u, hu, hlt⟩ | ⟨e, he, hlen⟩
    · refine .inl ⟨k + 1, Nat.succ_le_succ hk, fun r => ?_, c :: u,
        List.cons_prefix_cons.2 ⟨rfl, hu⟩, ?_⟩
      · rw [List.cons_append, hstep, hlen]
      · have hopen := hcount '(' u
        have hclose := hcount ')' u
        omega
    · refine .inr ⟨e, ?_, fun r => ?_⟩
      · have hopen := hcount '(' p
        have hclose := hcount ')' p
        omega
      · rw [List.cons_append, hstep, hlen, List.length_cons, Nat.add_right_comm]

theorem argumentLength_balanced {a : Text} (h : IsBalanced a) (d : Nat) (r : Text) :
    argumentLength (d + 1) (a ++ r) = a.length + argumentLength (d + 1) r := by
  rcases argumentLength_append d a with ⟨-, -, -, u, hu, hlt⟩ | ⟨e, he, hlen⟩
  · have := h.covered u hu
    omega
  · obtain rfl : e = d := by
      have := h.closed
      omega
    exact hlen r

def callText (f a s : Text) : Text := f ++ (a ++ ')' :: s)

theorem argumentLength_callText {f a : Text} (hf : IsOpening f) (ha : IsBalanced a) (d : Nat)
    (s : Text) : argumentLength (d + 1) (callText f a s) =
      f.length + (a.length + (argumentLength (d + 1) s + 1)) := by
  obtain ⟨u, rfl, hopen, hclose, -⟩ := exists_of_isOpening hf
  have hu : IsBalanced u := by
    refine ⟨fun v hv => ?_, ?_⟩
    · rw [List.count_eq_zero.2 fun hm => hclose (hv.subset hm)]
      exact Nat.zero_le _
    · rw [List.count_eq_zero.2 hopen, List.count_eq_zero.2 hclose]
  calc argumentLength (d + 1) (u ++ ['('] ++ (a ++ ')' :: s))
      = u.length + (argumentLength (d + 2) (a ++ ')' :: s) + 1) := by
        rw [List.append_assoc, argumentLength_balanced hu]
        rfl
    _ = u.length + (a.length + (argumentLength (d + 1) s + 1) + 1) := by
        rw [argumentLength_balanced ha]
        rfl
    _ = (u ++ ['(']).length + (a.length + (argumentLength (d + 1) s + 1)) := by
        rw [List.length_append, List.length_singleton]
        omega

theorem stripFrom_callText {f a : Text} (hf : IsOpening f) (ha : IsBalanced a) (s : Text) :
    stripFrom false 0 (callText f a s) = ' ' :: stripFrom false 0 s := by
  rw [callText, stripFrom_opening hf, argumentLength_balanced ha, List.drop_length_add_append]
  rfl

theorem drop_callText {f a : Text} (hf : IsOpening f) (ha : IsBalanced a) (d : Nat) (s : Text) :
    (callText f a s).drop (argumentLength (d + 1) (callText f a s)) =
      s.drop (argumentLength (d + 1) s) := by
  rw [argumentLength_callText hf ha, callText, List.drop_length_add_append,
    List.drop_length_add_append, List.drop_succ_cons]

theorem isPrefix_of_opening {g q z : Text} (hg : IsOpening g) (hq : '(' ∈ q) (h : g <+: q ++ z) :
    g <+: q := by
  obtain ⟨r, hr⟩ := h
  obtain ⟨u, rfl, hu, -⟩ := exists_of_isOpening hg
  obtain ⟨v, x, rfl, hv⟩ := List.eq_append_cons_of_mem hq
  simp only [List.append_assoc, List.cons_append] at hr
  obtain ⟨rfl, -⟩ := eq_of_append_cons_eq hu hv hr
  exact ⟨x, by simp⟩

theorem imageCall?_none_append {w : Bool} {q z : Text} (hq : '(' ∈ q)
    (h : imageCall? w (q ++ z) = none) (y : Text) : imageCall? w (q ++ y) = none := by
  rcases imageCall?_none_or w (q ++ y) with hnone | ⟨rfl, g, r, hr, hg⟩
  · exact hnone
  · obtain ⟨x, rfl⟩ := isPrefix_of_opening hg hq ⟨r, hr.symm⟩
    exact absurd hg (imageCall?_eq_none_iff.1 h g (x ++ z) (List.append_assoc g x z))

theorem exists_of_opening_append {f g p r : Text} (hf : IsOpening f) (hg : IsOpening g)
    (h : p ++ f = g ++ r) : r = [] ∨ ∃ q, p = g ++ q ∧ r = q ++ f := by
  rcases List.append_eq_append_iff.1 h with ⟨q, hgq, hfq⟩ | h
  · rcases List.eq_nil_or_concat' r with rfl | ⟨r, c, rfl⟩
    · exact .inl rfl
    · rcases List.eq_nil_or_concat' q with rfl | ⟨q, d, rfl⟩
      · exact .inr ⟨[], by simpa using hgq.symm, by simpa using hfq.symm⟩
      · obtain ⟨u, rfl, hu, -⟩ := exists_of_isOpening hf
        obtain ⟨v, rfl, -⟩ := exists_of_isOpening hg
        rw [← List.append_assoc] at hgq hfq
        obtain ⟨rfl, -⟩ := List.append_inj' hfq rfl
        obtain ⟨-, hd⟩ := List.append_inj' hgq rfl
        obtain rfl := List.singleton_inj.1 hd
        simp at hu
  · exact .inr h

theorem stripFrom_open_argument {f a b s q : Text} (hf : IsOpening f) (ha : IsBalanced a)
    (hb : IsBalanced b) (h : ∀ x, x <:+ q →
      stripFrom false 0 (x ++ callText f a s) = stripFrom false 0 (x ++ callText f b s)) :
    stripFrom false 0 ((q ++ callText f a s).drop (argumentLength 1 (q ++ callText f a s))) =
      stripFrom false 0
        ((q ++ callText f b s).drop (argumentLength 1 (q ++ callText f b s))) := by
  rcases argumentLength_append 0 q with ⟨k, hk, hlen, -⟩ | ⟨e, -, hlen⟩
  · rw [hlen, hlen, List.drop_append_of_le_length hk, List.drop_append_of_le_length hk]
    exact h _ (List.drop_suffix k q)
  · rw [hlen, hlen, List.drop_length_add_append, List.drop_length_add_append,
      drop_callText hf ha, drop_callText hf hb]

theorem stripFrom_argument {p f a b : Text} (hf : IsOpening f) (ha : IsBalanced a)
    (hb : IsBalanced b) (s : Text) {w : Bool} (hp : afterWord w p = false) :
    stripFrom w 0 (p ++ callText f a s) = stripFrom w 0 (p ++ callText f b s) := by
  induction hn : p.length using Nat.strong_induction_on generalizing p w with
  | h n ih =>
    cases p with
    | nil =>
      obtain rfl : w = false := hp
      rw [List.nil_append, List.nil_append, stripFrom_callText hf ha, stripFrom_callText hf hb]
    | cons c p =>
      have hparen : '(' ∈ c :: p ++ f := by
        obtain ⟨u, rfl, -⟩ := exists_of_isOpening hf
        simp
      have hsplit (z : Text) : c :: p ++ callText f z s = c :: p ++ f ++ (z ++ ')' :: s) :=
        (List.append_assoc _ f _).symm
      rcases imageCall?_none_or w (c :: p ++ callText f a s) with hnone | ⟨rfl, g, r, hr, hg⟩
      · have hnone' : imageCall? w (c :: p ++ callText f b s) = none := by
          rw [hsplit] at hnone ⊢
          exact imageCall?_none_append hparen hnone _
        rw [List.cons_append] at hnone hnone' ⊢
        rw [List.cons_append, stripFrom_char hnone, stripFrom_char hnone']
        exact congrArg (c :: ·) (ih p.length (hn ▸ Nat.lt_succ_self _)
          ((afterWord_append w [c] p).symm.trans hp) rfl)
      · rw [hsplit] at hr
        obtain ⟨x, hx⟩ := isPrefix_of_opening hg hparen ⟨r, hr.symm⟩
        rcases exists_of_opening_append hf hg hx.symm with rfl | ⟨q, hq, rfl⟩
        · rw [hsplit, hsplit, ← hx, List.append_nil]
          exact (stripFrom_callText hg ha s).trans (stripFrom_callText hg hb s).symm
        · rw [hq, List.append_assoc, List.append_assoc, stripFrom_opening hg, stripFrom_opening hg]
          refine congrArg (' ' :: ·) (stripFrom_open_argument hf ha hb fun y hy => ?_)
          have hlt : y.length < n := by
            have hpos := List.length_pos_iff.2 hg.ne_nil
            have hlen := hy.length_le
            rw [← hn, hq, List.length_append]
            omega
          obtain ⟨z, rfl⟩ := hy
          rw [hq, ← List.append_assoc, afterWord_append] at hp
          exact ih y.length hlt (afterWord_false_of hp) rfl

def stripFirst? (afterWord : Bool) : Text → Option Text
  | [] => none
  | c :: r =>
    match imageCall? afterWord (c :: r) with
    | some n => some (' ' :: (c :: r).drop n)
    | none => (stripFirst? (isWordChar c) r).map (c :: ·)

inductive Strips : Nat → Text → Text → Prop
  | done {t : Text} : stripFirst? false t = none → Strips 0 t t
  | round {n : Nat} {t u r : Text} : stripFirst? false t = some u → Strips n u r →
      Strips (n + 1) t r

theorem stripFirst?_char {w : Bool} {c : Char} {r : Text} (h : imageCall? w (c :: r) = none) :
    stripFirst? w (c :: r) = (stripFirst? (isWordChar c) r).map (c :: ·) := by
  rw [stripFirst?, h]

theorem stripFirst?_opening {f : Text} (h : IsOpening f) (r : Text) :
    stripFirst? false (f ++ r) = some (' ' :: r.drop (argumentLength 1 r)) := by
  have hcall := imageCall?_opening h r
  obtain ⟨c, f, rfl⟩ := List.exists_cons_of_ne_nil h.ne_nil
  rw [List.cons_append] at hcall ⊢
  rw [stripFirst?, hcall, ← List.cons_append]
  exact congrArg (some <| ' ' :: ·) (List.drop_length_add_append _)

theorem imageCall?_none_blank {w : Bool} {v z : Text} (h : imageCall? w (v ++ z) = none)
    (y : Text) : imageCall? w (v ++ ' ' :: y) = none := by
  rcases imageCall?_none_or w (v ++ ' ' :: y) with hnone | ⟨rfl, g, r, hr, hg⟩
  · exact hnone
  · obtain ⟨u, rfl, -, -, hblank, -⟩ := exists_of_isOpening hg
    obtain ⟨x, rfl⟩ := isPrefix_of_append_cons (by simpa using hblank) ⟨r, hr.symm⟩
    exact absurd hg (imageCall?_eq_none_iff.1 h _ (x ++ z) (List.append_assoc _ x z))

theorem stripFrom_blank (w : Bool) (t : Text) :
    stripFrom w 0 (' ' :: t) = ' ' :: stripFrom false 0 t := by
  have hnone : imageCall? w ([] ++ []) = none := by cases w <;> rfl
  exact stripFrom_char (imageCall?_none_blank hnone t)

theorem exists_of_stripFirst? {w : Bool} {t u : Text} (h : stripFirst? w t = some u) :
    ∃ v f x, t = v ++ (f ++ x) ∧ IsOpening f ∧ u = v ++ ' ' :: x.drop (argumentLength 1 x) := by
  induction t generalizing w u with
  | nil => cases h
  | cons c r ih =>
    rcases imageCall?_none_or w (c :: r) with hnone | ⟨rfl, f, x, hr, hf⟩
    · rw [stripFirst?_char hnone] at h
      obtain ⟨u, hu, rfl⟩ := Option.map_eq_some_iff.1 h
      obtain ⟨v, f, x, rfl, hf, rfl⟩ := ih hu
      exact ⟨c :: v, f, x, rfl, hf, rfl⟩
    · rw [hr, stripFirst?_opening hf] at h
      exact ⟨[], f, x, hr, hf, (Option.some.inj h).symm⟩

theorem length_of_stripFirst? {w : Bool} {t u : Text} (h : stripFirst? w t = some u) :
    u.length + 3 ≤ t.length := by
  obtain ⟨v, f, x, rfl, hf, rfl⟩ := exists_of_stripFirst? h
  obtain ⟨u, rfl, -, -, -, hlen⟩ := exists_of_isOpening hf
  simp only [List.length_append, List.length_cons, List.length_drop, List.length_nil]
  omega

theorem stripFrom_eq_self {w : Bool} {t : Text} (h : stripFirst? w t = none) :
    stripFrom w 0 t = t := by
  induction t generalizing w with
  | nil => rfl
  | cons c r ih =>
    rcases imageCall?_none_or w (c :: r) with hnone | ⟨rfl, f, x, hr, hf⟩
    · rw [stripFirst?_char hnone, Option.map_eq_none_iff] at h
      rw [stripFrom_char hnone, ih h]
    · rw [hr, stripFirst?_opening hf] at h
      cases h

theorem stripFrom_of_stripFirst? {w : Bool} {t u : Text} (h : stripFirst? w t = some u) :
    stripFrom w 0 u = stripFrom w 0 t := by
  induction t generalizing w u with
  | nil => cases h
  | cons c r ih =>
    rcases imageCall?_none_or w (c :: r) with hnone | ⟨rfl, f, x, hr, hf⟩
    · rw [stripFirst?_char hnone] at h
      obtain ⟨u, hu, rfl⟩ := Option.map_eq_some_iff.1 h
      -- the blank does not let a call start in front of it
      have hnone' : imageCall? w (c :: u) = none := by
        obtain ⟨v, f, x, rfl, -, rfl⟩ := exists_of_stripFirst? hu
        exact imageCall?_none_blank (v := c :: v) hnone _
      rw [stripFrom_char hnone, stripFrom_char hnone', ih hu]
    · rw [hr, stripFirst?_opening hf] at h
      rw [hr, ← Option.some.inj h, stripFrom_opening hf, stripFrom_blank]

theorem exists_strips (t : Text) :
    ∃ n, 3 * n + (stripImageCalls t).length ≤ t.length ∧ Strips n t (stripImageCalls t) := by
  induction hn : t.length using Nat.strong_induction_on generalizing t with
  | h m ih =>
    rw [stripImageCalls]
    cases h : stripFirst? false t with
    | none =>
      rw [stripFrom_eq_self h]
      exact ⟨0, by omega, .done h⟩
    | some u =>
      have hlen := length_of_stripFirst? h
      obtain ⟨n, hle, hs⟩ := ih u.length (by omega) u rfl
      rw [stripImageCalls, stripFrom_of_stripFirst? h] at hle hs
      exact ⟨n + 1, by omega, .round h hs⟩

theorem Strips.stripFirst?_eq_none {n : Nat} {t r : Text} (h : Strips n t r) :
    stripFirst? false r = none := by
  induction h with
  | done h => exact h
  | round _ _ ih => exact ih

theorem not_isOpening_of_stripFirst? {w : Bool} {p f r : Text}
    (h : stripFirst? w (p ++ (f ++ r)) = none) (hp : afterWord w p = false) : ¬ IsOpening f := by
  intro hf
  induction p generalizing w with
  | nil =>
    obtain rfl : w = false := hp
    rw [List.nil_append, stripFirst?_opening hf] at h
    cases h
  | cons c p ih =>
    rcases imageCall?_none_or w (c :: (p ++ (f ++ r))) with hnone | ⟨rfl, g, x, hx, hg⟩
    · rw [List.cons_append, stripFirst?_char hnone, Option.map_eq_none_iff] at h
      exact ih h ((afterWord_append w [c] p).symm.trans hp)
    · rw [List.cons_append, hx, stripFirst?_opening hg] at h
      cases h

/-- Replacing the first call by a blank again and again ends after as many rounds as the text has
room for, with the text that is stripped at once, and there is no call left in it. The argument of
a call does not matter as long as its parentheses are balanced. -/
theorem stripImageCalls_leaves_no_call :
    (∀ t, (∃ n, 3 * n + (stripImageCalls t).length ≤ t.length ∧ Strips n t (stripImageCalls t)) ∧
      ¬ HoldsCall (stripImageCalls t)) ∧
    ∀ p f s a b : Text, (∀ c ∈ p.getLast?, isWordChar c = false) → IsOpening (f ++ ['(']) →
      IsBalanced a → IsBalanced b →
      stripImageCalls (p ++ (f ++ '(' :: (a ++ ')' :: s))) =
        stripImageCalls (p ++ (f ++ '(' :: (b ++ ')' :: s))) := by
  constructor
  · intro t
    obtain ⟨n, hle, hs⟩ := exists_strips t
    refine ⟨⟨n, hle, hs⟩, ?_⟩
    rintro ⟨p, f, r, ht, hp, hf⟩
    have hnone := hs.stripFirst?_eq_none
    rw [ht] at hnone
    exact not_isOpening_of_stripFirst? hnone (afterWord_false_iff.2 hp) hf
  · intro p f s a b hp hf ha hb
    have h := stripFrom_argument hf ha hb s (afterWord_false_iff.2 hp)
    simpa [stripImageCalls, callText] using h

def gradientFront : Text := "red URL(x) repeating-".toList

def gradientStops : Text := "90deg, rgb(1,2,3), url(y)".toList

theorem stripImageCalls_leaves_no_call_of_gradient :
    ((∀ c ∈ gradientFront.getLast?, isWordChar c = false) ∧
        IsOpening ("Linear-Gradient".toList ++ ['(']) ∧ IsBalanced gradientStops ∧
        IsBalanced []) ∧
      stripImageCalls (gradientFront ++
          ("Linear-Gradient".toList ++ '(' :: (gradientStops ++ ')' :: " url(z".toList))) =
        stripImageCalls (gradientFront ++
          ("Linear-Gradient".toList ++ '(' :: ([] ++ ')' :: " url(z".toList))) := by
  have h : (∀ c ∈ gradientFront.getLast?, isWordChar c = false) ∧
      IsOpening ("Linear-Gradient".toList ++ ['(']) ∧ IsBalanced gradientStops ∧
      IsBalanced [] := by
    refine ⟨?_, by decide, by decide, by decide⟩
    rintro c ⟨⟩
    decide
  refine ⟨h, ?_⟩
  obtain ⟨hp, hf, ha, hb⟩ := h
  exact stripImageCalls_leaves_no_call.2 _ _ _ _ _ hp hf ha hb

end MailMarkup.Background
