import Mathlib.Order.Bounds.Defs
import MailMarkup.Text.Excerpt

namespace MailMarkup.Text

variable {t : Text} {maxWords maxChars : Int}

theorem gather_cons (limit : Int) {us : List Text} (h : ∀ u ∈ us, u ≠ []) (w : Text)
    (ws : List Text) :
    gather limit (join [' '] us) (w :: ws) =
      if limit < (join [' '] (us ++ [w])).length then join [' '] us
      else gather limit (join [' '] (us ++ [w])) ws := by
  have hnext : (if (join [' '] us).isEmpty then w else join [' '] us ++ ' ' :: w) =
      join [' '] (us ++ [w]) := by
    cases us with
    | nil => simp [join]
    | cons u us =>
      have hne : join [' '] (u :: us) ≠ [] := fun hnil =>
        List.cons_ne_nil _ _ ((join_eq_nil h).1 hnil)
      rw [if_neg (by simpa using hne), join_append (List.cons_ne_nil _ _) (List.cons_ne_nil _ _)]
      simp [join]
  rw [gather, hnext]

theorem exists_gather (limit : Int) (us ws : List Text) (h : ∀ w ∈ us ++ ws, w ≠ []) :
    ∃ k ≤ ws.length, gather limit (join [' '] us) ws = join [' '] (us ++ ws.take k) ∧
      (0 < k → (join [' '] (us ++ ws.take k)).length ≤ limit) ∧
      (k < ws.length → limit < (join [' '] (us ++ ws.take (k + 1))).length) := by
  induction ws generalizing us with
  | nil => exact ⟨0, Nat.le_refl _, by simp [gather], nofun, nofun⟩
  | cons w ws ih =>
    rw [gather_cons limit fun u hu => h u (List.mem_append_left _ hu)]
    split
    · rename_i hlong
      exact ⟨0, Nat.zero_le _, by simp, nofun, fun _ => by simpa using hlong⟩
    · rename_i hfits
      obtain ⟨k, hk, heq, hin, hout⟩ := ih (us ++ [w]) (by simpa using h)
      simp only [List.append_assoc, List.singleton_append] at heq hin hout
      refine ⟨k + 1, Nat.succ_le_succ hk, heq, fun _ => ?_,
        fun hlt => hout (Nat.lt_of_succ_lt_succ hlt)⟩
      cases k with
      | zero => simpa using hfits
      | succ k => exact hin (Nat.succ_pos k)

def firstWords (t : Text) (k : Nat) : Text := join [' '] ((words t).take k)

def Fits (t : Text) (maxWords maxChars : Int) (k : Nat) : Prop :=
  k ≤ (words t).length ∧ k ≤ maxWords ∧ (firstWords t k).length ≤ maxChars

theorem ne_nil_of_mem_words {w : Text} (h : w ∈ words t) : w ≠ [] := (not_sep_of_mem_fields h).1

theorem length_firstWords_le (t : Text) {j k : Nat} (h : j ≤ k) :
    (firstWords t j).length ≤ (firstWords t k).length :=
  (join_isPrefix (List.take_prefix_take_left h)).length_le

theorem firstWords_ne_nil {k : Nat} (ht : words t ≠ []) (hk : 1 ≤ k) : firstWords t k ≠ [] := by
  have hne : ∀ w ∈ (words t).take k, w ≠ [] := fun w hw =>
    ne_nil_of_mem_words (List.mem_of_mem_take hw)
  rw [firstWords, Ne, join_eq_nil hne, List.take_eq_nil_iff]
  rintro (rfl | hnil)
  · exact absurd hk (by decide)
  · exact ht hnil

theorem exists_isGreatest_gather (t : Text) (hw : 1 ≤ maxWords) (hc : 1 ≤ maxChars) :
    ∃ k, IsGreatest {k | Fits t maxWords maxChars k} k ∧
      gather maxChars [] (upTo (words t) maxWords) = firstWords t k := by
  obtain ⟨n, rfl⟩ := Int.eq_ofNat_of_zero_le (Int.le_trans (by decide) hw)
  have hne : ∀ w ∈ [] ++ (words t).take n, w ≠ [] := fun w hw =>
    ne_nil_of_mem_words (List.mem_of_mem_take hw)
  obtain ⟨k, hk, heq, hin, hout⟩ := exists_gather maxChars [] ((words t).take n) hne
  have htake {j : Nat} (hj : j ≤ n) : join [' '] (((words t).take n).take j) = firstWords t j := by
    rw [List.take_take, Nat.min_eq_left hj, firstWords]
  rw [List.length_take] at hk hout
  refine ⟨k, ⟨⟨by omega, by omega, ?_⟩, ?_⟩, ?_⟩
  · rcases Nat.eq_zero_or_pos k with rfl | hpos
    · simp [firstWords, join]
      omega
    · rw [← htake (by omega)]
      exact hin hpos
  · rintro j ⟨hlen, hwords, hfits⟩
    -- else the word behind the first `k` would have been added
    refine Nat.le_of_not_lt fun hlt => ?_
    have hlong := hout (by omega)
    rw [List.nil_append, htake (by omega)] at hlong
    have := length_firstWords_le t (show k + 1 ≤ j by omega)
    omega
  · rw [upTo_natCast, ← htake (by omega)]
    exact heq

theorem excerpt_eq (t : Text) (maxWords maxChars : Int) :
    excerpt t maxWords maxChars =
      if gather maxChars [] (upTo (words t) maxWords) = [] then
        upTo ((words t).head?.getD []) maxChars
      else gather maxChars [] (upTo (words t) maxWords) := by
  rw [excerpt]
  cases words t with
  | nil => simp [upTo, gather]
  | cons w ws => cases gather maxChars [] (upTo (w :: ws) maxWords) <;> rfl

theorem excerpt_eq_firstWords (hw : 1 ≤ maxWords) (hc : 1 ≤ maxChars)
    (hfirst : ∀ w ∈ (words t).head?, w.length ≤ maxChars) :
    ∃ k, IsGreatest {k | Fits t maxWords maxChars k} k ∧
      excerpt t maxWords maxChars = firstWords t k ∧ (words t ≠ [] → 1 ≤ k) := by
  obtain ⟨k, hk, hg⟩ := exists_isGreatest_gather t hw hc
  refine ⟨k, hk, ?_⟩
  rw [excerpt_eq, hg]
  cases ht : words t with
  | nil =>
    have hnil : firstWords t k = [] := by simp [firstWords, ht, join]
    simp [hnil, upTo]
  | cons w ws =>
    have hone : Fits t maxWords maxChars 1 := by
      refine ⟨by simp [ht], hw, ?_⟩
      simpa [firstWords, ht, join] using hfirst w (by rw [ht]; rfl)
    have hpos : 1 ≤ k := hk.2 hone
    exact ⟨if_neg (firstWords_ne_nil (by simp [ht]) hpos), fun _ => hpos⟩

theorem excerpt_eq_take (hw : 1 ≤ maxWords) (hc : 1 ≤ maxChars) {w : Text}
    (hfirst : w ∈ (words t).head?) (hlong : maxChars < w.length) :
    excerpt t maxWords maxChars = w.take maxChars.toNat := by
  obtain ⟨k, hk, hg⟩ := exists_isGreatest_gather t hw hc
  obtain ⟨ws, ht⟩ := List.head?_eq_some_iff.1 hfirst
  have hnone : k = 0 := by
    refine Nat.eq_zero_of_not_pos fun hpos => ?_
    have hle := length_firstWords_le t (show 1 ≤ k from hpos)
    have hone : firstWords t 1 = w := by simp [firstWords, ht, join]
    have hfits := hk.1.2.2
    rw [hone] at hle
    omega
  obtain ⟨n, rfl⟩ := Int.eq_ofNat_of_zero_le (Int.le_trans (by decide) hc)
  rw [excerpt_eq, hg, hnone, if_pos (show firstWords t 0 = [] from rfl), ht]
  exact upTo_natCast w n

theorem exists_long_or (t : Text) (limit : Int) :
    (∃ w ∈ (words t).head?, limit < w.length) ∨ ∀ w ∈ (words t).head?, w.length ≤ limit := by
  cases words t with
  | nil => exact .inr nofun
  | cons w ws =>
    rcases Int.lt_or_le limit w.length with h | h
    · exact .inl ⟨w, rfl, h⟩
    · exact .inr fun v hv => Option.some.inj hv ▸ h

theorem length_excerpt_le (hw : 1 ≤ maxWords) (hc : 1 ≤ maxChars) (t : Text) :
    (excerpt t maxWords maxChars).length ≤ maxChars := by
  rcases exists_long_or t maxChars with ⟨w, hfirst, hlong⟩ | hfirst
  · rw [excerpt_eq_take hw hc hfirst hlong, List.length_take]
    omega
  · obtain ⟨k, hk, heq, -⟩ := excerpt_eq_firstWords hw hc hfirst
    rw [heq]
    exact hk.1.2.2

theorem excerpt_eq_nil_iff (hw : 1 ≤ maxWords) (hc : 1 ≤ maxChars) (t : Text) :
    excerpt t maxWords maxChars = [] ↔ allBlank t = true := by
  have hblank : allBlank t = true ↔ words t = [] := fields_eq_nil_iff.symm
  rw [hblank]
  constructor
  · intro hnil
    rcases exists_long_or t maxChars with ⟨w, hfirst, hlong⟩ | hfirst
    · have hlen := congrArg List.length (excerpt_eq_take hw hc hfirst hlong)
      rw [hnil, List.length_take] at hlen
      simp only [List.length_nil] at hlen
      omega
    · obtain ⟨k, -, heq, hpos⟩ := excerpt_eq_firstWords hw hc hfirst
      exact Classical.byContradiction fun hne => firstWords_ne_nil hne (hpos hne) (heq ▸ hnil)
  · intro hnil
    have hgather : gather maxChars [] (upTo (words t) maxWords) = [] := by simp [hnil, upTo, gather]
    rw [excerpt_eq, hgather, hnil]
    simp [upTo]

/-- An excerpt holds the first words, one blank apart, as many as are within both limits, or the
front of a first word that is too long on its own. -/
theorem excerpt_longest (hw : 1 ≤ maxWords) (hc : 1 ≤ maxChars) (t : Text) :
    ((∀ w ∈ (words t).head?, w.length ≤ maxChars) →
        ∃ k, IsGreatest {k | Fits t maxWords maxChars k} k ∧
          excerpt t maxWords maxChars = firstWords t k) ∧
      (∀ w ∈ (words t).head?, maxChars < w.length →
        excerpt t maxWords maxChars = w.take maxChars.toNat) ∧
      (excerpt t maxWords maxChars).length ≤ maxChars ∧
      (excerpt t maxWords maxChars = [] ↔ allBlank t = true) := by
  refine ⟨fun hfirst => ?_, fun w => excerpt_eq_take hw hc, length_excerpt_le hw hc t,
    excerpt_eq_nil_iff hw hc t⟩
  obtain ⟨k, hk, heq, -⟩ := excerpt_eq_firstWords hw hc hfirst
  exact ⟨k, hk, heq⟩

def briefText : Text := "\t alpha  beta\ngamma delta ".toList

theorem excerpt_longest_at_limit :
    ((1 : Int) ≤ 3 ∧ (1 : Int) ≤ 10 ∧ (1 : Int) ≤ 4 ∧
        (∀ w ∈ (words briefText).head?, (w.length : Int) ≤ 10) ∧
        "alpha".toList ∈ (words briefText).head? ∧ (4 : Int) < "alpha".toList.length) ∧
      (∃ k, IsGreatest {k | Fits briefText 3 10 k} k ∧
        excerpt briefText 3 10 = firstWords briefText k) ∧
      excerpt briefText 3 4 = "alpha".toList.take 4 ∧
      (excerpt briefText 3 10).length ≤ (10 : Int) ∧
      (excerpt briefText 3 10 = [] ↔ allBlank briefText = true) := by
  have h : (1 : Int) ≤ 3 ∧ (1 : Int) ≤ 10 ∧ (1 : Int) ≤ 4 ∧
      (∀ w ∈ (words briefText).head?, (w.length : Int) ≤ 10) ∧
      "alpha".toList ∈ (words briefText).head? ∧ (4 : Int) < "alpha".toList.length := by
    refine ⟨by decide, by decide, by decide, ?_, by decide, by decide⟩
    rintro w ⟨⟩
    decide
  refine ⟨h, ?_⟩
  obtain ⟨h3, h10, h4, hfits, hfirst, hlong⟩ := h
  obtain ⟨hwords, -, hlen, hnil⟩ := excerpt_longest h3 h10 briefText
  exact ⟨hwords hfits, (excerpt_longest h3 h4 briefText).2.1 _ hfirst hlong, hlen, hnil⟩

end MailMarkup.Text
