namespace MailMarkup

abbrev Text := List Char

namespace Text

def inRanges (rs : List (Nat × Nat)) (c : Char) : Bool :=
  rs.any fun r => r.1 ≤ c.toNat && c.toNat ≤ r.2

def ofNat (n : Nat) : Text := (Nat.toDigits 10 n)

def ofInt (n : Int) : Text := if n < 0 then '-' :: ofNat n.natAbs else ofNat n.natAbs

theorem isPrefix_of_append_cons {c : Char} {w s r : Text} (hw : c ∉ w) (h : w <+: s ++ c :: r) :
    w <+: s := by
  rcases List.prefix_or_prefix_of_prefix h (List.prefix_append s _) with hs | ⟨u, rfl⟩
  · exact hs
  · cases u with
    | nil => simp
    | cons d u =>
      obtain ⟨rfl, -⟩ := List.cons_prefix_cons.1 ((List.prefix_append_right_inj s).1 h)
      exact absurd (List.mem_append_right s List.mem_cons_self) hw

def occursIn (w : Text) : Text → Bool
  | [] => w.isEmpty
  | c :: r => w.isPrefixOf (c :: r) || occursIn w r

/-- Deletes every occurrence of `w`, from left to right; the number counts characters of an
occurrence still to be passed over. -/
def eraseFrom (w : Text) : Nat → Text → Text
  | _, [] => []
  | n + 1, _ :: r => eraseFrom w n r
  | 0, c :: r =>
    if w.isPrefixOf (c :: r) then eraseFrom w (w.length - 1) r else c :: eraseFrom w 0 r

def eraseAll (w t : Text) : Text := eraseFrom w 0 t

def breakAt (c : Char) (t : Text) : Text × Option Text :=
  match t.dropWhile (· != c) with
  | [] => (t, none)
  | _ :: r => (t.takeWhile (· != c), some r)

def splitOn (c : Char) (t : Text) : List Text := List.splitOn c t

def fields (sep : Char → Bool) : Text → List Text
  | [] => []
  | c :: r =>
    if sep c then fields sep r
    else if r.head?.all sep then [c] :: fields sep r
    else match fields sep r with
      | [] => [[c]]
      | w :: ws => (c :: w) :: ws

theorem not_sep_of_mem_fields {sep : Char → Bool} {t w : Text} (h : w ∈ fields sep t) :
    w ≠ [] ∧ ∀ c ∈ w, sep c = false := by
  induction t generalizing w with
  | nil => simp [fields] at h
  | cons c r ih =>
    unfold fields at h
    split at h
    · exact ih h
    · rename_i hc
      simp only [Bool.not_eq_true] at hc
      split at h
      · rcases List.mem_cons.1 h with rfl | h
        · simp [hc]
        · exact ih h
      · split at h
        · simp_all
        · rename_i hs
          rcases List.mem_cons.1 h with rfl | h
          · have := ih (hs ▸ List.mem_cons_self)
            simp_all
          · exact ih (hs ▸ List.mem_cons_of_mem _ h)

theorem fields_eq_nil_iff {sep : Char → Bool} {t : Text} :
    fields sep t = [] ↔ t.all sep = true := by
  induction t with
  | nil => simp [fields]
  | cons c r ih =>
    rw [fields, List.all_cons]
    split
    · rename_i hc
      rw [ih, hc, Bool.true_and]
    · rename_i hc
      split
      · simp [hc]
      · split <;> simp [hc]

theorem mem_of_mem_fields {sep : Char → Bool} {t w : Text} {c : Char} (hw : w ∈ fields sep t)
    (hc : c ∈ w) : c ∈ t := by
  induction t generalizing w with
  | nil => cases hw
  | cons d r ih =>
    rw [fields] at hw
    split at hw
    · exact List.mem_cons_of_mem _ (ih hw hc)
    · split at hw
      · rcases List.mem_cons.1 hw with rfl | hw
        · exact List.mem_singleton.1 hc ▸ List.mem_cons_self
        · exact List.mem_cons_of_mem _ (ih hw hc)
      · split at hw
        · exact List.mem_singleton.1 (List.mem_singleton.1 hw ▸ hc) ▸ List.mem_cons_self
        · rename_i v vs hv
          rcases List.mem_cons.1 hw with rfl | hw
          · rcases List.mem_cons.1 hc with rfl | hc
            · exact List.mem_cons_self
            · exact List.mem_cons_of_mem _ (ih (hv ▸ List.mem_cons_self) hc)
          · exact List.mem_cons_of_mem _ (ih (hv ▸ List.mem_cons_of_mem _ hw) hc)

def afterLast (c : Char) (t : Text) : Text := (t.reverse.takeWhile (· != c)).reverse

def dropEndWhile (p : Char → Bool) (t : Text) : Text := (t.reverse.dropWhile p).reverse

def join (sep : Text) (ts : List Text) : Text := sep.intercalate ts

theorem join_append {c : Char} {ss ts : List Text} (hs : ss ≠ []) (ht : ts ≠ []) :
    join [c] (ss ++ ts) = join [c] ss ++ c :: join [c] ts := by
  induction ss with
  | nil => exact absurd rfl hs
  | cons s ss ih =>
    cases ss with
    | nil =>
      cases ts with
      | nil => exact absurd rfl ht
      | cons t ts => simp [join, List.intercalate]
    | cons r ss =>
      have ih := ih (List.cons_ne_nil _ _)
      simp only [join, List.cons_append, List.intercalate_cons_cons, List.append_assoc] at ih ⊢
      rw [ih]

theorem join_isPrefix {c : Char} {ss ts : List Text} (h : ss <+: ts) :
    join [c] ss <+: join [c] ts := by
  obtain ⟨us, rfl⟩ := h
  cases ss with
  | nil => exact List.nil_prefix
  | cons s ss =>
    cases us with
    | nil => simp
    | cons u us =>
      rw [join_append (List.cons_ne_nil _ _) (List.cons_ne_nil _ _)]
      exact List.prefix_append _ _

theorem join_eq_nil {c : Char} {ts : List Text} (h : ∀ t ∈ ts, t ≠ []) :
    join [c] ts = [] ↔ ts = [] := by
  cases ts with
  | nil => simp [join]
  | cons t ts =>
    have ht := h t List.mem_cons_self
    cases ts <;> simp [join, List.intercalate, ht]

theorem mem_join {c d : Char} {ts : List Text} (h : d ∈ join [c] ts) :
    d = c ∨ ∃ t ∈ ts, d ∈ t := by
  induction ts with
  | nil => simp [join] at h
  | cons t ts ih =>
    cases ts with
    | nil => exact .inr ⟨t, List.mem_cons_self, by simpa [join] using h⟩
    | cons s ts =>
      rw [show t :: s :: ts = [t] ++ s :: ts from rfl,
        join_append (List.cons_ne_nil _ _) (List.cons_ne_nil _ _), List.mem_append,
        List.mem_cons] at h
      rcases h with h | h | h
      · exact .inr ⟨t, List.mem_cons_self, by simpa [join] using h⟩
      · exact .inl h
      · rcases ih h with h | ⟨u, hu, h⟩
        · exact .inl h
        · exact .inr ⟨u, List.mem_cons_of_mem _ hu, h⟩

end Text

end MailMarkup
