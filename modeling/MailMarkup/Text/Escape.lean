import MailMarkup.Text.Basic

namespace MailMarkup.Text

def escapedChar (c : Char) : Text :=
  if c = '&' then "&amp;".toList
  else if c = '<' then "&lt;".toList
  else if c = '>' then "&gt;".toList
  else if c = '"' then "&quot;".toList
  else [c]

def escapeHtml (t : Text) : Text := t.flatMap escapedChar

def escapeQuotes (t : Text) : Text := t.flatMap fun c => if c = '"' then "&quot;".toList else [c]

theorem not_mem_escapeHtml {d : Char} (hd : d ∈ ['<', '>', '"']) (t : Text) :
    d ∉ escapeHtml t := by
  simp only [List.mem_cons, List.not_mem_nil, or_false] at hd
  have hreference : ∀ w ∈ ["&amp;".toList, "&lt;".toList, "&gt;".toList, "&quot;".toList],
      d ∉ w := by
    rcases hd with rfl | rfl | rfl <;> decide
  intro h
  obtain ⟨c, -, hc⟩ := List.mem_flatMap.1 h
  unfold escapedChar at hc
  split at hc
  · exact hreference _ (by simp) hc
  split at hc
  · exact hreference _ (by simp) hc
  split at hc
  · exact hreference _ (by simp) hc
  split at hc
  · exact hreference _ (by simp) hc
  · rename_i hlt hgt hquote
    obtain rfl := List.mem_singleton.1 hc
    rcases hd with hd | hd | hd
    · exact hlt hd
    · exact hgt hd
    · exact hquote hd

theorem escapeQuotes_cons (c : Char) (t : Text) :
    escapeQuotes (c :: t) = (if c = '"' then "&quot;".toList else [c]) ++ escapeQuotes t :=
  List.flatMap_cons

theorem escapeQuotes_quote (t : Text) :
    escapeQuotes ('"' :: t) = '&' :: 'q' :: 'u' :: 'o' :: 't' :: ';' :: escapeQuotes t := rfl

theorem escapeQuotes_cons_of_ne {c : Char} (h : c ≠ '"') (t : Text) :
    escapeQuotes (c :: t) = c :: escapeQuotes t := by
  rw [escapeQuotes_cons, if_neg h]
  rfl

theorem escapeQuotes_append (s t : Text) :
    escapeQuotes (s ++ t) = escapeQuotes s ++ escapeQuotes t :=
  List.flatMap_append

theorem quote_not_mem_escapeQuotes (t : Text) : '"' ∉ escapeQuotes t := by
  intro h
  obtain ⟨c, _, hc⟩ := List.mem_flatMap.1 h
  split at hc
  · simp at hc
  · rename_i hn
    exact hn (List.mem_singleton.1 hc).symm

theorem escapeQuotes_eq_self {t : Text} (h : '"' ∉ t) : escapeQuotes t = t := by
  induction t with
  | nil => rfl
  | cons c r ih =>
    rw [List.mem_cons, not_or] at h
    rw [escapeQuotes_cons_of_ne (Ne.symm h.1), ih h.2]

end MailMarkup.Text
