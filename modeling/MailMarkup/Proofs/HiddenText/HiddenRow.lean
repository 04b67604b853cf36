import MailMarkup.Proofs.Run.StageNodes

namespace MailMarkup.HiddenText

open Text Markup

theorem isClean_rowNodes (t : Text) : IsClean (rowNodes t) :=
  fun n hn => (isPlainFiller_rowNodes t n hn).1.1

theorem tokensOf_map_char (start : Nat) (t : Text) : tokensOf start (t.map .char) = [] := by
  induction t generalizing start with
  | nil => rfl
  | cons c t ih => exact ih _

theorem tokensOf_opening :
    tokensOf 0 [.tag false "tr".toList [], hiddenCell, hiddenBlock] = [
      ⟨⟨"tr".toList, [], false, false⟩, 0, 4⟩,
      ⟨⟨"td".toList, " style=\"padding:0;\"".toList, false, false⟩, 4, 27⟩,
      ⟨⟨"div".toList, " style=\"".toList ++ style ++ "\"".toList, false, false⟩, 27,
        rowOpening.length⟩] := by
  decide +kernel

theorem tokensOf_closing (n : Nat) :
    tokensOf n [.tag true "div".toList [], .tag true "td".toList [], .tag true "tr".toList []] = [
      ⟨⟨"div".toList, [], true, false⟩, n, n + 6⟩,
      ⟨⟨"td".toList, [], true, false⟩, n + 6, n + 11⟩,
      ⟨⟨"tr".toList, [], true, false⟩, n + 11, n + 16⟩] :=
  rfl

theorem slice_row (t : Text) :
    ((row t).take (rowOpening.length + (escapeHtml t).length)).drop rowOpening.length =
      escapeHtml t := by
  rw [row, ← List.length_append, List.take_left, List.drop_left]

/-- A text stays between the tags of its block, and is decoded to itself there. -/
theorem row_tokens_around_text (t : Text) :
    ∃ m n, m ≤ n ∧ n + 16 = (row t).length ∧
      tokens [] (row t) = [
        ⟨⟨"tr".toList, [], false, false⟩, 0, 4⟩,
        ⟨⟨"td".toList, " style=\"padding:0;\"".toList, false, false⟩, 4, 27⟩,
        ⟨⟨"div".toList, " style=\"".toList ++ style ++ "\"".toList, false, false⟩, 27, m⟩,
        ⟨⟨"div".toList, [], true, false⟩, n, n + 6⟩,
        ⟨⟨"td".toList, [], true, false⟩, n + 6, n + 11⟩,
        ⟨⟨"tr".toList, [], true, false⟩, n + 11, n + 16⟩] ∧
      Entity.decode (((row t).take n).drop m) = .ok t := by
  refine ⟨rowOpening.length, rowOpening.length + (escapeHtml t).length, Nat.le_add_right _ _,
    ?_, ?_, by rw [slice_row, Entity.decode_escapeHtml]⟩
  · rw [row, List.length_append, List.length_append]
    rfl
  · have hall : tokens [] (row t) = tokensOf 0 (rowNodes t) := by
      rw [← sources_rowNodes, tokens_sources (isClean_rowNodes t)]
      exact List.filter_eq_self.2 fun _ _ => rfl
    have hopening : (sources [.tag false "tr".toList [], hiddenCell, hiddenBlock]).length =
        rowOpening.length := by decide +kernel
    rw [hall, rowNodes, tokensOf_append, tokensOf_append, tokensOf_map_char, tokensOf_opening,
      tokensOf_closing, sources_append, sources_map_char, List.length_append, hopening,
      Nat.zero_add]
    rfl

end MailMarkup.HiddenText
