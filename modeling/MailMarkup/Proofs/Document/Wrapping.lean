import MailMarkup.Proofs.Document.Declarations
import MailMarkup.Proofs.Document.Parts

namespace MailMarkup.Markup

open Text

theorem editTags_erase {ns : List Node} (hc : IsClean ns) (names : List Text) (p : Tag → Bool) :
    editTags names (sources ns)
        ((tokens names (sources ns)).map fun k => if p k.toTag then some [] else none) =
      sources (ns.filter fun n => !n.tag?.any fun t => t.isAmong names && p t) := by
  have he : ((tokens names (sources ns)).map fun k => if p k.toTag then some [] else none) =
      (chosen names ns).map fun t => if p t then some ([] : Text) else none := by
    rw [← map_toTag_tokens hc, List.map_map]
    rfl
  rw [he, editTags, lexemes_sources hc]
  clear he hc
  induction ns with
  | nil => rfl
  | cons n ns ih =>
    rw [List.flatMap_cons, List.filter_cons]
    by_cases hn : ∃ t, n.tag? = some t ∧ t.isAmong names = true
    · obtain ⟨t, ht, ha⟩ := hn
      rw [edited_pieces_of_among ht ha, chosen_cons_among ht ha, List.map_cons, List.head?_cons,
        List.tail_cons, ih]
      by_cases hp : p t = true
      · simp [ht, ha, hp]
      · simp [ht, ha, hp, sources_cons]
    · have hn' : ∀ t, n.tag? = some t → t.isAmong names = false := by
        intro t ht
        by_contra ha
        exact hn ⟨t, ht, by simpa using ha⟩
      rw [edited_pieces_of_not_among hn', chosen_cons_not_among hn', ih]
      have : (n.tag?.any fun t => t.isAmong names && p t) = false := by
        cases ht : n.tag? with
        | none => rfl
        | some t => simp [hn' t ht]
      rw [this]
      simp [sources_cons]

theorem startsMarkup_comment? : StartsMarkup comment? where
  angle r h := by
    unfold comment?
    split
    · rename_i he
      exact absurd (List.cons.inj he).1 h
    · rfl
  start r h := by
    refine Spacing.comment?_of_ne ?_ r
    rintro rfl
    revert h
    decide

theorem scan_comment? {n : Node} (hv : n.isValid = true) (r : Text) :
    scan comment? (n.source ++ r) =
      (match n with
        | .comment inner => [.hit () (commentText inner)]
        | n => n.source.map .char) ++ scan comment? r := by
  by_cases hn : ∃ inner, n = .comment inner
  · obtain ⟨inner, rfl⟩ := hn
    have hc : comment? (commentText inner ++ r) = some ((), (commentText inner).length - 1) := by
      simp only [commentText, String.reduceToList, List.cons_append, List.nil_append, comment?,
        commentLength_append hv, List.length_cons]
      congr 2
      omega
    exact scan_append (Node.source_ne_nil _) hc
  · have hn : ∀ inner, n ≠ .comment inner := fun inner he => hn ⟨inner, he⟩
    have hp : comment? (n.source ++ r) = none := by
      cases n with
      | char c =>
        simp only [Node.isValid, bne_iff_ne, ne_eq] at hv
        exact startsMarkup_comment?.angle r hv
      | angle c =>
        simp only [Node.isValid, Bool.and_eq_true, bne_iff_ne, ne_eq, Bool.not_eq_true'] at hv
        exact startsMarkup_comment?.start r hv.2
      | declaration m inner => simpa [Node.source] using Spacing.comment?_declaration hv r
      | comment inner => exact absurd rfl (hn inner)
      | tag closing name body =>
        obtain ⟨c, t, ht, hne, -⟩ := exists_tag_cons hv
        rw [Node.source, tagText, ht]
        exact Spacing.comment?_of_ne hne _
    rw [scan_passed startsMarkup_comment? hv hn hp]
    cases n with
    | comment inner => exact absurd rfl (hn inner)
    | _ => rfl

end MailMarkup.Markup

namespace MailMarkup.Document

open Text Markup Spacing

theorem flatMap_map_char {α : Type} {g : Piece α → Text} (hg : ∀ c, g (.char c) = [c]) (s : Text) :
    (s.map .char).flatMap g = s := by
  induction s with
  | nil => rfl
  | cons c s ih => rw [List.map_cons, List.flatMap_cons, hg, ih]; rfl

def isOffice : Node → Bool
  | .comment inner => occursIn officeSettings (commentText inner)
  | _ => false

theorem dropOfficeSettings_sources {ns : List Node} (hc : IsClean ns) :
    dropOfficeSettings (sources ns) = sources (ns.filter (!isOffice ·)) := by
  induction ns with
  | nil => rfl
  | cons n ns ih =>
    have ih := ih hc.tail
    rw [dropOfficeSettings] at ih ⊢
    rw [sources_cons, scan_comment? hc.head, List.flatMap_append, ih, List.filter_cons]
    cases n with
    | comment inner =>
      by_cases ho : occursIn officeSettings (commentText inner) = true
      · simp [isOffice, ho]
      · simp [isOffice, ho, sources_cons, Node.source]
    | _ =>
      simp only [isOffice]
      rw [flatMap_map_char (by intro c; rfl)]
      rfl

end MailMarkup.Document
