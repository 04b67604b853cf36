import MailMarkup.Proofs.Spacing.RegionRecognition

namespace MailMarkup.Spacing

open Text Markup

theorem tidyPlain_cons (c : Char) (t : Text) :
    tidyPlain (c :: t) = c :: tidyPlain t ∨
      isSpaceOrTab c = true ∧ tidyPlain (c :: t) = tidyPlain t := by
  rw [tidyPlain, trimLines]
  split
  · rename_i hc
    rw [Bool.and_eq_true] at hc
    exact .inr ⟨hc.1, rfl⟩
  · rw [narrowRuns]
    split
    · rename_i hc
      exact .inr ⟨by rw [hc.1]; rfl, rfl⟩
    · exact .inl rfl

theorem tidy_cons {c : Char} {r : Text} (h : region? (c :: r) = none) :
    tidy (c :: r) = c :: tidy r ∨ isSpaceOrTab c = true ∧ tidy (c :: r) = tidy r := by
  have hblocks : blocks (scan region? (c :: r)) =
      (c :: (blocks (scan region? r)).1, (blocks (scan region? r)).2) := by
    rw [scan_cons_none h, blocks]
  rw [tidy_eq, tidy_eq, hblocks]
  rcases tidyPlain_cons c (blocks (scan region? r)).1 with he | ⟨hc, he⟩
  · exact .inl (by rw [he, List.cons_append])
  · exact .inr ⟨hc, by rw [he]⟩

theorem tidy_region {s r : Text} (h : scan region? (s ++ r) = .hit () s :: scan region? r) :
    tidy (s ++ r) = s ++ tidy r := by
  rw [tidy_eq, tidy_eq, h, blocks, tidiedRest, List.flatMap_cons, List.append_assoc]
  rfl

theorem source_blocks (ps : List (Piece Unit)) :
    ps.flatMap Piece.source = (blocks ps).1 ++ (blocks ps).2.flatMap fun b => b.1 ++ b.2 := by
  induction ps with
  | nil => rfl
  | cons p ps ih =>
    rw [List.flatMap_cons, ih]
    cases p with
    | char c => rfl
    | hit a s => simp [blocks, Piece.source]

theorem tidied_tidiedRest (bs : List (Text × Text)) :
    Tidied (bs.flatMap fun b => b.1 ++ b.2) (tidiedRest bs) := by
  induction bs with
  | nil => exact .nil
  | cons b bs ih =>
    rw [List.flatMap_cons]
    exact ((Tidied.refl b.1).append (tidied_tidyPlain b.2)).append ih

theorem tidied_tidy (html : Text) : Tidied html (tidy html) := by
  have h := source_blocks (scan region? html)
  rw [flatMap_source_scan] at h
  have happ := (tidied_tidyPlain (blocks (scan region? html)).1).append
    (tidied_tidiedRest (blocks (scan region? html)).2)
  rwa [← h] at happ

theorem Tidied.sublist {s t : Text} (h : Tidied s t) : t.Sublist s := by
  induction h with
  | nil => exact .slnil
  | keep c h ih => exact ih.cons_cons c
  | drop hc h ih => exact ih.cons _

theorem isSpaceOrTab_of_isLoose {c : Char} {r : Text} (h : isLoose c r = true) :
    isSpaceOrTab c = true := by
  simp only [isLoose, Bool.or_eq_true, Bool.and_eq_true, beq_iff_eq] at h
  rcases h with ⟨rfl, -⟩ | ⟨hc, -⟩
  · rfl
  · exact hc

theorem Tidied.filter_eq {s t : Text} (h : Tidied s t) :
    t.filter (!isSpaceOrTab ·) = s.filter (!isSpaceOrTab ·) := by
  induction h with
  | nil => rfl
  | keep c h ih => rw [List.filter_cons, List.filter_cons, ih]
  | drop hc h ih => rw [List.filter_cons_of_neg (by simp [isSpaceOrTab_of_isLoose hc]), ih]

def hitSources (ps : List (Piece α)) : List Text :=
  ps.filterMap fun
    | .char _ => none
    | .hit _ s => some s

theorem map_spansFrom (before : Text) (ps : List (Piece α)) :
    (spansFrom before.length ps).map
        (fun x => ((before ++ ps.flatMap Piece.source).take x.2).drop x.1) = hitSources ps := by
  induction ps generalizing before with
  | nil => rfl
  | cons p ps ih =>
    have hnext := ih (before ++ p.source)
    rw [List.append_assoc, ← List.flatMap_cons] at hnext
    cases p with
    | char c => simpa [spansFrom, hitSources, Piece.source] using hnext
    | hit a s =>
      rw [List.length_append] at hnext
      rw [spansFrom, List.map_cons]
      refine congrArg₂ List.cons ?_ hnext
      rw [List.flatMap_cons, Piece.source, ← List.append_assoc, ← List.length_append,
        List.take_left, List.drop_left]

def regions (html : Text) : List Text :=
  (protectedSpans html).map fun x => (html.take x.2).drop x.1

theorem regions_eq (html : Text) : regions html = hitSources (scan region? html) := by
  have h := map_spansFrom [] (scan region? html)
  rwa [List.nil_append, flatMap_source_scan] at h

theorem regions_char {c : Char} {r : Text} (h : region? (c :: r) = none) :
    regions (c :: r) = regions r := by
  rw [regions_eq, regions_eq, scan_cons_none h]
  rfl

theorem regions_region {s r : Text} (h : scan region? (s ++ r) = .hit () s :: scan region? r) :
    regions (s ++ r) = s :: regions r := by
  rw [regions_eq, regions_eq, h]
  rfl

theorem regions_tidy (html : Text) : regions (tidy html) = regions html := by
  induction hl : html.length using Nat.strong_induction_on generalizing html with
  | _ l ih =>
    cases html with
    | nil => rfl
    | cons c r =>
      cases h : region? (c :: r) with
      | none =>
        have ihr := ih r.length (by simp [← hl]) r rfl
        rw [regions_char h]
        rcases tidy_cons h with he | ⟨-, he⟩
        · have hkept := region?_none_of_respaced (tidied_tidy r).respaced h
          rw [he, regions_char hkept, ihr]
        · rw [he, ihr]
      | some x =>
        obtain ⟨s, u, hsu, hs, hscan⟩ := exists_of_region? h
        have hlen : u.length < l := by
          have := List.length_pos_of_ne_nil hs
          rw [← hl, hsu, List.length_append]
          omega
        have hscanned := hscan u id
        have htidied := hscan (tidy u) fun hu => by rw [hu]; rfl
        rw [hsu, tidy_region hscanned, regions_region htidied, regions_region hscanned,
          ih u.length hlen u rfl]

/-- Tidying only takes spaces and tabs away, and the protected regions stay as they are. -/
theorem tidy_protects_regions (html : Text) :
    (tidy html).Sublist html ∧
      (tidy html).filter (!isSpaceOrTab ·) = html.filter (!isSpaceOrTab ·) ∧
      regions (tidy html) = regions html :=
  ⟨(tidied_tidy html).sublist, (tidied_tidy html).filter_eq, regions_tidy html⟩

end MailMarkup.Spacing
