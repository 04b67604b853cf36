import MailMarkup.Proofs.Markup.NodeEdits

namespace MailMarkup.Markup

open Text

def Node.isFirm (names : List Text) : Node → Bool
  | char _ => false
  | angle _ => false
  | declaration .. => true
  | comment _ => true
  | tag _ name _ => !names.contains (name.map Char.toLower)

def skeleton (names : List Text) (ns : List Node) : List Node := ns.filter (·.isFirm names)

theorem skeleton_append (names : List Text) (ns ms : List Node) :
    skeleton names (ns ++ ms) = skeleton names ns ++ skeleton names ms :=
  List.filter_append ..

structure Reworked (names : List Text) (ns ms : List Node) : Prop where
  clean : IsClean ms
  skeleton_eq : skeleton names ms = skeleton names ns

theorem isFirm_of_subset {names more : List Text} (h : names ⊆ more) {n : Node}
    (hn : n.isFirm more = true) : n.isFirm names = true := by
  cases n with
  | char c => simp [Node.isFirm] at hn
  | angle c => simp [Node.isFirm] at hn
  | declaration m inner => rfl
  | comment inner => rfl
  | tag closing name body =>
    simp only [Node.isFirm, Bool.not_eq_true', ← Bool.not_eq_true, List.contains_iff_mem] at hn ⊢
    exact fun hm => hn (h hm)

theorem skeleton_skeleton {names more : List Text} (h : names ⊆ more) (ns : List Node) :
    skeleton more (skeleton names ns) = skeleton more ns := by
  rw [skeleton, skeleton, skeleton, List.filter_filter]
  refine List.filter_congr fun n _ => ?_
  by_cases hn : n.isFirm more = true
  · simp [hn, isFirm_of_subset h hn]
  · simp [hn]

theorem Reworked.refl {names : List Text} {ns : List Node} (h : IsClean ns) :
    Reworked names ns ns := ⟨h, rfl⟩

theorem Reworked.mono {names more : List Text} {ns ms : List Node} (h : Reworked names ns ms)
    (hm : names ⊆ more) : Reworked more ns ms :=
  ⟨h.clean, by rw [← skeleton_skeleton hm ms, h.skeleton_eq, skeleton_skeleton hm]⟩

theorem Reworked.trans {names : List Text} {ns ms ks : List Node} (h : Reworked names ns ms)
    (h' : Reworked names ms ks) : Reworked names ns ks :=
  ⟨h'.clean, h'.skeleton_eq.trans h.skeleton_eq⟩

theorem isAmong_iff {names : List Text} (hl : ∀ n ∈ names, lower n = n) (hne : names ≠ [])
    {t : Tag} : t.isAmong names = true ↔ t.name ∈ names := by
  have he : names.isEmpty = false := by simpa using hne
  simp only [Tag.isAmong, he, Bool.false_or, List.any_eq_true, beq_iff_eq]
  constructor
  · rintro ⟨n, hn, h⟩
    rw [← h, hl n hn]
    exact hn
  · exact fun h => ⟨t.name, h, hl _ h⟩

theorem Renewed.isFirm_eq {names skip : List Text} (hl : ∀ n ∈ names, lower n = n)
    (hne : names ≠ []) (hs : names ⊆ skip) {n m : Node} (h : Renewed names n m) :
    n = m ∨ n.isFirm skip = false ∧ m.isFirm skip = false := by
  cases h with
  | keep => exact .inl rfl
  | @renew name body name' body' among same valid =>
    have hn := hs ((isAmong_iff hl hne).1 among)
    refine .inr ⟨?_, ?_⟩
    · simpa [Node.isFirm, Tag.ofBody] using hn
    · simpa [Node.isFirm, Tag.ofBody, same] using hn

theorem skeleton_of_forall₂ {names skip : List Text} (hl : ∀ n ∈ names, lower n = n)
    (hne : names ≠ []) (hs : names ⊆ skip) {ns ms : List Node}
    (h : List.Forall₂ (Renewed names) ns ms) : skeleton skip ms = skeleton skip ns := by
  induction h with
  | nil => rfl
  | cons hn _ ih =>
    rw [skeleton, skeleton, List.filter_cons, List.filter_cons]
    rcases hn.isFirm_eq hl hne hs with rfl | ⟨h1, h2⟩
    · rw [show List.filter _ _ = _ from ih]
      rfl
    · rw [h1, h2]
      exact ih

theorem Rewrites.reworked {names skip : List Text} (hl : ∀ n ∈ names, lower n = n)
    (hne : names ≠ []) (hs : names ⊆ skip) {ns ms : List Node} {es : List (Option Text)}
    (h : Rewrites names ns es ms) (hc : IsClean ns) : Reworked skip ns ms :=
  ⟨h.isClean hc, skeleton_of_forall₂ hl hne hs h.forall₂⟩

theorem Grown.reworked {names : List Text} {P : Node → Prop}
    (hp : ∀ n, P n → n.isValid = true ∧ n.isFirm names = false) {ns ms : List Node}
    (h : Grown P ns ms) (hc : IsClean ns) : Reworked names ns ms := by
  refine ⟨h.isClean (fun n hn => (hp n hn).1) hc, ?_⟩
  clear hc
  induction h with
  | nil => rfl
  | keep h ih =>
    rw [skeleton, skeleton, List.filter_cons, List.filter_cons]
    rw [show List.filter _ _ = _ from ih]
    rfl
  | add hn h ih =>
    rw [skeleton, List.filter_cons, (hp _ hn).2]
    exact ih

theorem chosen_skeleton {names others : List Text} (hl : ∀ n ∈ others, lower n = n)
    (hne : others ≠ []) (hd : ∀ n ∈ others, n ∉ names) (ns : List Node) :
    chosen others (skeleton names ns) = chosen others ns := by
  induction ns with
  | nil => rfl
  | cons n ns ih =>
    by_cases hf : n.isFirm names = true
    · rw [skeleton, List.filter_cons_of_pos hf, chosen_cons, chosen_cons]
      exact congrArg _ ih
    · rw [skeleton, List.filter_cons_of_neg hf, chosen_cons_not_among]
      · exact ih
      · intro t ht
        cases n with
        | tag closing name body =>
          obtain rfl := Option.some.inj ht
          rw [← Bool.not_eq_true, isAmong_iff hl hne]
          intro ho
          exact hd _ ho (by simpa [Node.isFirm, Tag.ofBody] using hf)
        | _ => simp [Node.tag?] at ht

theorem Reworked.chosen_eq {names others : List Text} {ns ms : List Node}
    (h : Reworked names ns ms) (hl : ∀ n ∈ others, lower n = n) (hne : others ≠ [])
    (hd : ∀ n ∈ others, n ∉ names) : chosen others ms = chosen others ns := by
  rw [← chosen_skeleton hl hne hd ms, h.skeleton_eq, chosen_skeleton hl hne hd]

def commentsOf (ns : List Node) : List Text :=
  ns.filterMap fun
    | .comment inner => some (commentText inner)
    | _ => none

theorem commentsOf_skeleton (names : List Text) (ns : List Node) :
    commentsOf (skeleton names ns) = commentsOf ns := by
  induction ns with
  | nil => rfl
  | cons n ns ih =>
    cases n with
    | comment inner => exact congrArg (commentText inner :: ·) ih
    | declaration m inner => exact ih
    | char c => exact ih
    | angle c => exact ih
    | tag closing name body =>
      rw [skeleton, List.filter_cons]
      split
      · exact ih
      · exact ih

end MailMarkup.Markup
