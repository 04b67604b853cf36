import MailMarkup.Proofs.Spacing.TidyText

namespace MailMarkup.Spacing

open Text Markup

def opensKept (name body : Text) : Bool :=
  (officeName? (name ++ (body ++ ['>']))).isSome ||
    ["xml".toList, "pre".toList].any fun w =>
      ((dropFolded? w (name ++ (body ++ ['>']))).filter atWordEnd).isSome

theorem behindElement?_eq_none {name body w : Text} (ht : IsTag name body)
    (hw : w ∈ ["xml".toList, "pre".toList])
    (h : ((dropFolded? w (name ++ (body ++ ['>']))).filter atWordEnd).isSome = false) (r : Text) :
    behindElement? w (name ++ (body ++ '>' :: r)) = none := by
  by_contra hs
  obtain ⟨s, hs⟩ := Option.ne_none_iff_exists'.1 hs
  obtain ⟨u, hu, -⟩ := Option.bind_eq_some_iff.1 hs
  obtain ⟨hu, he⟩ := Option.filter_eq_some_iff.1 hu
  have hdw : DropsName (dropFolded? w) := by
    simp only [List.mem_cons, List.not_mem_nil, or_false] at hw
    rcases hw with rfl | rfl
    · exact dropsName_folded (forall_eq_false (by decide))
    · exact dropsName_folded (forall_eq_false (by decide))
  obtain ⟨p, hp, hi, hl⟩ := hdw _ _ hu
  obtain ⟨z, rfl, rfl⟩ := exists_of_tag_eq ht hi hp
  have hat : atWordEnd (z ++ (body ++ ['>'])) = true := by
    rw [← atWordEnd_append (by simp) r]
    simpa using he
  rw [List.append_assoc, hl, Option.filter_some, hat] at h
  cases h

theorem behindProtected?_eq_none {name body : Text} (ht : IsTag name body)
    (h : opensKept name body = false) (r : Text) :
    behindProtected? (name ++ (body ++ '>' :: r)) = none := by
  simp only [opensKept, Bool.or_eq_false_iff, List.any_cons, List.any_nil] at h
  obtain ⟨ho, hx, hp, -⟩ := h
  have hoffice : officeName? (name ++ (body ++ '>' :: r)) = none := by
    have hsplit : name ++ (body ++ '>' :: r) = (name ++ (body ++ ['>'])) ++ r := by simp
    rw [hsplit, officeName?_append (by simp)]
    simpa using ho
  rw [behindProtected?, behindOffice?, hoffice, behindElement?_eq_none ht (by simp) hx,
    behindElement?_eq_none ht (by simp) hp]
  rfl

def IsNeat : Node → Prop
  | .char c => c ≠ '\r'
  | .angle _ => False
  | .declaration _ inner => IsTidy inner
  | .comment _ => True
  | .tag closing name body => (closing = false → opensKept name body = false) ∧ IsTidy body

instance : (n : Node) → Decidable (IsNeat n)
  | .char c => inferInstanceAs (Decidable (c ≠ '\r'))
  | .angle _ => inferInstanceAs (Decidable False)
  | .declaration _ inner => inferInstanceAs (Decidable (IsTidy inner))
  | .comment _ => inferInstanceAs (Decidable True)
  | .tag closing name body => inferInstanceAs
    (Decidable ((closing = false → opensKept name body = false) ∧ IsTidy body))

def regionPieces : Node → List (Piece Unit)
  | .comment inner => [.hit () (commentText inner)]
  | n => n.source.map .char

variable {ns ms : List Node}

theorem scan_neat (hc : IsClean ns) (hn : ∀ n ∈ ns, IsNeat n) :
    scan region? (sources ns) = ns.flatMap regionPieces := by
  induction ns with
  | nil => rfl
  | cons n ns ih =>
    obtain ⟨hneat, hns⟩ := List.forall_mem_cons.1 hn
    rw [sources_cons, List.flatMap_cons, ← ih hc.tail hns]
    cases n with
    | comment inner => exact scan_comment hc.head _
    | tag closing name body =>
      refine scan_source hc.head (by simp) fun name body he => ?_
      obtain ⟨rfl, rfl, rfl⟩ := Node.tag.inj he
      exact behindProtected?_eq_none (isValid_tag.1 hc.head).1 (hneat.1 rfl) _
    | angle c => exact hneat.elim
    | _ => exact scan_source hc.head (by simp) (by simp)

theorem plainParts_neat (hc : IsClean ns) (hn : ∀ n ∈ ns, IsNeat n) :
    plainParts (sources ns) = (blocks (ns.flatMap regionPieces)).1 ::
      (blocks (ns.flatMap regionPieces)).2.map Prod.snd := by
  rw [plainParts, scan_neat hc hn]

theorem isBlocked_neat (hc : IsClean ns) (hn : ∀ n ∈ ns, IsNeat n) : IsBlocked ns := by
  induction ns with
  | nil => exact ⟨[], [], rfl, rfl, rfl, .nil⟩
  | cons n ns ih =>
    obtain ⟨hneat, hns⟩ := List.forall_mem_cons.1 hn
    have hb := ih hc.tail hns
    cases n with
    | comment inner => exact isBlocked_comment hc.head hb
    | tag closing name body =>
      refine isBlocked_passed hc.head (by simp) (fun name body he => ?_) hb
      obtain ⟨rfl, rfl, rfl⟩ := Node.tag.inj he
      exact behindProtected?_eq_none (isValid_tag.1 hc.head).1 (hneat.1 rfl) _
    | angle c => exact hneat.elim
    | _ => exact isBlocked_passed hc.head (by simp) (by simp) hb

theorem IsNeat.cases {n : Node} (h : IsNeat n) (hv : n.isValid = true) :
    (∃ c, n = .char c) ∨ (∃ inner, n = .comment inner) ∨
      ∃ a, n.source = '<' :: (a ++ ['>']) ∧ IsTidy a ∧ ∀ inner, n ≠ .comment inner := by
  cases n with
  | char c => exact .inl ⟨c, rfl⟩
  | angle c => exact h.elim
  | comment inner => exact .inr (.inl ⟨inner, rfl⟩)
  | declaration m inner =>
    have hm : standsAlone m = true := by
      rcases (isValid_declaration.1 hv).1 with rfl | rfl <;> decide
    exact .inr (.inr ⟨m :: inner, rfl, IsTidy.nil.around h hm, by simp⟩)
  | tag closing name body =>
    have ht : IsTag name body := (isValid_tag.1 hv).1
    have hname : name.all standsAlone = true := by
      have := ht.name_ok
      rw [isName, Bool.and_eq_true] at this
      exact List.all_eq_true.2 fun c hc => standsAlone_of_not_isBlank
        (isNameChar_not_isBlank (List.all_eq_true.1 this.2 c hc))
    have ha : IsTidy ((if closing then ['/'] else []) ++ (name ++ body)) := by
      refine IsTidy.around_word ?_ h.2 (name_ne_nil ht) hname
      cases closing
      · exact .nil
      · exact .blank '/'
    refine .inr (.inr ⟨_, ?_, ha, by simp⟩)
    cases closing <;> simp [Node.source, tagText]

structure IsSeparable (P : Text → Prop) : Prop where
  tidy : ∀ {t : Text}, IsTidy t → P t
  around : ∀ {a b : Text} {c : Char}, P a → P b → standsAlone c = true → P (a ++ c :: b)

theorem isSeparable_isTidy : IsSeparable IsTidy := ⟨id, fun ha hb hc => ha.around hb hc⟩

theorem isSeparable_not_hasStrayReturn : IsSeparable (¬ HasStrayReturn ·) where
  tidy h := tidyPlain_eq_self_iff.2 h ▸ not_hasStrayReturn_tidyPlain _
  around := by
    rintro a b c ha hb hc ⟨d, w, hd, hne, hw, hinfix⟩
    simp only [standsAlone, Bool.and_eq_true, Bool.not_eq_true', bne_iff_ne, ne_eq] at hc
    have hblank : ∀ e, isSpaceOrTab e = true → c ≠ e := by
      rintro e he rfl
      rw [he] at hc
      cases hc.1.1
    have hm : c ∉ d :: '\r' :: (w ++ ['\n']) := by
      simp only [List.mem_cons, List.mem_append, List.not_mem_nil, or_false, not_or]
      exact ⟨hblank d hd, hc.2, fun hm => hblank c (List.all_eq_true.1 hw c hm) rfl, hc.1.2⟩
    rcases infix_of_not_mem hinfix hm with h | h
    · exact ha ⟨d, w, hd, hne, hw, h⟩
    · exact hb ⟨d, w, hd, hne, hw, h⟩

theorem IsSeparable.sources {P : Text → Prop} (hP : IsSeparable P) (hc : IsClean ns)
    (hn : ∀ n ∈ ns, IsNeat n) (hm : ∀ n ∈ ns, ∀ inner, n ≠ .comment inner) (w : Text)
    (h : ∀ t : Text, t.map Node.char <:+: w.map .char ++ ns → P t) : P (w ++ sources ns) := by
  induction ns generalizing w with
  | nil => exact h _ ⟨[], [], by simp [Markup.sources]⟩
  | cons n ns ih =>
    obtain ⟨hneat, hns⟩ := List.forall_mem_cons.1 hn
    obtain ⟨hnc, hnsc⟩ := List.forall_mem_cons.1 hm
    rcases hneat.cases hc.head with ⟨c, rfl⟩ | ⟨inner, rfl⟩ | ⟨a, hs, ha, -⟩
    · have := ih hc.tail hns hnsc (w ++ [c]) (by simpa using h)
      simpa [sources_cons, Node.source] using this
    · exact absurd rfl (hnc inner)
    · have hw : P w := h w ⟨[], n :: ns, by simp⟩
      have hrest : P ([] ++ Markup.sources ns) := ih hc.tail hns hnsc [] fun t ht =>
        h t (List.IsInfix.trans ht ⟨w.map .char ++ [n], [], by simp⟩)
      have := hP.around (c := '<') hw (hP.around (c := '>') (hP.tidy ha) hrest (by decide))
        (by decide)
      rw [sources_cons, hs]
      simpa using this

theorem exists_blocks (ns : List Node) :
    (∃ ms, ms <+: ns ∧ (∀ n ∈ ms, ∀ inner, n ≠ .comment inner) ∧
        (blocks (ns.flatMap regionPieces)).1 = sources ms) ∧
      ∀ b ∈ (blocks (ns.flatMap regionPieces)).2, ∃ ms, ms <:+: ns ∧
        (∀ n ∈ ms, ∀ inner, n ≠ .comment inner) ∧ b.2 = sources ms := by
  induction ns with
  | nil => exact ⟨⟨[], List.prefix_refl _, by simp, rfl⟩, by simp [blocks]⟩
  | cons n ns ih =>
    obtain ⟨⟨ms, hms, hno, hfirst⟩, hrest⟩ := ih
    have hcons : ∀ {ms}, ms <:+: ns → ms <:+: n :: ns := fun h =>
      List.IsInfix.trans h (List.suffix_cons n ns).isInfix
    rw [List.flatMap_cons]
    by_cases hcom : ∃ inner, n = .comment inner
    · obtain ⟨inner, rfl⟩ := hcom
      refine ⟨⟨[], List.nil_prefix, by simp, rfl⟩, ?_⟩
      rw [show (blocks (regionPieces (.comment inner) ++ ns.flatMap regionPieces)).2 =
        (commentText inner, (blocks (ns.flatMap regionPieces)).1) ::
          (blocks (ns.flatMap regionPieces)).2 from rfl]
      refine List.forall_mem_cons.2 ⟨⟨ms, hcons hms.isInfix, hno, hfirst⟩, fun b hb => ?_⟩
      obtain ⟨ks, hks, hb⟩ := hrest b hb
      exact ⟨ks, hcons hks, hb⟩
    · have hp : regionPieces n = n.source.map .char := by
        cases n with
        | comment inner => exact absurd ⟨inner, rfl⟩ hcom
        | _ => rfl
      rw [hp, blocks_map_char]
      refine ⟨⟨n :: ms, List.cons_prefix_cons.2 ⟨rfl, hms⟩,
        List.forall_mem_cons.2 ⟨fun inner he => hcom ⟨inner, he⟩, hno⟩,
        by rw [sources_cons, hfirst]⟩, fun b hb => ?_⟩
      obtain ⟨ks, hks, hb⟩ := hrest b hb
      exact ⟨ks, hcons hks, hb⟩

theorem IsSeparable.plainParts {P : Text → Prop} (hP : IsSeparable P) (hc : IsClean ns)
    (hn : ∀ n ∈ ns, IsNeat n) (h : ∀ t : Text, t.map Node.char <:+: ns → P t) :
    ∀ s ∈ plainParts (Markup.sources ns), P s := by
  have hpart : ∀ ms, ms <:+: ns → (∀ n ∈ ms, ∀ inner, n ≠ .comment inner) →
      P (Markup.sources ms) := fun ms hms hno =>
    hP.sources (fun n hm => hc n (hms.subset hm)) (fun n hm => hn n (hms.subset hm)) hno []
      fun t ht => h t (List.IsInfix.trans ht hms)
  rw [plainParts_neat hc hn]
  obtain ⟨⟨ms, hms, hno, hfirst⟩, hrest⟩ := exists_blocks ns
  refine List.forall_mem_cons.2 ⟨hfirst ▸ hpart ms hms.isInfix hno, ?_⟩
  rw [List.forall_mem_map]
  intro b hb
  obtain ⟨ms, hms, hno, hb⟩ := hrest b hb
  exact hb ▸ hpart ms hms hno

theorem exists_plainPart (hc : IsClean ns) (hn : ∀ n ∈ ns, IsNeat n) {t : Text}
    (h : t.map Node.char <:+: ns) : ∃ s ∈ plainParts (sources ns), t <:+: s := by
  rw [plainParts_neat hc hn]
  clear hc hn
  obtain ⟨l, r, rfl⟩ := h
  induction l with
  | nil =>
    have hp : (t.map Node.char).flatMap regionPieces = t.map .char := by
      rw [List.flatMap_map]
      exact List.flatMap_pure_eq_map ..
    refine ⟨_, List.mem_cons_self, ?_⟩
    rw [List.nil_append, List.flatMap_append, hp, blocks_map_char]
    exact (List.prefix_append t _).isInfix
  | cons n l ih =>
    obtain ⟨s, hs, ht⟩ := ih
    rw [List.append_assoc, List.cons_append, List.flatMap_cons, ← List.append_assoc]
    cases n with
    | comment inner => exact ⟨s, List.mem_cons_of_mem _ hs, ht⟩
    | _ =>
      rw [regionPieces]
      · rw [blocks_map_char]
        rcases List.mem_cons.1 hs with rfl | hs
        · exact ⟨_, List.mem_cons_self, List.IsInfix.trans ht (List.suffix_append _ _).isInfix⟩
        · exact ⟨s, List.mem_cons_of_mem _ hs, ht⟩
      · simp

def HasTidyText (ns : List Node) : Prop := ∀ t : Text, t.map Node.char <:+: ns → IsTidy t

def glyph : Node → Char
  | .char c => c
  | _ => '<'

theorem isTidy_glyphs {w : Text} (h : HasTidyText (w.map .char ++ ns)) :
    IsTidy (w ++ ns.map glyph) := by
  induction ns generalizing w with
  | nil => exact h _ ⟨[], [], by simp⟩
  | cons n ns ih =>
    by_cases hn : ∃ c, n = .char c
    · obtain ⟨c, rfl⟩ := hn
      have := @ih (w ++ [c]) (by simpa using h)
      simpa [glyph] using this
    · have hg : glyph n = '<' := by
        cases n with
        | char c => exact absurd ⟨c, rfl⟩ hn
        | _ => rfl
      have hw : IsTidy w := h w ⟨[], n :: ns, by simp⟩
      have hrest : IsTidy ([] ++ ns.map glyph) := @ih [] fun t ht =>
        h t (List.IsInfix.trans ht ⟨w.map .char ++ [n], [], by simp⟩)
      rw [List.map_cons, hg]
      exact hw.around hrest (by decide)

theorem hasTidyText_iff : HasTidyText ns ↔ IsTidy (ns.map glyph) := by
  refine ⟨fun h => @isTidy_glyphs ns [] h, fun h t ht => h.of_isInfix ?_⟩
  have hmap : (t.map Node.char).map glyph = t := by
    rw [List.map_map]
    exact List.map_id t
  exact hmap ▸ ht.map glyph

instance (ns : List Node) : Decidable (HasTidyText ns) := decidable_of_iff _ hasTidyText_iff.symm

theorem tidy_eq_self_of_neat (hc : IsClean ns) (hn : ∀ n ∈ ns, IsNeat n) (h : HasTidyText ns) :
    tidy (sources ns) = sources ns :=
  tidy_eq_self_iff.2 fun s hs =>
    tidyPlain_eq_self_iff.2 (isSeparable_isTidy.plainParts hc hn h s hs)

inductive Thinned : List Node → List Node → Prop
  | nil : Thinned [] []
  | keep (n : Node) {ns ms : List Node} (h : Thinned ns ms) : Thinned (n :: ns) (n :: ms)
  | drop {c : Char} {ns ms : List Node} (hc : isBlank c = true) (h : Thinned ns ms) :
    Thinned (.char c :: ns) ms

namespace Thinned

theorem refl (ns : List Node) : Thinned ns ns := by
  induction ns with
  | nil => exact .nil
  | cons n ns ih => exact .keep n ih

theorem sublist (h : Thinned ns ms) : ms.Sublist ns := by
  induction h with
  | nil => exact .slnil
  | keep n _ ih => exact ih.cons_cons n
  | drop _ _ ih => exact ih.cons _

theorem append {ns' ms' : List Node} (h : Thinned ns ms) (h' : Thinned ns' ms') :
    Thinned (ns ++ ns') (ms ++ ms') := by
  induction h with
  | nil => exact h'
  | keep n _ ih => exact .keep n ih
  | drop hc _ ih => exact .drop hc ih

end Thinned

theorem exists_of_tidied (hc : IsClean ns) (hn : ∀ n ∈ ns, IsNeat n)
    (hm : ∀ n ∈ ns, ∀ inner, n ≠ .comment inner) {u : Text} (h : Tidied (sources ns) u) :
    ∃ ms, u = sources ms ∧ Thinned ns ms := by
  induction ns generalizing u with
  | nil =>
    cases h
    exact ⟨[], rfl, .nil⟩
  | cons n ns ih =>
    obtain ⟨hneat, hns⟩ := List.forall_mem_cons.1 hn
    obtain ⟨hnc, hnsc⟩ := List.forall_mem_cons.1 hm
    rcases hneat.cases hc.head with ⟨c, rfl⟩ | ⟨inner, rfl⟩ | ⟨a, hs, ha, -⟩
    · cases h with
      | keep c h =>
        obtain ⟨ms, rfl, ht⟩ := ih hc.tail hns hnsc h
        exact ⟨.char c :: ms, rfl, .keep _ ht⟩
      | drop hl h =>
        obtain ⟨ms, rfl, ht⟩ := ih hc.tail hns hnsc h
        exact ⟨ms, rfl, .drop (exists_of_isLoose hl).1 ht⟩
    · exact absurd rfl (hnc inner)
    · have hsplit : sources (n :: ns) = [] ++ '<' :: (a ++ '>' :: sources ns) := by
        rw [sources_cons, hs]
        simp
      rw [hsplit] at h
      obtain ⟨p, q, rfl, hp, hq⟩ := h.split (by decide)
      obtain ⟨b, v, rfl, hb, hv⟩ := hq.split (by decide)
      obtain rfl := hb.eq_of_isTidy ha
      cases hp
      obtain ⟨ms, rfl, ht⟩ := ih hc.tail hns hnsc hv
      exact ⟨n :: ms, by rw [sources_cons, hs]; simp, .keep n ht⟩

theorem exists_of_kept (hc : IsClean ns) (hn : ∀ n ∈ ns, IsNeat n) {u : Text} (h : Kept ns u) :
    ∃ ms, u = sources ms ∧ Thinned ns ms := by
  induction h with
  | nil => exact ⟨[], rfl, .nil⟩
  | comment inner h ih =>
    obtain ⟨ms, rfl, ht⟩ := ih hc.tail (List.forall_mem_cons.1 hn).2
    exact ⟨.comment inner :: ms, rfl, .keep _ ht⟩
  | @stretch ls ns u t hm hu h ih =>
    obtain ⟨hl, hn⟩ := List.forall_mem_append.1 hn
    obtain ⟨ms, rfl, ht⟩ := ih hc.right hn
    have hno : ∀ n ∈ ls, ∀ inner, n ≠ .comment inner := by
      rintro n hn inner rfl
      have : commentText inner ∈ commentsOf ls := List.mem_filterMap.2 ⟨_, hn, rfl⟩
      simp [hm] at this
    obtain ⟨ks, rfl, hk⟩ := exists_of_tidied hc.left hl hno hu
    exact ⟨ks ++ ms, (sources_append ks ms).symm, hk.append ht⟩

theorem exists_thinned (hc : IsClean ns) (hn : ∀ n ∈ ns, IsNeat n) :
    ∃ ms, tidy (sources ns) = sources ms ∧ Thinned ns ms ∧ HasTidyText ms := by
  obtain ⟨ls, ks, u, t, hl, hm, hu, hk, he⟩ := (isBlocked_neat hc hn).exists_kept
  have hkept : Kept ns (tidy (sources ns)) := by
    rw [tidy_eq, he, hl]
    exact .stretch hm hu hk
  obtain ⟨ms, hms, ht⟩ := exists_of_kept hc hn hkept
  refine ⟨ms, hms, ht, fun t h => ?_⟩
  have hsub : ms ⊆ ns := ht.sublist.subset
  obtain ⟨s, hs, hinfix⟩ :=
    exists_plainPart (fun n hm => hc n (hsub hm)) (fun n hm => hn n (hsub hm)) h
  refine IsTidy.of_isInfix ?_ hinfix
  rw [← hms, plainParts_tidy, List.mem_map] at hs
  obtain ⟨p, hp, rfl⟩ := hs
  refine isTidy_tidyPlain_iff.2 (isSeparable_not_hasStrayReturn.plainParts hc hn ?_ p hp)
  rintro w hw ⟨b, v, -, -, -, hv⟩
  have hr : Node.char '\r' ∈ ns := hw.subset (List.mem_map_of_mem (hv.subset (by simp)))
  exact hn _ hr rfl

theorem exists_behind_blanks (hc : IsClean ns) (hn : ∀ n ∈ ns, IsNeat n) {s u : Text}
    (hs : s.all isBlank = true) (h : sources ns = s ++ u) :
    ∃ ms, ns = s.map Node.char ++ ms ∧ u = sources ms := by
  induction s generalizing ns with
  | nil => exact ⟨ns, rfl, h.symm⟩
  | cons c s ih =>
    rw [List.all_cons, Bool.and_eq_true] at hs
    cases ns with
    | nil => cases h
    | cons n ns =>
      obtain ⟨hneat, hns⟩ := List.forall_mem_cons.1 hn
      have hangle : ∀ r, n.source = '<' :: r → False := by
        intro r hr
        rw [sources_cons, hr] at h
        obtain ⟨rfl, -⟩ := List.cons.inj h
        exact absurd hs.1 (by decide)
      rcases hneat.cases hc.head with ⟨d, rfl⟩ | ⟨inner, rfl⟩ | ⟨a, ha, -⟩
      · obtain ⟨rfl, hsplit⟩ := List.cons.inj (h : d :: sources ns = c :: (s ++ u))
        obtain ⟨ms, rfl, hu⟩ := ih hc.tail hns hs.2 hsplit
        exact ⟨ms, rfl, hu⟩
      · exact (hangle _ rfl).elim
      · exact (hangle _ ha).elim

theorem exists_before_blanks (hc : IsClean ns) (hn : ∀ n ∈ ns, IsNeat n) {e u : Text}
    (he : e.all isBlank = true) (h : sources ns = u ++ e) :
    ∃ ms, ns = ms ++ e.map Node.char ∧ u = sources ms := by
  induction e using List.reverseRecOn generalizing ns with
  | nil => exact ⟨ns, by simp, by simpa using h.symm⟩
  | append_singleton e c ih =>
    rw [List.all_append, Bool.and_eq_true] at he
    have hblank : isBlank c = true := by simpa using he.2
    rcases List.eq_nil_or_concat' ns with rfl | ⟨ns, n, rfl⟩
    · exact absurd h (by simp [sources])
    · have hns : ∀ m ∈ ns, IsNeat m := fun m hm => hn m (List.mem_append_left _ hm)
      have hneat : IsNeat n := hn n (by simp)
      have hv : n.isValid = true := hc n (by simp)
      rw [sources_append, ← List.append_assoc] at h
      have hone : sources [n] = n.source := by simp [sources]
      have hangle : ∀ r, n.source = r ++ ['>'] → False := by
        intro r hr
        rw [hone, hr, ← List.append_assoc] at h
        have := (List.append_inj' h rfl).2
        obtain ⟨rfl, -⟩ := List.cons.inj this
        exact absurd hblank (by decide)
      rcases hneat.cases hv with ⟨d, rfl⟩ | ⟨inner, rfl⟩ | ⟨a, ha, -⟩
      · obtain ⟨hsplit, hd⟩ := List.append_inj' h rfl
        obtain ⟨rfl, -⟩ := List.cons.inj hd
        obtain ⟨ms, rfl, hu⟩ := ih hc.left hns he.1 hsplit
        exact ⟨ms, by simp, hu⟩
      · obtain ⟨t, rfl⟩ := exists_of_endsComment hv
        exact (hangle ("<!--".toList ++ t) (by simp [Node.source, commentText])).elim
      · exact (hangle ('<' :: a) (by simp [ha])).elim

theorem exists_trimmed (hc : IsClean ns) (hn : ∀ n ∈ ns, IsNeat n) :
    ∃ (s e : Text) (ms : List Node), trim (sources ns) = sources ms ∧ s.all isBlank = true ∧
      e.all isBlank = true ∧ ns = s.map Node.char ++ (ms ++ e.map Node.char) := by
  obtain ⟨s, e, ht, hs, he⟩ := exists_trim (sources ns)
  obtain ⟨ls, rfl, hl⟩ := exists_behind_blanks hc hn hs ht
  obtain ⟨ms, rfl, hm⟩ := exists_before_blanks hc.right (List.forall_mem_append.1 hn).2 he hl.symm
  exact ⟨s, e, ms, hm, hs, he, rfl⟩

end MailMarkup.Spacing
