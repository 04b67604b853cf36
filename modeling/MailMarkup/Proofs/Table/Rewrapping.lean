import MailMarkup.Proofs.Image.ImageStability
import MailMarkup.Proofs.Table.Collapsing
import MailMarkup.Proofs.Table.Columns

namespace MailMarkup.Table

open Text Markup Spacing

variable {l : Layout} {ns ms : List Node}

theorem marksOf_append (ps qs : Lexemes) : marksOf (ps ++ qs) = marksOf ps ++ marksOf qs :=
  List.filterMap_append

theorem marksOf_map_char (t : Text) : marksOf (t.map .char) = [] := by
  induction t with
  | nil => rfl
  | cons c t ih => exact ih

def markOf? (n : Node) : Option Mark :=
  (n.tag?.filter (·.isAmong structureNames)).map Mark.of

theorem marksOf_pieces (n : Node) : marksOf n.pieces = (markOf? n).toList := by
  cases n with
  | tag closing name body =>
    by_cases h : (Tag.ofBody closing name body).isAmong structureNames = true
    · rw [Node.pieces, marksOf_among h, markOf?, Node.tag?, Option.filter_some, if_pos h]
      rfl
    · rw [Node.pieces, marksOf_not_among h, markOf?, Node.tag?, Option.filter_some, if_neg h]
      rfl
  | comment inner => rfl
  | _ => exact marksOf_map_char _

theorem marksOf_piecesOf (ns : List Node) : marksOf (piecesOf ns) = ns.filterMap markOf? := by
  induction ns with
  | nil => rfl
  | cons n ns ih =>
    rw [piecesOf_cons, marksOf_append, marksOf_pieces, ih, List.filterMap_cons]
    cases markOf? n <;> rfl

theorem marksOf_sources (hc : IsClean ns) :
    marksOf (lexemes (sources ns)) = ns.filterMap markOf? := by
  rw [lexemes_sources hc]
  exact marksOf_piecesOf ns

def RowsStay (ns : List Node) : Prop :=
  ∀ r ∈ rows (sources ns), isWrapped (rows (sources ns)) r = false

theorem RowsStay.of_marks (h : RowsStay ns) (hn : IsClean ns) (hm : IsClean ms)
    (he : ms.filterMap markOf? = ns.filterMap markOf?) : RowsStay ms := by
  have hrows : (rows (sources ms)).map Row.erase = (rows (sources ns)).map Row.erase := by
    rw [map_erase_rows, map_erase_rows, marksOf_sources hn, marksOf_sources hm, he]
  intro r hr
  rw [← isWrapped_erase, hrows]
  obtain ⟨q, hq, he⟩ := List.mem_map.1 (hrows ▸ List.mem_map_of_mem (f := Row.erase) hr)
  rw [← he, isWrapped_erase]
  exact h q hq

theorem filterMap_markOf?_of_renewal {names : List Text} {R : Tag → Option Text → Prop}
    (hr : List.Forall₂ (Renewal names R) ns ms)
    (hR : ∀ (k : Tag) (n body : Text), k.closing = false → k.isAmong names = true →
      k.name ∈ structureNames → R k (some (tagText false n body)) → IsTag n body →
      Mark.of (.ofBody false n body) = Mark.of k) :
    ms.filterMap markOf? = ns.filterMap markOf? := by
  induction hr with
  | nil => rfl
  | @cons n m ns ms hn _ ih =>
    have hmark : markOf? m = markOf? n := by
      cases hn with
      | pass => rfl
      | keep => rfl
      | @renew name body name' body' ht same valid hn =>
        have hamong : (Tag.ofBody false name' body').isAmong structureNames =
            (Tag.ofBody false name body).isAmong structureNames := by
          simp only [Tag.isAmong, Tag.ofBody, same]
        by_cases h : (Tag.ofBody false name body).isAmong structureNames = true
        · have hname := (isAmong_iff (by decide) (by decide)).1 h
          simp only [markOf?, Node.tag?, Option.filter_some, hamong, h, if_true, Option.map_some,
            hR _ _ _ rfl ht hname hn (isValid_tag.1 valid).1]
        · simp only [markOf?, Node.tag?, Option.filter_some, hamong, h]
          rfl
    rw [List.filterMap_cons, List.filterMap_cons, hmark, ih]

theorem filterMap_markOf?_of_thinned (h : Thinned ns ms) :
    ms.filterMap markOf? = ns.filterMap markOf? := by
  induction h with
  | nil => rfl
  | keep n _ ih => rw [List.filterMap_cons, List.filterMap_cons, ih]
  | drop _ _ ih => exact ih

theorem mark_of_coloredTag {k : Tag} (hk : k.name = cellName) (hopen : k.closing = false)
    {n body : Text} (he : Background.coloredTag k = .ok (some (tagText false n body)))
    (ht : IsTag n body) : Mark.of (.ofBody false n body) = Mark.of k := by
  obtain ⟨as, hl, htag, hspan⟩ := Background.exists_colored_span ht he
  have hhas : as.has colspan = (Attributes.parse k.attrs).has colspan := by
    rw [Bool.eq_iff_iff, ← not_iff_not, Bool.not_eq_true, Bool.not_eq_true,
      Attributes.has_eq_false_iff_filter, Attributes.has_eq_false_iff_filter, hspan]
  rw [htag, Mark.of, Mark.of, Attributes.parse_render hl, has_map_written, hhas, hk, hopen]
  rfl

def paddedNodes (l : Layout) (b : Nat → Bool) (w : Walk) : List Node → List Node
  | [] => []
  | n :: ns =>
    match markOf? n with
    | some m => (if w.opensChosen b m then openingNodes l else []) ++
        n :: ((if w.closesChosen b m then closingNodes else []) ++ paddedNodes l b (w.take m) ns)
    | none => n :: paddedNodes l b w ns

variable {b : Nat → Bool} {w : Walk}

theorem paddedText_map_char (t : Text) (ps : Lexemes) :
    paddedText l b w (t.map .char ++ ps) = t ++ paddedText l b w ps := by
  induction t with
  | nil => rfl
  | cons c t ih => exact congrArg (c :: ·) ih

theorem sources_paddedNodes (w : Walk) (ns : List Node) :
    sources (paddedNodes l b w ns) = paddedText l b w (piecesOf ns) := by
  induction ns generalizing w with
  | nil => rfl
  | cons n ns ih =>
    rw [piecesOf_cons]
    cases n with
    | tag closing name body =>
      by_cases h : (Tag.ofBody closing name body).isAmong structureNames = true
      · have hm : markOf? (.tag closing name body) = some (.of (.ofBody closing name body)) := by
          rw [markOf?, Node.tag?, Option.filter_some, if_pos h]
          rfl
        rw [paddedNodes, hm, Node.pieces, List.singleton_append, paddedText, if_pos h]
        simp only [sources_append, sources_cons, ih]
        congr 1
        · split
          · exact sources_openingNodes l
          · rfl
        · congr 2
          split
          · exact sources_closingNodes
          · rfl
      · have hm : markOf? (.tag closing name body) = none := by
          rw [markOf?, Node.tag?, Option.filter_some, if_neg h]
          rfl
        rw [paddedNodes, hm, Node.pieces, List.singleton_append, paddedText, if_neg h]
        simp only [sources_cons, ih]
        rfl
    | comment inner => exact congrArg (commentText inner ++ ·) (ih w)
    | _ =>
      refine Eq.trans ?_ (paddedText_map_char _ (piecesOf ns)).symm
      rw [paddedNodes, ← ih w]
      rfl

theorem filterMap_paddedNodes (w : Walk) (ns : List Node) :
    (paddedNodes l b w ns).filterMap markOf? = w.pad b (ns.filterMap markOf?) := by
  induction ns generalizing w with
  | nil => rfl
  | cons n ns ih =>
    have hopening : (openingNodes l).filterMap markOf? = Walk.wrapperMarks := rfl
    have hclosing : closingNodes.filterMap markOf? = Walk.wrapperEndMarks := rfl
    cases hm : markOf? n with
    | none =>
      rw [paddedNodes, hm, List.filterMap_cons_none hm, List.filterMap_cons_none hm]
      exact ih w
    | some m =>
      rw [paddedNodes, hm, List.filterMap_cons_some hm, Walk.pad, Walk.padOne]
      simp only [List.filterMap_append, List.filterMap_cons_some hm, ih, List.append_assoc,
        List.cons_append]
      congr 1
      · split
        · exact hopening
        · rfl
      · congr 2
        split
        · exact hclosing
        · rfl

def wrapperNodes (l : Layout) : List Node := openingNodes l ++ closingNodes

theorem mem_wrapperNodes {n : Node} : n ∈ wrapperNodes l ↔
    n = .tag false "tr".toList [] ∨ n = paddedCell ∨ n = .tag false name (newAttributes l).render ∨
      n = .tag true "table".toList [] ∨ n = .tag true "td".toList [] ∨
      n = .tag true "tr".toList [] := by
  simp [wrapperNodes, openingNodes, closingNodes]

inductive WithWrappers (l : Layout) : List Node → List Node → Prop
  | nil : WithWrappers l [] []
  | keep (n : Node) {ns ms : List Node} (h : WithWrappers l ns ms) :
    WithWrappers l (n :: ns) (n :: ms)
  | opening {ns ms : List Node} (h : WithWrappers l ns ms) :
    WithWrappers l ns (openingNodes l ++ ms)
  | closing {ns ms : List Node} (h : WithWrappers l ns ms) :
    WithWrappers l ns (closingNodes ++ ms)

theorem withWrappers_paddedNodes (w : Walk) (ns : List Node) :
    WithWrappers l ns (paddedNodes l b w ns) := by
  induction ns generalizing w with
  | nil => exact .nil
  | cons n ns ih =>
    rw [paddedNodes]
    cases markOf? n with
    | none => exact .keep n (ih w)
    | some m =>
      have hclosing : WithWrappers l ns ((if w.closesChosen b m then closingNodes else []) ++
          paddedNodes l b (w.take m) ns) := by
        split
        · exact .closing (ih _)
        · exact ih _
      dsimp only
      split
      · exact .opening (.keep n hclosing)
      · exact .keep n hclosing

namespace WithWrappers

theorem mem (h : WithWrappers l ns ms) {m : Node} (hm : m ∈ ms) : m ∈ ns ∨ m ∈ wrapperNodes l := by
  induction h with
  | nil => exact .inl hm
  | keep n _ ih =>
    rcases List.mem_cons.1 hm with rfl | hm
    · exact .inl List.mem_cons_self
    · exact (ih hm).imp_left (List.mem_cons_of_mem _)
  | opening _ ih =>
    rcases List.mem_append.1 hm with hm | hm
    · exact .inr (List.mem_append_left _ hm)
    · exact ih hm
  | closing _ ih =>
    rcases List.mem_append.1 hm with hm | hm
    · exact .inr (List.mem_append_right _ hm)
    · exact ih hm

theorem forall_mem {P : Node → Prop} (h : WithWrappers l ns ms) (hn : ∀ n ∈ ns, P n)
    (hw : ∀ n ∈ wrapperNodes l, P n) : ∀ m ∈ ms, P m :=
  fun m hm => (h.mem hm).elim (hn m) (hw m)

end WithWrappers

theorem isSuited_newAttributes (l : Layout) (tag : Text) :
    Attributes.All (IsSuited tag) (newAttributes l) :=
  .append (isSuited_forcedAttributes l tag) (.singleton ((isSteady_containerStyle l).isSuited tag))

theorem isClean_wrapperNodes (l : Layout) : IsClean (wrapperNodes l) := fun n hn =>
  (List.mem_append.1 hn).elim (fun h => (isFiller_openingNodes l n h).valid)
    fun h => (isFiller_closingNodes n h).valid

theorem isOrdinary_wrapperNodes (l : Layout) : ∀ n ∈ wrapperNodes l, IsOrdinary n := by
  intro n hn
  rcases mem_wrapperNodes.1 hn with rfl | rfl | rfl | rfl | rfl | rfl
  · refine ⟨by decide, by decide, ?_⟩
    rintro k ⟨⟩ hk
    exact absurd hk (by decide)
  · refine ⟨by decide, by decide, ?_⟩
    rintro k ⟨⟩ -
    decide
  · refine isOrdinary_of_written (k := .ofBody false name []) (by decide)
      (isValid_render (by decide) (isQuiet_newAttributes l)) ?_
    rw [← openTag_eq_tagText]
    exact .openTag rfl rfl (by decide) (by decide) (isSuited_newAttributes l _)
  all_goals
    refine ⟨by decide, by decide, ?_⟩
    rintro k ⟨⟩ -
    decide

theorem normalizedTag_bare (l : Layout) : normalizedTag l (.ofBody false name []) =
    .ok (some (tagText false name (newAttributes l).render)) := by
  obtain ⟨responsive, size, pointed⟩ := l
  cases responsive <;> cases size <;> cases pointed <;> decide +kernel

theorem name_of_wrapperNodes {n : Node} (hn : n ∈ wrapperNodes l) {k : Tag}
    (hk : n.tag? = some k) : k.name ∈ wrapperNames := by
  rcases mem_wrapperNodes.1 hn with rfl | rfl | rfl | rfl | rfl | rfl
  all_goals
    obtain rfl := Option.some.inj hk
    simp only [Tag.ofBody]
    decide

theorem onTags_wrapperNodes (l : Layout) {other : Text} (ho : other ∉ wrapperNames)
    (R : Tag → Text → Prop) : OnTags other R (wrapperNodes l) :=
  fun _ hn _ hk he => absurd (he ▸ name_of_wrapperNodes hn hk) ho

theorem isNormal_wrapperNodes (l : Layout) : OnTags name (IsNormal l) (wrapperNodes l) := by
  intro n hn k hk hname
  rcases mem_wrapperNodes.1 hn with rfl | rfl | rfl | rfl | rfl | rfl <;>
    obtain rfl := Option.some.inj hk
  · exact absurd hname (by decide)
  · exact absurd hname (by decide)
  · refine isNormal_of_normalizedTag (k := .ofBody false name []) rfl ?_
      (isTag_render (by decide) (isLegal_newTag l)) (normalizedTag_bare l)
    exact fun a ha => absurd ha List.not_mem_nil
  all_goals exact isNormal_of_closing rfl _

theorem isUnspanned_wrapperNodes (l : Layout) {other : Text} (ho : other ∈ spanNames) :
    OnTags other IsUnspanned (wrapperNodes l) := by
  intro n hn k hk hname
  rcases mem_wrapperNodes.1 hn with rfl | rfl | rfl | rfl | rfl | rfl <;>
    obtain rfl := Option.some.inj hk
  · rw [IsUnspanned]
    decide
  · rw [IsUnspanned]
    decide
  · exact absurd (hname ▸ ho) (by simp only [Tag.ofBody]; decide)
  all_goals exact isUnspanned_iff.2 (.inl rfl)

namespace WithWrappers

theorem onTags {other : Text} {R : Tag → Text → Prop} (h : WithWrappers l ns ms)
    (hn : OnTags other R ns) (hw : OnTags other R (wrapperNodes l)) : OnTags other R ms :=
  h.forall_mem hn hw

theorem showing {c : Config} {alts : List Text} (h : WithWrappers l ns ms)
    (hs : Image.Showing c ns alts) : Image.Showing c ms alts := by
  have hno : ∀ n ∈ wrapperNodes l, ∀ k, n.tag? = some k →
      k.isAmong [Image.name] = false := by
    intro n hn k hk
    rw [Bool.eq_false_iff, Ne, isAmong_singleton (by decide)]
    exact fun he => absurd (he ▸ name_of_wrapperNodes hn hk) (by decide)
  induction h generalizing alts with
  | nil => exact hs
  | keep n _ ih =>
    cases hs with
    | pass h hs => exact .pass h (ih hs)
    | shown hn hk h hs => exact .shown hn hk h (ih hs)
  | opening _ ih =>
    exact (Image.Showing.of_not_among fun n hn => hno n (List.mem_append_left _ hn)).append (ih hs)
  | closing _ ih =>
    exact (Image.Showing.of_not_among fun n hn => hno n (List.mem_append_right _ hn)).append (ih hs)

theorem alike (h : WithWrappers l ns ms) : Alike ns ms := by
  induction h with
  | nil => exact .nil
  | keep n _ ih => exact .keep n ih
  | opening _ ih => exact .put (by decide) _ ih
  | closing _ ih => exact .put (by decide) _ ih

theorem cellsPadless (h : WithWrappers l ns ms) (hc : CellsPadless ns) : CellsPadless ms := by
  induction h with
  | nil => trivial
  | keep n h ih => exact ⟨fun k hk ho hm => hc.1 k hk ho (h.alike.holdsImage hm), ih hc.2⟩
  | opening h ih =>
    have htable : ∀ n : Text, n ≠ name →
        opens n (.ofBody false name (newAttributes l).render) = false := fun n hn => by
      rw [Bool.eq_false_iff, Ne, opens_iff]
      exact fun h => hn h.1.symm
    refine ⟨?_, ?_, ?_, ih hc⟩
    · rintro k ⟨⟩ ho
      exact absurd ho (by decide)
    · -- what comes next is the table
      rintro k ⟨⟩ - hm
      change holdsImage (piecesOf (.tag false name (newAttributes l).render :: _)) = true at hm
      rw [piecesOf_cons, holdsImage, nextTag?_tag, Option.any_some] at hm
      dsimp only at hm
      rw [htable "img".toList (by decide)] at hm
      cases hm
    · rintro k ⟨⟩ ho
      rw [htable _ (by decide)] at ho
      cases ho
  | closing h ih =>
    refine ⟨?_, ?_, ?_, ih hc⟩
    all_goals
      rintro k ⟨⟩ ho
      exact absurd ho (by decide)

end WithWrappers

theorem exists_withWrappers (hc : IsClean ns) (l : Layout) :
    ∃ ms, wrapColumns l (sources ns) = sources ms ∧ WithWrappers l ns ms ∧ IsClean ms ∧
      RowsStay ms := by
  have hw : WithWrappers l ns (paddedNodes l (chosen (sources ns)) .start ns) :=
    withWrappers_paddedNodes .start ns
  have hclean : IsClean (paddedNodes l (chosen (sources ns)) .start ns) :=
    hw.forall_mem hc (isClean_wrapperNodes l)
  have hmarks : marksOf (lexemes (sources (paddedNodes l (chosen (sources ns)) .start ns))) =
      Walk.start.pad (chosen (sources ns)) (marksOf (lexemes (sources ns))) := by
    rw [marksOf_sources hclean, filterMap_paddedNodes, marksOf_sources hc]
  refine ⟨_, ?_, hw, hclean, fun r hr => isWrapped_rows_of_pad hmarks hr⟩
  rw [wrapColumns_eq, sources_paddedNodes, lexemes_sources hc]
  rfl

end MailMarkup.Table
