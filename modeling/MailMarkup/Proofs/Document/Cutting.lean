import Mathlib.Data.List.Perm.Subperm
import MailMarkup.Proofs.Document.Titles

namespace MailMarkup.Markup

open Text

theorem IsClean.of_subset {ns ms : List Node} (h : IsClean ns) (hs : ms ⊆ ns) : IsClean ms :=
  fun n hn => h n (hs hn)

theorem exists_of_enclosed {α : Type} {p q : α → Bool} {as l m r : List α}
    (h : enclosed p q as = some (l, m, r)) : ∃ a b, as = l ++ a :: (m ++ b :: r) := by
  obtain ⟨x, hx, h⟩ := Option.bind_eq_some_iff.1 h
  obtain ⟨y, hy, h⟩ := Option.map_eq_some_iff.1 h
  obtain ⟨rfl, rfl, rfl⟩ : x.1 = l ∧ y.1 = m ∧ y.2.2 = r := by simpa using h
  exact ⟨x.2.1, y.2.1, by rw [← (eq_of_firstSplit hy).1, ← (eq_of_firstSplit hx).1]⟩

theorem subperm_insideOf_append_outsideOf {α : Type} (p q : α → Bool) (as : List α) :
    (insideOf p q as ++ outsideOf p q as).Subperm as := by
  rw [insideOf, outsideOf]
  cases h : enclosed p q as with
  | none => exact .refl as
  | some x =>
    obtain ⟨l, m, r⟩ := x
    obtain ⟨a, b, rfl⟩ := exists_of_enclosed h
    refine ⟨l ++ (m ++ r), ?_, ?_⟩
    · have hp := (@List.perm_append_comm _ l m).append_right r
      simpa using hp
    · exact (List.Sublist.refl l).append
        (.cons _ ((List.Sublist.refl m).append (.cons _ (.refl r))))

theorem outsideOf_subset {α : Type} (p q : α → Bool) (as : List α) : outsideOf p q as ⊆ as :=
  List.Subset.trans (List.subset_append_right _ _) (subperm_insideOf_append_outsideOf p q as).subset

theorem insideOf_subset {α : Type} (p q : α → Bool) (as : List α) : insideOf p q as ⊆ as :=
  List.Subset.trans (List.subset_append_left _ _) (subperm_insideOf_append_outsideOf p q as).subset

theorem upToLast_sublist {α : Type} (p q : α → Bool) (as : List α) :
    (upToLast p q as).Sublist as := by
  rw [upToLast]
  cases hp : firstSplit p as with
  | none => exact .refl as
  | some x =>
    obtain ⟨l, a, s⟩ := x
    have hs : s.Sublist as := by
      rw [(eq_of_firstSplit hp).1]
      exact (List.sublist_cons_self a s).trans (List.sublist_append_right l _)
    refine .trans ?_ hs
    change ((lastSplit q s).map (·.1) |>.getD s).Sublist s
    cases hq : lastSplit q s with
    | none => exact .refl s
    | some y =>
      change y.1.Sublist s
      rw [(eq_of_lastSplit hq).1]
      exact List.sublist_append_left y.1 _

theorem upToLast_subset {α : Type} (p q : α → Bool) (as : List α) : upToLast p q as ⊆ as :=
  (upToLast_sublist p q as).subset

theorem token?_of_isTagOf {n : Node} {name : Text} {closing : Bool}
    (h : n.isTagOf name closing = true) (l : List Node) :
    ∃ k, n.token? (sources l).length = some k ∧ n.tag? = some k.toTag ∧
      k.start = (sources l).length ∧ k.stop = (sources (l ++ [n])).length := by
  have hs : (sources (l ++ [n])).length = (sources l).length + n.source.length := by
    rw [sources_append, List.length_append]
    simp [sources]
  cases ht : n.tag? with
  | none => simp [Node.isTagOf, ht] at h
  | some t => exact ⟨_, by rw [Node.token?, ht]; rfl, rfl, rfl, hs.symm⟩

end MailMarkup.Markup

namespace MailMarkup.Document

open Text Markup Spacing

theorem cutHead_sources {ns : List Node} (h : IsRead ns) :
    cutHead (sources ns) =
      match enclosed (isHead false) (isHead true) ns with
      | none => (none, sources ns)
      | some (l, m, r) => (some (.parse (sources m)), sources (l ++ r)) := by
  have ho := findOpening?_of_isRead h "head".toList rfl
  cases hl : firstSplit (isHead false) ns with
  | none =>
    rw [isHead] at hl
    rw [hl] at ho
    rw [cutHead, ho, enclosed, isHead, hl]
    rfl
  | some x =>
    obtain ⟨l, a, s⟩ := x
    obtain ⟨hns, ha, -⟩ := eq_of_firstSplit hl
    obtain ⟨k, hk, -, hks, hstop⟩ := token?_of_isTagOf ha l
    rw [isHead] at hl
    rw [hl] at ho
    simp only [Option.bind_some, hk] at ho
    have hns' : ns = (l ++ [a]) ++ s := by rw [hns]; simp
    have hc := @findTag?_of_isRead (l ++ [a]) s (hns' ▸ h) "head".toList rfl
      true
    rw [cutHead, ho]
    simp only [hstop]
    rw [hns', hc, ← hns', enclosed, isHead, hl]
    simp only [Option.bind_some]
    cases hm : firstSplit (isHead true) s with
    | none =>
      rw [isHead] at hm
      simp only [hm, Option.bind_none, Option.map_none]
    | some y =>
      obtain ⟨m, b, r⟩ := y
      obtain ⟨hs, hb, -⟩ := eq_of_firstSplit hm
      obtain ⟨e, he, -, hes, hestop⟩ := token?_of_isTagOf hb (l ++ [a] ++ m)
      rw [isHead] at hm
      simp only [hm, Option.bind_some, he, Option.map_some]
      have hcut : ns = l ++ [a] ++ m ++ [b] ++ r := by rw [hns, hs]; simp
      rw [hes, hestop, hks]
      have h1 : (sources ns).take (sources (l ++ [a] ++ m)).length = sources (l ++ [a] ++ m) := by
        rw [hcut, List.append_assoc (l ++ [a] ++ m)]
        exact take_sources _ _
      have h2 : (sources (l ++ [a] ++ m)).drop (sources (l ++ [a])).length = sources m :=
        drop_sources _ _
      have h3 : (sources ns).take (sources l).length = sources l := by
        rw [hns]
        exact take_sources _ _
      have h4 : (sources ns).drop (sources (l ++ [a] ++ m ++ [b])).length = sources r := by
        rw [hcut]
        exact drop_sources _ _
      rw [h1, h2, h3, h4, sources_append]

theorem lastSplit_append (p : α → Bool) (as bs : List α) :
    lastSplit p (as ++ bs) =
      match lastSplit p bs with
      | some (l, b, s) => some (as ++ l, b, s)
      | none => (lastSplit p as).map fun x => (x.1, x.2.1, x.2.2 ++ bs) := by
  induction bs using List.reverseRecOn with
  | nil => simp [lastSplit, firstSplit, Function.comp_def]
  | append_singleton bs b ih =>
    rw [← List.append_assoc, lastSplit_snoc, lastSplit_snoc, ih]
    by_cases hb : p b = true
    · simp [hb]
    · simp only [hb, Bool.false_eq_true, if_false]
      cases lastSplit p bs with
      | none => cases lastSplit p as <;> simp
      | some x => simp

theorem cutBody_content {ns : List Node} (h : IsRead ns) :
    (cutBody (sources ns)).content = sources (upToLast (isBody false) (isBody true) ns) := by
  have ho := findOpening?_of_isRead h "body".toList rfl
  cases hl : firstSplit (isBody false) ns with
  | none =>
    rw [upToLast, hl]
    rw [isBody] at hl
    rw [hl] at ho
    rw [cutBody, ho]
    rfl
  | some x =>
    obtain ⟨l, a, s⟩ := x
    obtain ⟨hns, ha, -⟩ := eq_of_firstSplit hl
    obtain ⟨k, hk, -, -, hstop⟩ := token?_of_isTagOf ha l
    rw [upToLast, hl]
    rw [isBody] at hl
    rw [hl] at ho
    simp only [Option.bind_some, hk] at ho
    have hns' : ns = (l ++ [a]) ++ s := by rw [hns]; simp
    have hc := findLastTag?_of_isRead h "body".toList rfl true
    have hla := lastSplit_append (isBody true) (l ++ [a]) s
    rw [← hns', isBody] at hla
    rw [hla] at hc
    have hall : ((sources ns).take (sources ns).length).drop k.stop = sources s := by
      rw [List.take_length, hstop, hns']
      exact drop_sources _ _
    rw [cutBody, ho]
    simp only [Option.map_some, Option.getD_some]
    cases hm : lastSplit (isBody true) s with
    | some y =>
      obtain ⟨m, b, r⟩ := y
      obtain ⟨hs, hb, -⟩ := eq_of_lastSplit hm
      obtain ⟨e, he, -, hes, -⟩ := token?_of_isTagOf hb (l ++ [a] ++ m)
      rw [isBody] at hm
      simp only [hm, Option.bind_some, he] at hc
      have hle : k.stop ≤ e.start := by
        rw [hes, hstop, sources_append (l ++ [a]), List.length_append]
        omega
      simp only [hc, ge_iff_le, hle, if_true, Option.map_some, Option.getD_some]
      rw [hes, hstop, hns', hs, ← List.append_assoc, take_sources, drop_sources]
    | none =>
      rw [isBody] at hm
      simp only [hm] at hc
      have hend : ∀ e, findLastTag? (sources ns) "body".toList true = some e →
          ¬ k.stop ≤ e.start := by
        intro e he
        rw [hc] at he
        obtain ⟨y, hy, he⟩ := Option.bind_eq_some_iff.1 he
        obtain ⟨z, hz, rfl⟩ := Option.map_eq_some_iff.1 hy
        obtain ⟨u, b, v⟩ := z
        obtain ⟨hu, hb, -⟩ := eq_of_lastSplit hz
        obtain ⟨e', he', -, hes, -⟩ := token?_of_isTagOf hb u
        rw [he'] at he
        obtain rfl := Option.some.inj he
        have := List.length_pos_iff.2 b.source_ne_nil
        rw [hes, hstop, hu, sources_append, List.length_append, sources_cons, List.length_append]
        omega
      cases he : findLastTag? (sources ns) "body".toList true with
      | none => exact hall
      | some e =>
        simp only [ge_iff_le, if_neg (hend e he)]
        exact hall

theorem areInert_iff {ns : List Node} :
    areInert ns = true ↔ ∀ inner, .comment inner ∈ ns → isInert inner = true := by
  rw [areInert, List.all_eq_true]
  refine ⟨fun h inner hm => h _ hm, fun h n hn => ?_⟩
  cases n with
  | comment inner => exact h inner hn
  | _ => rfl

theorem areInert_of_subset {ns ms : List Node} (h : areInert ns = true) (hs : ms ⊆ ns) :
    areInert ms = true :=
  areInert_iff.2 fun inner hm => areInert_iff.1 h inner (hs hm)

theorem areInert_eq (ns : List Node) :
    areInert ns = (commentsOf ns).all fun t => shellMarks.all (!mentions · t) := by
  induction ns with
  | nil => rfl
  | cons n ns ih =>
    cases n with
    | comment inner => exact congrArg (isInert inner && ·) ih
    | _ => exact ih

def shorn (ns : List Node) : List Node :=
  ((ns.filter (!holds doctype? ·)).filter (!holds xmlDeclaration? ·)).filter
    fun n => !n.tag?.any (·.isAmong documentNames)

theorem withoutShell_sources {ns : List Node} (hc : IsClean ns) (hi : areInert ns = true) :
    withoutShell (sources ns) = sources (shorn ns) := by
  have hd : ∀ inner, .comment inner ∈ ns → holds doctype? (.comment inner) = false :=
    fun inner hm => holds_doctype?_of_isInert (hc _ hm) (areInert_iff.1 hi inner hm)
  have hx : ∀ inner, .comment inner ∈ ns → holds xmlDeclaration? (.comment inner) = false :=
    fun inner hm => holds_xmlDeclaration?_of_isInert (hc _ hm) (areInert_iff.1 hi inner hm)
  have hs : ∀ (p : Node → Bool) (ns : List Node), ns.filter p ⊆ ns :=
    fun p ns => List.filter_subset_self ns
  have hcd := hc.of_subset (hs (!holds doctype? ·) ns)
  rw [withoutShell, readsDeclarations_doctype?.eraseHits_sources hc hd,
    readsDeclarations_xmlDeclaration?.eraseHits_sources hcd fun inner hm => hx inner (hs _ _ hm)]
  simpa [shorn] using editTags_erase (hcd.of_subset (hs (!holds xmlDeclaration? ·) _))
    documentNames fun _ => true

def unsettled (ns : List Node) : List Node :=
  (ns.filter fun n => !n.tag?.any fun t => t.isAmong ["meta".toList] && isShellMeta t).filter
    (!isOffice ·)

theorem dropSettings_sources {ns : List Node} (hc : IsClean ns) :
    dropOfficeSettings (dropShellMeta (sources ns)) = sources (unsettled ns) := by
  rw [dropShellMeta, editTags_erase hc, dropOfficeSettings_sources, unsettled]
  exact hc.of_subset (List.filter_subset_self ns)

theorem extra_parse {ns : List Node} (hc : IsClean ns) (hi : areInert ns = true) :
    (Head.parse (sources ns)).extra = join ['\n']
      (filledLines (sources (unsettled (outsideOf opensTitle closesTitle ns)))) := by
  have hs := outsideOf_subset opensTitle closesTitle ns
  rcases findHit_title hc hi with ⟨he, hf⟩ | ⟨l, m, r, x, he, -, hf⟩
  · have ho : outsideOf opensTitle closesTitle ns = ns := by rw [outsideOf, he]; rfl
    rw [Head.parse, hf, ho, ← dropSettings_sources hc]
  · have ho : outsideOf opensTitle closesTitle ns = l ++ r := by rw [outsideOf, he]; rfl
    rw [ho] at hs
    rw [Head.parse, hf, ho, ← dropSettings_sources (hc.of_subset hs), sources_append]

end MailMarkup.Document
