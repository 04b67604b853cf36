import MailMarkup.Document.Shell
import MailMarkup.Proofs.Spacing.Tidying

namespace MailMarkup.Text

section

variable {p q k : α → Bool} {as : List α}

def enclosed (p q : α → Bool) (as : List α) : Option (List α × List α × List α) :=
  (firstSplit p as).bind fun x => (firstSplit q x.2.2).map fun y => (x.1, y.1, y.2.2)

def outsideOf (p q : α → Bool) (as : List α) : List α :=
  ((enclosed p q as).map fun x => x.1 ++ x.2.2).getD as

def insideOf (p q : α → Bool) (as : List α) : List α :=
  ((enclosed p q as).map fun x => x.2.1).getD []

def upToLast (p q : α → Bool) (as : List α) : List α :=
  ((firstSplit p as).map fun x => ((lastSplit q x.2.2).map fun y => y.1).getD x.2.2).getD as

theorem enclosed_filter (hp : ∀ a, p a = true → k a = true) (hq : ∀ a, q a = true → k a = true)
    (as : List α) : enclosed p q (as.filter k) =
      (enclosed p q as).map fun x => (x.1.filter k, x.2.1.filter k, x.2.2.filter k) := by
  rw [enclosed, firstSplit_filter hp, enclosed]
  cases firstSplit p as with
  | none => rfl
  | some x =>
    simp only [Option.map_some, Option.bind_some, firstSplit_filter hq, Option.map_map]
    rfl

theorem outsideOf_filter (hp : ∀ a, p a = true → k a = true) (hq : ∀ a, q a = true → k a = true)
    (as : List α) : outsideOf p q (as.filter k) = (outsideOf p q as).filter k := by
  rw [outsideOf, enclosed_filter hp hq, outsideOf]
  cases enclosed p q as <;> simp

theorem insideOf_filter (hp : ∀ a, p a = true → k a = true) (hq : ∀ a, q a = true → k a = true)
    (as : List α) : insideOf p q (as.filter k) = (insideOf p q as).filter k := by
  rw [insideOf, enclosed_filter hp hq, insideOf]
  cases enclosed p q as <;> simp

theorem upToLast_filter (hp : ∀ a, p a = true → k a = true) (hq : ∀ a, q a = true → k a = true)
    (as : List α) : upToLast p q (as.filter k) = (upToLast p q as).filter k := by
  rw [upToLast, firstSplit_filter hp, upToLast]
  cases firstSplit p as with
  | none => simp
  | some x =>
    simp only [Option.map_some, Option.getD_some, lastSplit_filter hq, Option.map_map]
    cases lastSplit q x.2.2 <;> simp

end

section

variable {α β : Type} {r : α → β → Prop} {p q : α → Bool} {p' q' : β → Bool}

theorem firstSplit_forall₂ (hp : ∀ a b, r a b → p a = p' b) {as : List α} {bs : List β}
    (h : List.Forall₂ r as bs) :
    (firstSplit p as = none ∧ firstSplit p' bs = none) ∨
      ∃ l a s l' b s', firstSplit p as = some (l, a, s) ∧ firstSplit p' bs = some (l', b, s') ∧
        List.Forall₂ r l l' ∧ List.Forall₂ r s s' := by
  induction h with
  | nil => exact .inl ⟨rfl, rfl⟩
  | @cons a b as bs hab h ih =>
    have he := hp a b hab
    by_cases ha : p a = true
    · have hb : p' b = true := he ▸ ha
      exact .inr ⟨[], a, as, [], b, bs, by simp [firstSplit, ha], by simp [firstSplit, hb], .nil, h⟩
    · have hb : ¬ p' b = true := he ▸ ha
      rcases ih with ⟨h1, h2⟩ | ⟨l, c, s, l', c', s', h1, h2, hl, hs⟩
      · exact .inl ⟨by simp [firstSplit, ha, h1], by simp [firstSplit, hb, h2]⟩
      · exact .inr ⟨a :: l, c, s, b :: l', c', s', by simp [firstSplit, ha, h1],
          by simp [firstSplit, hb, h2], .cons hab hl, hs⟩

theorem lastSplit_forall₂ (hp : ∀ a b, r a b → p a = p' b) {as : List α} {bs : List β}
    (h : List.Forall₂ r as bs) :
    (lastSplit p as = none ∧ lastSplit p' bs = none) ∨
      ∃ l a s l' b s', lastSplit p as = some (l, a, s) ∧ lastSplit p' bs = some (l', b, s') ∧
        List.Forall₂ r l l' ∧ List.Forall₂ r s s' := by
  rcases firstSplit_forall₂ hp (List.forall₂_reverse_iff.2 h) with
    ⟨h1, h2⟩ | ⟨l, a, s, l', b, s', h1, h2, hl, hs⟩
  · exact .inl ⟨by simp [lastSplit, h1], by simp [lastSplit, h2]⟩
  · exact .inr ⟨s.reverse, a, l.reverse, s'.reverse, b, l'.reverse, by simp [lastSplit, h1],
      by simp [lastSplit, h2], List.forall₂_reverse_iff.2 hs, List.forall₂_reverse_iff.2 hl⟩

theorem enclosed_forall₂ (hp : ∀ a b, r a b → p a = p' b) (hq : ∀ a b, r a b → q a = q' b)
    {as : List α} {bs : List β} (h : List.Forall₂ r as bs) :
    (enclosed p q as = none ∧ enclosed p' q' bs = none) ∨
      ∃ l m s l' m' s', enclosed p q as = some (l, m, s) ∧ enclosed p' q' bs = some (l', m', s') ∧
        List.Forall₂ r l l' ∧ List.Forall₂ r m m' ∧ List.Forall₂ r s s' := by
  rcases firstSplit_forall₂ hp h with ⟨h1, h2⟩ | ⟨l, a, s, l', b, s', h1, h2, hl, hs⟩
  · exact .inl ⟨by simp [enclosed, h1], by simp [enclosed, h2]⟩
  · rcases firstSplit_forall₂ hq hs with ⟨h3, h4⟩ | ⟨m, c, t, m', d, t', h3, h4, hm, ht⟩
    · exact .inl ⟨by simp [enclosed, h1, h3], by simp [enclosed, h2, h4]⟩
    · exact .inr ⟨l, m, t, l', m', t', by simp [enclosed, h1, h3], by simp [enclosed, h2, h4], hl,
        hm, ht⟩

theorem outsideOf_forall₂ (hp : ∀ a b, r a b → p a = p' b) (hq : ∀ a b, r a b → q a = q' b)
    {as : List α} {bs : List β} (h : List.Forall₂ r as bs) :
    List.Forall₂ r (outsideOf p q as) (outsideOf p' q' bs) := by
  rcases enclosed_forall₂ hp hq h with ⟨h1, h2⟩ | ⟨l, m, s, l', m', s', h1, h2, hl, -, hs⟩
  · simpa [outsideOf, h1, h2] using h
  · simpa [outsideOf, h1, h2] using List.rel_append hl hs

theorem insideOf_forall₂ (hp : ∀ a b, r a b → p a = p' b) (hq : ∀ a b, r a b → q a = q' b)
    {as : List α} {bs : List β} (h : List.Forall₂ r as bs) :
    List.Forall₂ r (insideOf p q as) (insideOf p' q' bs) := by
  rcases enclosed_forall₂ hp hq h with ⟨h1, h2⟩ | ⟨l, m, s, l', m', s', h1, h2, -, hm, -⟩
  · simp [insideOf, h1, h2]
  · simpa [insideOf, h1, h2] using hm

theorem upToLast_forall₂ (hp : ∀ a b, r a b → p a = p' b) (hq : ∀ a b, r a b → q a = q' b)
    {as : List α} {bs : List β} (h : List.Forall₂ r as bs) :
    List.Forall₂ r (upToLast p q as) (upToLast p' q' bs) := by
  rcases firstSplit_forall₂ hp h with ⟨h1, h2⟩ | ⟨l, a, s, l', b, s', h1, h2, -, hs⟩
  · simpa [upToLast, h1, h2] using h
  · rcases lastSplit_forall₂ hq hs with ⟨h3, h4⟩ | ⟨m, c, t, m', d, t', h3, h4, hm, -⟩
    · simpa [upToLast, h1, h2, h3, h4] using hs
    · simpa [upToLast, h1, h2, h3, h4] using hm

theorem filter_forall₂ (hp : ∀ a b, r a b → p a = p' b) {as : List α} {bs : List β}
    (h : List.Forall₂ r as bs) : List.Forall₂ r (as.filter p) (bs.filter p') := by
  induction h with
  | nil => exact .nil
  | @cons a b as bs hab h ih =>
    rw [List.filter_cons, List.filter_cons, hp a b hab]
    split
    · exact .cons hab ih
    · exact ih

end

end MailMarkup.Text

namespace MailMarkup.Markup

open Text Spacing

theorem commentsOf_forall₂ {R : Text → Text → Prop} {ns ms : List Node}
    (h : List.Forall₂ (Respelled Eq R) ns ms) : commentsOf ns = commentsOf ms := by
  induction h with
  | nil => rfl
  | cons hr _ ih =>
    cases hr with
    | declaration m h => exact ih
    | comment h => subst h; exact congrArg (_ :: ·) ih
    | tag closing name h => exact ih

theorem isFirm_of_respelled {C R : Text → Text → Prop} (names : List Text) (n m : Node)
    (h : Respelled C R n m) : n.isFirm names = m.isFirm names := by
  cases h with
  | declaration m h => rfl
  | comment h => rfl
  | tag closing name h => rfl

theorem skeleton_forall₂ {C R : Text → Text → Prop} {names more : List Text} {ns ms : List Node}
    (h : List.Forall₂ (Respelled C R) (skeleton names ns) (skeleton names ms)) (hm : names ⊆ more) :
    List.Forall₂ (Respelled C R) (skeleton more ns) (skeleton more ms) := by
  rw [← skeleton_skeleton hm ns, ← skeleton_skeleton hm ms]
  exact filter_forall₂ (isFirm_of_respelled more) h

theorem isTagOf_of_respelled {C R : Text → Text → Prop} (name : Text) (closing : Bool) (n m : Node)
    (h : Respelled C R n m) : n.isTagOf name closing = m.isTagOf name closing := by
  cases h with
  | declaration m h => rfl
  | comment h => rfl
  | tag closing name h => rfl

theorem isFirm_of_isTagOf {names : List Text} {name : Text} (hn : name ∉ names) (closing : Bool)
    (n : Node) (h : n.isTagOf name closing = true) : n.isFirm names = true := by
  cases n with
  | tag closing' name' body =>
    simp only [Node.isTagOf, Node.tag?, Option.any_some, Bool.and_eq_true, beq_iff_eq] at h
    have : name = name'.map Char.toLower := h.1
    simpa [Node.isFirm, ← this] using hn
  | _ => simp [Node.isTagOf, Node.tag?] at h

end MailMarkup.Markup

namespace MailMarkup.Document

open Text Markup Spacing

def isHead (closing : Bool) : Node → Bool := Node.isTagOf "head".toList closing

def isBody (closing : Bool) : Node → Bool := Node.isTagOf "body".toList closing

def opensTitle : Node → Bool
  | .tag false name _ =>
    let n := name.map Char.toLower
    "title".toList.isPrefixOf n && atWordEnd (n.drop 5)
  | _ => false

def closesTitle : Node → Bool
  | .tag true name body => name.map Char.toLower == "title".toList && body.all isBlank
  | _ => false

def withoutHead (ns : List Node) : List Node := outsideOf (isHead false) (isHead true) ns

def titleNodes (ns : List Node) : List Node :=
  insideOf opensTitle closesTitle (insideOf (isHead false) (isHead true) ns)

def headNodes (ns : List Node) : List Node :=
  outsideOf opensTitle closesTitle (insideOf (isHead false) (isHead true) ns)

def bodyNodes (ns : List Node) : List Node :=
  upToLast (isBody false) (isBody true) (withoutHead ns)

def titleComments (ns : List Node) : List Text := commentsOf (titleNodes ns)

def headComments (ns : List Node) : List Text :=
  (commentsOf (headNodes ns)).filter (!occursIn officeSettings ·)

def bodyComments (ns : List Node) : List Text := commentsOf (bodyNodes ns)

section

variable {C R : Text → Text → Prop}

theorem opensTitle_of_respelled (n m : Node) (h : Respelled C R n m) :
    opensTitle n = opensTitle m := by
  cases h with
  | declaration m h => rfl
  | comment h => rfl
  | tag closing name h => cases closing <;> rfl

theorem closesTitle_of_respelled (hR : IsSpacing R) (n m : Node) (h : Respelled C R n m) :
    closesTitle n = closesTitle m := by
  cases h with
  | declaration m h => rfl
  | comment h => rfl
  | tag closing name h =>
    cases closing with
    | false => rfl
    | true => rw [closesTitle, closesTitle, (hR.respaced h).all_isBlank_eq]

structure AreInner (names : List Text) : Prop where
  head : "head".toList ∉ names
  body : "body".toList ∉ names
  title : ∀ n ∈ names, "title".toList.isPrefixOf n = false

theorem AreInner.isFirm_of_opensTitle {names : List Text} (h : AreInner names) (n : Node)
    (hn : opensTitle n = true) : n.isFirm names = true := by
  unfold opensTitle at hn
  split at hn
  · simp only [Bool.and_eq_true] at hn
    rw [Node.isFirm, Bool.not_eq_true', ← Bool.not_eq_true, List.contains_iff_mem]
    intro hm
    rw [h.title _ hm] at hn
    exact absurd hn.1 (by simp)
  · simp at hn

theorem AreInner.isFirm_of_closesTitle {names : List Text} (h : AreInner names) (n : Node)
    (hn : closesTitle n = true) : n.isFirm names = true := by
  unfold closesTitle at hn
  split at hn
  · simp only [Bool.and_eq_true, beq_iff_eq] at hn
    rw [Node.isFirm, Bool.not_eq_true', ← Bool.not_eq_true, List.contains_iff_mem, hn.1]
    exact fun hm => absurd (h.title _ hm) (by decide)
  · simp at hn

theorem titleNodes_skeleton {names : List Text} (h : AreInner names) (ns : List Node) :
    titleNodes (skeleton names ns) = skeleton names (titleNodes ns) := by
  have h1 : insideOf (isHead false) (isHead true) (skeleton names ns) =
      skeleton names (insideOf (isHead false) (isHead true) ns) :=
    insideOf_filter (isFirm_of_isTagOf h.head false) (isFirm_of_isTagOf h.head true) ns
  rw [titleNodes, h1]
  exact insideOf_filter h.isFirm_of_opensTitle h.isFirm_of_closesTitle _

theorem headNodes_skeleton {names : List Text} (h : AreInner names) (ns : List Node) :
    headNodes (skeleton names ns) = skeleton names (headNodes ns) := by
  have h1 : insideOf (isHead false) (isHead true) (skeleton names ns) =
      skeleton names (insideOf (isHead false) (isHead true) ns) :=
    insideOf_filter (isFirm_of_isTagOf h.head false) (isFirm_of_isTagOf h.head true) ns
  rw [headNodes, h1]
  exact outsideOf_filter h.isFirm_of_opensTitle h.isFirm_of_closesTitle _

theorem bodyNodes_skeleton {names : List Text} (h : AreInner names) (ns : List Node) :
    bodyNodes (skeleton names ns) = skeleton names (bodyNodes ns) := by
  have h1 : withoutHead (skeleton names ns) = skeleton names (withoutHead ns) :=
    outsideOf_filter (isFirm_of_isTagOf h.head false) (isFirm_of_isTagOf h.head true) ns
  rw [bodyNodes, h1]
  exact upToLast_filter (isFirm_of_isTagOf h.body false) (isFirm_of_isTagOf h.body true) _

theorem titleNodes_forall₂ (hR : IsSpacing R) {ns ms : List Node}
    (h : List.Forall₂ (Respelled C R) ns ms) :
    List.Forall₂ (Respelled C R) (titleNodes ns) (titleNodes ms) :=
  insideOf_forall₂ opensTitle_of_respelled (closesTitle_of_respelled hR)
    (insideOf_forall₂ (isTagOf_of_respelled _ false) (isTagOf_of_respelled _ true) h)

theorem headNodes_forall₂ (hR : IsSpacing R) {ns ms : List Node}
    (h : List.Forall₂ (Respelled C R) ns ms) :
    List.Forall₂ (Respelled C R) (headNodes ns) (headNodes ms) :=
  outsideOf_forall₂ opensTitle_of_respelled (closesTitle_of_respelled hR)
    (insideOf_forall₂ (isTagOf_of_respelled _ false) (isTagOf_of_respelled _ true) h)

theorem bodyNodes_forall₂ {ns ms : List Node} (h : List.Forall₂ (Respelled C R) ns ms) :
    List.Forall₂ (Respelled C R) (bodyNodes ns) (bodyNodes ms) :=
  upToLast_forall₂ (isTagOf_of_respelled _ false) (isTagOf_of_respelled _ true)
    (outsideOf_forall₂ (isTagOf_of_respelled _ false) (isTagOf_of_respelled _ true) h)

end

structure SameParts (ns ms : List Node) : Prop where
  comments : commentsOf ms = commentsOf ns
  title : titleComments ms = titleComments ns
  head : headComments ms = headComments ns
  body : bodyComments ms = bodyComments ns

theorem sameParts {R : Text → Text → Prop} (hR : IsSpacing R) {names : List Text}
    (h : AreInner names) {ns ms : List Node}
    (hr : List.Forall₂ (Respelled Eq R) (skeleton names ns) (skeleton names ms)) :
    SameParts ns ms := by
  refine ⟨?_, ?_, ?_, ?_⟩
  · rw [← commentsOf_skeleton names, ← commentsOf_skeleton names ns, commentsOf_forall₂ hr]
  · have := commentsOf_forall₂ (titleNodes_forall₂ hR hr)
    rw [titleNodes_skeleton h, titleNodes_skeleton h, commentsOf_skeleton,
      commentsOf_skeleton] at this
    exact this.symm
  · have := commentsOf_forall₂ (headNodes_forall₂ hR hr)
    rw [headNodes_skeleton h, headNodes_skeleton h, commentsOf_skeleton,
      commentsOf_skeleton] at this
    rw [headComments, headComments, this]
  · have := commentsOf_forall₂ (bodyNodes_forall₂ hr)
    rw [bodyNodes_skeleton h, bodyNodes_skeleton h, commentsOf_skeleton,
      commentsOf_skeleton] at this
    rw [bodyComments, bodyComments, this]

end MailMarkup.Document
