import MailMarkup.Proofs.Markup.TagReading

namespace MailMarkup.Markup

open Text

def isMarkupStart (c : Char) : Bool := c.isAlpha || ['/', '!', '?'].contains c

def isHarmless : Text → Bool
  | [] => true
  | c :: r => !(c == '<' && r.head?.any isMarkupStart) && isHarmless r

inductive Node where
  | char (c : Char)
  | angle (c : Char)
  | declaration (mark : Char) (inner : Text)
  | comment (inner : Text)
  | tag (closing : Bool) (name body : Text)
  deriving DecidableEq

namespace Node

def source : Node → Text
  | char c => [c]
  | angle c => ['<', c]
  | declaration m inner => '<' :: m :: (inner ++ ['>'])
  | comment inner => commentText inner
  | tag closing name body => tagText closing name body

def isTag (name body : Text) : Bool :=
  isName name && endsName (body ++ ['>']) && isSealed (.outside false) body

def isValid : Node → Bool
  | char c => c != '<'
  | angle c => c != '<' && !isMarkupStart c
  | declaration m inner =>
    ['!', '?'].contains m && !inner.contains '<' && !inner.contains '>' &&
      !"--".toList.isPrefixOf inner
  | comment inner => endsComment inner
  | tag _ name body => isTag name body && isHarmless body

def pieces : Node → Lexemes
  | comment inner => [.hit .comment (commentText inner)]
  | tag closing name body =>
    [.hit (.tag (.ofBody closing name body)) (tagText closing name body)]
  | n => n.source.map .char

end Node

def sources (ns : List Node) : Text := ns.flatMap Node.source

theorem sources_append (ns ms : List Node) : sources (ns ++ ms) = sources ns ++ sources ms :=
  List.flatMap_append

theorem sources_cons (n : Node) (ns : List Node) : sources (n :: ns) = n.source ++ sources ns :=
  List.flatMap_cons

theorem sources_map_char (t : Text) : sources (t.map .char) = t := by
  induction t with
  | nil => rfl
  | cons c t ih => rw [List.map_cons, sources_cons, ih]; rfl

def IsClean (ns : List Node) : Prop := ∀ n ∈ ns, n.isValid = true

instance (ns : List Node) : Decidable (IsClean ns) :=
  inferInstanceAs (Decidable (∀ n ∈ ns, n.isValid = true))

theorem IsClean.nil : IsClean [] := by simp [IsClean]

theorem IsClean.append {ns ms : List Node} (h : IsClean ns) (h' : IsClean ms) :
    IsClean (ns ++ ms) := by
  intro n hn
  rcases List.mem_append.1 hn with hn | hn
  · exact h n hn
  · exact h' n hn

theorem IsClean.head {n : Node} {ns : List Node} (h : IsClean (n :: ns)) : n.isValid = true :=
  h n List.mem_cons_self

theorem IsClean.tail {n : Node} {ns : List Node} (h : IsClean (n :: ns)) : IsClean ns :=
  fun m hm => h m (List.mem_cons_of_mem _ hm)

theorem IsClean.cons {n : Node} {ns : List Node} (h : n.isValid = true) (h' : IsClean ns) :
    IsClean (n :: ns) := by
  intro m hm
  rcases List.mem_cons.1 hm with rfl | hm
  · exact h
  · exact h' m hm

theorem IsClean.left {ns ms : List Node} (h : IsClean (ns ++ ms)) : IsClean ns :=
  fun n hn => h n (List.mem_append_left _ hn)

theorem IsClean.right {ns ms : List Node} (h : IsClean (ns ++ ms)) : IsClean ms :=
  fun n hn => h n (List.mem_append_right _ hn)

theorem Node.isTag_iff {name body : Text} : Node.isTag name body = true ↔ IsTag name body := by
  simp only [Node.isTag, Bool.and_eq_true]
  exact ⟨fun h => ⟨h.1.1, h.1.2, h.2⟩, fun h => ⟨⟨h.name_ok, h.ends⟩, h.sealed⟩⟩

theorem isHarmless_cons {c : Char} {r : Text} (h : isHarmless (c :: r) = true) :
    isHarmless r = true := by
  simp only [isHarmless, Bool.and_eq_true] at h
  exact h.2

theorem isHarmless_of_not_mem {t : Text} (h : '<' ∉ t) : isHarmless t = true := by
  induction t with
  | nil => rfl
  | cons c r ih =>
    rw [List.mem_cons, not_or] at h
    simp [isHarmless, Ne.symm h.1, ih h.2]

theorem isHarmless_of_isSuffix {s t : Text} (hs : s <:+ t) (h : isHarmless t = true) :
    isHarmless s = true := by
  obtain ⟨p, rfl⟩ := hs
  induction p with
  | nil => exact h
  | cons c p ih => exact ih (isHarmless_cons h)

theorem isHarmless_of_isPrefix {s t : Text} (hs : s <+: t) (h : isHarmless t = true) :
    isHarmless s = true := by
  obtain ⟨p, rfl⟩ := hs
  induction s with
  | nil => rfl
  | cons c s ih =>
    simp only [List.cons_append, isHarmless, Bool.and_eq_true] at h ⊢
    refine ⟨?_, ih h.2⟩
    cases s with
    | nil => simp
    | cons d s => exact h.1

theorem isHarmless_of_isInfix {s t : Text} (hs : s <:+: t) (h : isHarmless t = true) :
    isHarmless s = true := by
  obtain ⟨p, q, rfl⟩ := hs
  rw [List.append_assoc] at h
  exact isHarmless_of_isPrefix ⟨q, rfl⟩ (isHarmless_of_isSuffix ⟨p, rfl⟩ h)

theorem isHarmless_append {s t : Text} (hs : isHarmless s = true) (ht : isHarmless t = true)
    (h : t.head?.any isMarkupStart = false) : isHarmless (s ++ t) = true := by
  induction s with
  | nil => exact ht
  | cons c s ih =>
    simp only [List.cons_append, isHarmless, Bool.and_eq_true] at hs ⊢
    refine ⟨?_, ih hs.2⟩
    cases s with
    | nil => simp [h]
    | cons d s => exact hs.1

structure StartsMarkup (f : Text → Option β) : Prop where
  angle : ∀ {c : Char} (r : Text), c ≠ '<' → f (c :: r) = none
  start : ∀ {c : Char} (r : Text), isMarkupStart c = false → f ('<' :: c :: r) = none

def Passes (f : Text → Option β) (s r : Text) : Prop :=
  ∀ a b, s = a ++ b → b ≠ [] → f (b ++ r) = none

theorem Passes.nil (f : Text → Option β) (r : Text) : Passes f [] r := by
  intro a b h hb
  exact absurd (List.append_eq_nil_iff.1 h.symm).2 hb

theorem Passes.cons {f : Text → Option β} {c : Char} {s r : Text} (h : f (c :: (s ++ r)) = none)
    (hs : Passes f s r) : Passes f (c :: s) r := by
  intro a b he hb
  cases a with
  | nil =>
    obtain rfl : c :: s = b := he
    exact h
  | cons d a => exact hs a b (List.cons.inj he).2 hb

theorem Passes.head {f : Text → Option β} {c : Char} {s r : Text} (h : Passes f (c :: s) r) :
    f (c :: (s ++ r)) = none := h [] (c :: s) rfl (by simp)

theorem Passes.tail {f : Text → Option β} {c : Char} {s r : Text} (h : Passes f (c :: s) r) :
    Passes f s r := fun a b he hb => h (c :: a) b (by rw [he]; rfl) hb

theorem scan_of_passes {f : Recogniser α} {s r : Text} (h : Passes f s r) :
    scan f (s ++ r) = s.map .char ++ scan f r := by
  induction s with
  | nil => rfl
  | cons c s ih =>
    rw [List.cons_append, scan_cons_none h.head, ih h.tail]
    rfl

theorem passes_harmless {f : Text → Option β} (hf : StartsMarkup f) {s : Text}
    (h : isHarmless s = true) {d : Char} (hd : d ≠ '<') (hm : isMarkupStart d = false) (r : Text) :
    Passes f (s ++ [d]) r := by
  induction s with
  | nil => exact .cons (hf.angle _ hd) (.nil f r)
  | cons c s ih =>
    refine .cons ?_ (ih (isHarmless_cons h))
    by_cases hc : c = '<'
    · subst hc
      cases s with
      | nil => exact hf.start _ hm
      | cons e s =>
        simp only [isHarmless, Bool.and_eq_true] at h
        exact hf.start _ (by simpa using h.1)
    · exact hf.angle _ hc

theorem scan_cons_of_ne {f : Recogniser α} (hf : StartsMarkup f) {c : Char} (h : c ≠ '<')
    (r : Text) : scan f (c :: r) = .char c :: scan f r :=
  scan_cons_none (hf.angle r h)

theorem scan_angle {f : Recogniser α} (hf : StartsMarkup f) {c : Char} (h : c ≠ '<')
    (hc : isMarkupStart c = false) (r : Text) :
    scan f ('<' :: c :: r) = .char '<' :: .char c :: scan f r := by
  rw [scan_cons_none (hf.start r hc), scan_cons_of_ne hf h]

theorem scan_harmless {f : Recogniser α} (hf : StartsMarkup f) {s : Text}
    (h : isHarmless s = true) {d : Char} (hd : d ≠ '<') (hm : isMarkupStart d = false) (r : Text) :
    scan f (s ++ d :: r) = (s ++ [d]).map .char ++ scan f r := by
  have := scan_of_passes (passes_harmless hf h hd hm r)
  simpa using this

theorem scan_of_not_mem {f : Recogniser α} (hf : StartsMarkup f) {s : Text} (h : '<' ∉ s)
    (r : Text) : scan f (s ++ r) = s.map .char ++ scan f r := by
  induction s with
  | nil => rfl
  | cons c s ih =>
    rw [List.mem_cons, not_or] at h
    rw [List.cons_append, scan_cons_of_ne hf (Ne.symm h.1), ih h.2]
    rfl

theorem startsMarkup_lexeme? : StartsMarkup lexeme? where
  angle := by
    intro c r h
    cases hl : lexeme? (c :: r) with
    | none => rfl
    | some x => exact absurd (exists_angle_of_lexeme? hl) h
  start := by
    intro c r h
    simp only [isMarkupStart, List.contains_cons, List.contains_nil, Bool.or_eq_false_iff,
      beq_eq_false_iff_ne, ne_eq] at h
    obtain ⟨ha, hs, he, -⟩ := h
    have h1 : comment? ('<' :: c :: r) = none := by
      unfold comment?
      split
      · rename_i hx
        exact absurd (List.cons.inj (List.cons.inj hx).2).1 he
      · rfl
    have h2 : startsName (c :: r) = false := by
      by_cases hc : isNameChar c = true
      · simp [startsName, hc, isNameStart, ha]
      · simp [startsName, hc]
    have h3 : tagStart? ('<' :: c :: r) = none := by simp [tagStart?, hs, h2]
    simp [lexeme?, h1, tag?_of_tagStart?_none h3]

theorem lexeme?_declaration {m : Char} {t : Text} (hm : m = '!' ∨ m = '?')
    (h : "--".toList.isPrefixOf t = false) : lexeme? ('<' :: m :: t) = none := by
  have h1 : comment? ('<' :: m :: t) = none := by
    unfold comment?
    split
    · rename_i r he
      obtain ⟨-, rfl⟩ := List.cons.inj (List.cons.inj he).2
      simp at h
    · rfl
  have h2 : tagStart? ('<' :: m :: t) = none := by
    rcases hm with rfl | rfl
    · simp [tagStart?, startsName, isNameChar]
    · simp [tagStart?, startsName, isNameChar]
  simp [lexeme?, h1, tag?_of_tagStart?_none h2]

theorem isValid_declaration {m : Char} {inner : Text} :
    (Node.declaration m inner).isValid = true ↔ (m = '!' ∨ m = '?') ∧ '<' ∉ inner ∧ '>' ∉ inner ∧
      "--".toList.isPrefixOf inner = false := by
  simp [Node.isValid, and_assoc]

theorem isPrefixOf_dashes_append {t r : Text} {d : Char} (hd : d ≠ '-')
    (h : "--".toList.isPrefixOf t = false) : "--".toList.isPrefixOf (t ++ d :: r) = false := by
  match t with
  | [] => simp [List.isPrefixOf, Ne.symm hd]
  | [c] => simp [List.isPrefixOf, Ne.symm hd]
  | c :: e :: t => simpa [List.isPrefixOf] using h

theorem lexemes_declaration {m : Char} {inner : Text}
    (h : (Node.declaration m inner).isValid = true) (rest : Text) :
    lexemes ('<' :: m :: (inner ++ '>' :: rest)) =
      ('<' :: m :: (inner ++ ['>'])).map .char ++ lexemes rest := by
  obtain ⟨hm, hl, -, hc⟩ := isValid_declaration.1 h
  have hn : '<' ∉ m :: (inner ++ ['>']) := by
    rcases hm with rfl | rfl <;> simp [hl]
  have hs := scan_of_not_mem startsMarkup_lexeme? hn rest
  rw [lexemes_char (lexeme?_declaration hm (isPrefixOf_dashes_append (by decide) hc))]
  simpa [lexemes] using hs

def Node.isRead : Node → Bool
  | tag _ name body => isTag name body
  | n => n.isValid

theorem Node.isRead_of_isValid {n : Node} (h : n.isValid = true) : n.isRead = true := by
  cases n with
  | tag closing name body =>
    simp only [isValid, Bool.and_eq_true] at h
    exact h.1
  | _ => exact h

def IsRead (ns : List Node) : Prop := ∀ n ∈ ns, n.isRead = true

theorem IsClean.isRead {ns : List Node} (h : IsClean ns) : IsRead ns :=
  fun n hn => Node.isRead_of_isValid (h n hn)

theorem lexemes_source_append {n : Node} (h : n.isRead = true) (rest : Text) :
    lexemes (n.source ++ rest) = n.pieces ++ lexemes rest := by
  cases n with
  | char c =>
    simp only [Node.isRead, Node.isValid, bne_iff_ne, ne_eq] at h
    exact scan_cons_of_ne startsMarkup_lexeme? h rest
  | angle c =>
    simp only [Node.isRead, Node.isValid, Bool.and_eq_true, bne_iff_ne, ne_eq,
      Bool.not_eq_true'] at h
    exact scan_angle startsMarkup_lexeme? h.1 h.2 rest
  | declaration m inner =>
    have := lexemes_declaration h rest
    simpa [Node.source, Node.pieces] using this
  | comment inner => exact lexemes_commentText h rest
  | tag closing name body => exact lexemes_tagText (Node.isTag_iff.1 h) rest

theorem lexemes_append_of_isRead {ns : List Node} (h : IsRead ns) (rest : Text) :
    lexemes (sources ns ++ rest) = ns.flatMap Node.pieces ++ lexemes rest := by
  induction ns with
  | nil => rfl
  | cons n ns ih =>
    rw [sources_cons, List.append_assoc, lexemes_source_append (h n List.mem_cons_self),
      ih fun m hm => h m (List.mem_cons_of_mem _ hm), List.flatMap_cons, List.append_assoc]

theorem lexemes_of_isRead {ns : List Node} (h : IsRead ns) :
    lexemes (sources ns) = ns.flatMap Node.pieces := by
  have := lexemes_append_of_isRead h []
  rwa [List.append_nil, show lexemes [] = [] from rfl, List.append_nil] at this

theorem lexemes_sources {ns : List Node} (h : IsClean ns) :
    lexemes (sources ns) = ns.flatMap Node.pieces := lexemes_of_isRead h.isRead

end MailMarkup.Markup
