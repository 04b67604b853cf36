import MailMarkup.Document.Shell
import MailMarkup.Proofs.Spacing.Regions

namespace MailMarkup.Markup

open Text Spacing

structure ReadsDeclarations (f : Recogniser α) : Prop where
  angle : ∀ {c : Char} (r : Text), c ≠ '<' → f (c :: r) = none
  mark : ∀ {c : Char} (r : Text), c ≠ '!' → c ≠ '?' → f ('<' :: c :: r) = none
  ends : ∀ {t : Text} (r : Text), '>' ∉ t → f (t ++ '>' :: r) = f (t ++ ['>'])
  whole : ∀ {t : Text} {a : α} {n : Nat}, '>' ∉ t → f (t ++ ['>']) = some (a, n) → n = t.length

section

variable {f : Recogniser α}

theorem ReadsDeclarations.startsMarkup (hf : ReadsDeclarations f) : StartsMarkup f where
  angle := hf.angle
  start := by
    intro c r h
    refine hf.mark r ?_ ?_
    · rintro rfl
      revert h
      decide
    · rintro rfl
      revert h
      decide

theorem ReadsDeclarations.scan_append (hf : ReadsDeclarations f) (t r : Text) :
    scan f (t ++ '>' :: r) = scan f (t ++ ['>']) ++ scan f r := by
  match t with
  | [] =>
    have h : ∀ r, scan f ('>' :: r) = .char '>' :: scan f r :=
      fun r => scan_cons_none (hf.angle r (by decide))
    rw [List.nil_append, List.nil_append, h, h]
    rfl
  | c :: t =>
    have hrest := hf.scan_append t r
    have hm : '>' ∈ c :: t ++ ['>'] := by simp
    obtain ⟨x, y, hxy, hx⟩ := List.eq_append_cons_of_mem hm
    have hxy' : c :: t ++ '>' :: r = x ++ '>' :: (y ++ r) := by
      rw [← List.cons_append, ← List.append_assoc, ← hxy]
      simp
    have h1 : f (c :: (t ++ '>' :: r)) = f (x ++ ['>']) := by
      rw [← hf.ends (y ++ r) hx, ← hxy']
      rfl
    have h2 : f (c :: (t ++ ['>'])) = f (x ++ ['>']) := by
      rw [← hf.ends y hx, ← hxy]
      rfl
    cases hv : f (x ++ ['>']) with
    | none =>
      rw [List.cons_append, List.cons_append, scan_cons_none (h1.trans hv),
        scan_cons_none (h2.trans hv), hrest]
      rfl
    | some v =>
      obtain ⟨a, n⟩ := v
      obtain rfl := hf.whole hx hv
      cases x with
      | nil =>
        rw [List.nil_append, hf.angle [] (by decide)] at hv
        cases hv
      | cons d x =>
        obtain ⟨rfl, hty⟩ : c = d ∧ t ++ ['>'] = x ++ '>' :: y := List.cons.inj hxy
        have hxy' : t ++ '>' :: r = x ++ '>' :: (y ++ r) := (List.cons.inj hxy').2
        have htake : ∀ z, (x ++ '>' :: z).take (c :: x).length = x ++ ['>'] ∧
            (x ++ '>' :: z).drop (c :: x).length = z := by
          intro z
          have : x ++ '>' :: z = (x ++ ['>']) ++ z := by simp
          rw [this]
          exact ⟨List.take_left' (by simp), List.drop_left' (by simp)⟩
        rw [List.cons_append, List.cons_append, scan_cons_some (h1.trans hv),
          scan_cons_some (h2.trans hv)]
        rw [hxy', hty, (htake _).1, (htake _).1, (htake _).2, (htake _).2]
        rcases List.eq_nil_or_concat y with rfl | ⟨y, e, rfl⟩
        · rfl
        · have hlast := congrArg List.getLast? hty
          simp only [List.getLast?_append, List.concat_eq_append, List.getLast?_cons] at hlast
          simp at hlast
          subst hlast
          have hlen : y.length < t.length + 1 := by
            have := congrArg List.length hty
            simp at this
            omega
          have := hf.scan_append y r
          simp only [List.concat_eq_append, List.append_assoc, List.cons_append, List.nil_append]
          rw [this]
termination_by t.length

theorem ReadsDeclarations.scan_source (hf : ReadsDeclarations f) {n : Node} (hv : n.isValid = true)
    (r : Text) : scan f (n.source ++ r) = scan f n.source ++ scan f r := by
  have hend : ∀ {t : Text}, n.source = t ++ ['>'] →
      scan f (n.source ++ r) = scan f n.source ++ scan f r := by
    intro t ht
    rw [ht, ← hf.scan_append]
    simp
  cases n with
  | char c =>
    simp only [Node.isValid, bne_iff_ne, ne_eq] at hv
    have h := scan_cons_of_ne hf.startsMarkup hv
    rw [Node.source, h []]
    exact h r
  | angle c =>
    simp only [Node.isValid, Bool.and_eq_true, bne_iff_ne, ne_eq, Bool.not_eq_true'] at hv
    have h := scan_angle hf.startsMarkup hv.1 hv.2
    rw [Node.source, h []]
    exact h r
  | declaration m inner => exact hend (t := '<' :: m :: inner) rfl
  | comment inner =>
    obtain ⟨i, rfl⟩ := exists_of_endsComment hv
    exact hend (t := commentText i) (by simp [Node.source, commentText])
  | tag closing name body =>
    exact hend (t := '<' :: ((if closing then '/' :: name else name) ++ body)) rfl

theorem ReadsDeclarations.scan_sources (hf : ReadsDeclarations f) {ns : List Node}
    (hc : IsClean ns) : scan f (sources ns) = ns.flatMap fun n => scan f n.source := by
  induction ns with
  | nil => rfl
  | cons n ns ih => rw [sources_cons, hf.scan_source hc.head, ih hc.tail, List.flatMap_cons]

def holds (f : Recogniser α) (n : Node) : Bool := !(hits f n.source).isEmpty

theorem scan_of_hits_nil {t : Text} (h : hits f t = []) : scan f t = t.map .char := by
  have hp : ∀ ps : List (Piece α), ps.filterMap Piece.value? = [] →
      ps = (ps.flatMap Piece.source).map .char := by
    intro ps h
    induction ps with
    | nil => rfl
    | cons p ps ih =>
      cases p with
      | char c => exact congrArg (.char c :: ·) (ih h)
      | hit a s => simp [Piece.value?] at h
  have := hp _ h
  rwa [flatMap_source_scan] at this

theorem eraseHits_of_hits_nil {t : Text} (h : hits f t = []) : eraseHits f t = t := by
  rw [eraseHits, scan_of_hits_nil h]
  clear h
  induction t with
  | nil => rfl
  | cons c t ih => exact congrArg (c :: ·) ih

theorem filterMap_map_char (s : Text) :
    (s.map (.char : Char → Piece α)).filterMap Piece.value? = [] := by
  induction s with
  | nil => rfl
  | cons c s ih => exact ih

theorem ReadsDeclarations.hits_tag (hf : ReadsDeclarations f) {closing : Bool} {name body : Text}
    (hv : (Node.tag closing name body).isValid = true) :
    hits f (Node.tag closing name body).source = [] := by
  obtain ⟨c, t, ht, hc, hq, -⟩ := exists_tag_cons hv
  have hn : f ((Node.tag closing name body).source ++ []) = none := by
    rw [List.append_nil, Node.source, tagText, ht]
    exact hf.mark _ hc hq
  have := scan_passed hf.startsMarkup hv (by simp) hn
  rw [List.append_nil] at this
  rw [hits, this]
  exact (List.filterMap_append ..).trans (by rw [filterMap_map_char]; rfl)

theorem ReadsDeclarations.eraseHits_source (hf : ReadsDeclarations f) {n : Node}
    (hv : n.isValid = true) (hn : ∀ inner, n = .comment inner → holds f n = false) :
    eraseHits f n.source = if holds f n then [] else n.source := by
  have hnil : hits f n.source = [] → eraseHits f n.source = if holds f n then [] else n.source := by
    intro h
    rw [eraseHits_of_hits_nil h, holds, h]
    rfl
  cases n with
  | char c =>
    simp only [Node.isValid, bne_iff_ne, ne_eq] at hv
    refine hnil ?_
    rw [hits, Node.source, scan_cons_of_ne hf.startsMarkup hv]
    rfl
  | angle c =>
    simp only [Node.isValid, Bool.and_eq_true, bne_iff_ne, ne_eq, Bool.not_eq_true'] at hv
    refine hnil ?_
    rw [hits, Node.source, scan_angle hf.startsMarkup hv.1 hv.2]
    rfl
  | comment inner =>
    refine hnil ?_
    simpa [holds] using hn inner rfl
  | tag closing name body => exact hnil (hf.hits_tag hv)
  | declaration m inner =>
    obtain ⟨hm, hl, hg, -⟩ := isValid_declaration.1 hv
    have hg' : '>' ∉ '<' :: m :: inner := by
      rcases hm with rfl | rfl <;> simp [hg]
    have hl' : '<' ∉ m :: (inner ++ ['>']) := by
      rcases hm with rfl | rfl <;> simp [hl]
    cases hx : f ('<' :: m :: (inner ++ ['>'])) with
    | none =>
      refine hnil ?_
      have := scan_of_not_mem hf.startsMarkup hl' []
      rw [List.append_nil] at this
      rw [hits, Node.source, scan_cons_none hx, this]
      exact (List.filterMap_append ..).trans (by rw [filterMap_map_char]; rfl)
    | some v =>
      obtain ⟨a, k⟩ := v
      obtain rfl := hf.whole hg' (t := '<' :: m :: inner) hx
      have hdrop : (m :: (inner ++ ['>'])).drop ('<' :: m :: inner).length = [] :=
        List.drop_eq_nil_of_le (by simp)
      have hs : scan f ('<' :: m :: (inner ++ ['>'])) =
          [.hit a ('<' :: (m :: (inner ++ ['>'])).take ('<' :: m :: inner).length)] := by
        rw [scan_cons_some hx, hdrop]
        rfl
      rw [Node.source, holds, eraseHits, hits, Node.source, hs]
      rfl

theorem ReadsDeclarations.eraseHits_sources (hf : ReadsDeclarations f) {ns : List Node}
    (hc : IsClean ns) (hn : ∀ inner, .comment inner ∈ ns → holds f (.comment inner) = false) :
    eraseHits f (sources ns) = sources (ns.filter (!holds f ·)) := by
  rw [eraseHits, hf.scan_sources hc]
  induction ns with
  | nil => rfl
  | cons n ns ih =>
    rw [List.flatMap_cons, List.flatMap_append, ih hc.tail fun i hi =>
      hn i (List.mem_cons_of_mem _ hi)]
    have he := hf.eraseHits_source hc.head fun i hi => hi ▸ hn i (hi ▸ List.mem_cons_self)
    rw [eraseHits] at he
    rw [he, List.filter_cons]
    cases holds f n <;> rfl

theorem findHit_isSome (f : Recogniser α) (t : Text) :
    (findHit f t).isSome = !(hits f t).isEmpty := by
  induction t with
  | nil => rfl
  | cons c t ih =>
    cases hx : f (c :: t) with
    | none =>
      rw [hits, scan_cons_none hx, findHit, hx, Option.isSome_map]
      exact ih
    | some v =>
      rw [hits, scan_cons_some hx, findHit, hx]
      rfl

theorem ReadsDeclarations.findHit_sources (hf : ReadsDeclarations f) {ns : List Node}
    (hc : IsClean ns) : (findHit f (sources ns)).isSome = ns.any (holds f) := by
  rw [findHit_isSome, hits, hf.scan_sources hc]
  clear hc
  induction ns with
  | nil => rfl
  | cons n ns ih =>
    rw [List.flatMap_cons, List.filterMap_append, List.any_cons, ← ih, holds, hits]
    cases (scan f n.source).filterMap Piece.value? <;> simp

end

end MailMarkup.Markup

namespace MailMarkup.Document

open Text Markup Spacing

theorem dropFolded?_append {w : Text} (hw : '>' ∉ w) (t r : Text) :
    dropFolded? w (t ++ '>' :: r) = (dropFolded? w t).map (· ++ '>' :: r) := by
  induction w generalizing t with
  | nil => rfl
  | cons p w ih =>
    rw [List.mem_cons, not_or] at hw
    cases t with
    | nil => simp [dropFolded?, show foldLetter '>' = '>' from rfl, hw.1]
    | cons c t =>
      simp only [List.cons_append, dropFolded?]
      split
      · exact ih hw.2 t
      · rfl

theorem length_of_dropFolded? {w t z : Text} (h : dropFolded? w t = some z) :
    t.length = w.length + z.length := by
  obtain ⟨p, hp, rfl⟩ := exists_append_of_dropFolded? h
  rw [List.length_append, hp]

theorem doctype?_append {t : Text} (ht : '>' ∉ t) (r : Text) :
    doctype? (t ++ '>' :: r) =
      (dropFolded? "<!doctype".toList t).map fun _ => ((), t.length) := by
  rw [doctype?, dropFolded?_append (by decide)]
  cases hz : dropFolded? "<!doctype".toList t with
  | none => rfl
  | some z =>
    have hlen := length_of_dropFolded? hz
    have hz' : '>' ∉ z := by
      obtain ⟨p, -, rfl⟩ := exists_append_of_dropFolded? hz
      exact fun hm => ht (List.mem_append_right _ hm)
    simp [Attributes.takeWhile_ne_append hz']
    omega

theorem xmlDeclaration?_append {t : Text} (ht : '>' ∉ t) (r : Text) :
    xmlDeclaration? (t ++ '>' :: r) =
      ((dropFolded? "<?xml".toList t).filter (·.getLast? == some '?')).map
        fun _ => ((), t.length) := by
  rw [xmlDeclaration?, dropFolded?_append (by decide)]
  cases hz : dropFolded? "<?xml".toList t with
  | none => rfl
  | some z =>
    have hlen := length_of_dropFolded? hz
    have hz' : '>' ∉ z := by
      obtain ⟨p, -, rfl⟩ := exists_append_of_dropFolded? hz
      exact fun hm => ht (List.mem_append_right _ hm)
    by_cases hq : z.getLast? = some '?'
    · rw [Option.filter_some_pos (by simp [hq])]
      simp [Attributes.takeWhile_ne_append hz', hq]
      omega
    · rw [Option.filter_some_neg (by simp [hq])]
      simp [Attributes.takeWhile_ne_append hz', hq]

theorem eq_of_foldLetter {c d : Char} (h : foldLetter c = d) (hd : d.toNat < 97) : c = d := by
  unfold foldLetter at h
  split at h
  · exact absurd hd (h ▸ by decide)
  · split at h
    · exact absurd hd (h ▸ by decide)
    · split at h
      · exact absurd hd (h ▸ by decide)
      · exact eq_of_toLower_eq h hd

theorem dropFolded?_of_ne {c d : Char} (h : c ≠ d) (hd : d.toNat < 97) (w r : Text) :
    dropFolded? (d :: w) (c :: r) = none := by
  rw [dropFolded?, if_neg]
  exact fun hc => h (eq_of_foldLetter hc hd)

theorem readsDeclarations_doctype? : ReadsDeclarations doctype? where
  angle r h := by
    rw [doctype?, show "<!doctype".toList = '<' :: "!doctype".toList from rfl,
      dropFolded?_of_ne h (by decide)]
    rfl
  mark r h _ := by
    rw [doctype?, show "<!doctype".toList = '<' :: '!' :: "doctype".toList from rfl, dropFolded?,
      if_pos (by decide), dropFolded?_of_ne h (by decide)]
    rfl
  ends r h := by rw [doctype?_append h, doctype?_append h]
  whole h hx := by
    rw [doctype?_append h] at hx
    obtain ⟨z, -, hz⟩ := Option.map_eq_some_iff.1 hx
    exact (congrArg Prod.snd hz).symm

theorem readsDeclarations_xmlDeclaration? : ReadsDeclarations xmlDeclaration? where
  angle r h := by
    rw [xmlDeclaration?, show "<?xml".toList = '<' :: "?xml".toList from rfl,
      dropFolded?_of_ne h (by decide)]
    rfl
  mark r _ h := by
    rw [xmlDeclaration?, show "<?xml".toList = '<' :: '?' :: "xml".toList from rfl, dropFolded?,
      if_pos (by decide), dropFolded?_of_ne h (by decide)]
    rfl
  ends r h := by rw [xmlDeclaration?_append h, xmlDeclaration?_append h]
  whole h hx := by
    rw [xmlDeclaration?_append h] at hx
    obtain ⟨z, -, hz⟩ := Option.map_eq_some_iff.1 hx
    exact (congrArg Prod.snd hz).symm

end MailMarkup.Document
