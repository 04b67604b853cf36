import MailMarkup.Proofs.Document.Assembling
import MailMarkup.Proofs.Run.EarlyStages

namespace MailMarkup.Document

open Text Markup Spacing

theorem foldLetter_of_isBlank {c : Char} (h : isBlank c = true) : foldLetter c = c :=
  (fold_of_endsWith (endsWith_iff.2 (.inl h))).1

theorem dropFolded?_respaced {w : Text} (hw : ∀ p ∈ w, isBlank p = false) {s t : Text}
    (h : Respaced s t) : (dropFolded? w s).isSome = (dropFolded? w t).isSome := by
  induction w generalizing s t with
  | nil => rfl
  | cons p w ih =>
    have hp := hw p List.mem_cons_self
    have hblank : ∀ {b : Char} (r : Text), isBlank b = true →
      dropFolded? (p :: w) (b :: r) = none := by
      intro b r hb
      rw [dropFolded?, if_neg]
      rw [foldLetter_of_isBlank hb]
      exact (ne_of_isBlank hp hb).symm
    cases s with
    | nil => rw [h.eq_nil_iff.1 rfl]
    | cons c s =>
      by_cases hc : isBlank c = true
      · obtain ⟨b, r, rfl, hb⟩ := h.of_cons_blank hc
        rw [hblank s hc, hblank r hb]
      · obtain ⟨t', rfl, ht⟩ := h.of_cons (by simpa using hc)
        have ih := ih (fun q hq => hw q (List.mem_cons_of_mem _ hq)) ht
        rw [dropFolded?, dropFolded?]
        split
        · exact ih
        · rfl

theorem findHit_of_not_mem {f : Recogniser α} (hf : StartsMarkup f) {t : Text} (h : '<' ∉ t) :
    findHit f t = none := by
  induction t with
  | nil => rfl
  | cons c t ih =>
    rw [List.mem_cons, not_or] at h
    rw [findHit, hf.angle t (Ne.symm h.1), ih h.2]
    rfl

theorem holds_declaration {f : Recogniser α} (hf : ReadsDeclarations f) {m : Char} {inner : Text}
    (hv : (Node.declaration m inner).isValid = true) :
    holds f (.declaration m inner) = (f ('<' :: m :: (inner ++ ['>']))).isSome := by
  obtain ⟨hm, hl, -, -⟩ := isValid_declaration.1 hv
  have hl' : '<' ∉ m :: (inner ++ ['>']) := by
    rcases hm with rfl | rfl <;> simp [hl]
  rw [holds, ← findHit_isSome, Node.source, findHit]
  cases f ('<' :: m :: (inner ++ ['>'])) with
  | none => rw [findHit_of_not_mem hf.startsMarkup hl']; rfl
  | some v => rfl

theorem holds_doctype?_of_respelled {n m : Node} (hn : n.isValid = true) (hm : m.isValid = true)
    (h : Respelled Eq Tidied n m) : holds doctype? n = holds doctype? m := by
  cases h with
  | declaration d h =>
    rw [holds_declaration readsDeclarations_doctype? hn,
      holds_declaration readsDeclarations_doctype? hm]
    have hd : ∀ inner, (Node.declaration d inner).isValid = true →
        (doctype? ('<' :: d :: (inner ++ ['>']))).isSome =
          (dropFolded? "<!doctype".toList ('<' :: d :: inner)).isSome := by
      intro inner hv
      obtain ⟨hd, -, hg, -⟩ := isValid_declaration.1 hv
      have := doctype?_append (t := '<' :: d :: inner)
        (by rcases hd with rfl | rfl <;> simp [hg]) []
      rw [show '<' :: d :: (inner ++ ['>']) = ('<' :: d :: inner) ++ ['>'] from rfl, this,
        Option.isSome_map]
    rw [hd _ hn, hd _ hm]
    exact dropFolded?_respaced (forall_eq_false (by decide)) (.keep '<' (.keep d h.respaced))
  | comment h => rw [h]
  | tag closing name h =>
    rw [holds, holds, readsDeclarations_doctype?.hits_tag hn,
      readsDeclarations_doctype?.hits_tag hm]

theorem isFirm_of_holds {f : Recogniser α} (hf : ReadsDeclarations f) {names : List Text} {n : Node}
    (hv : n.isValid = true) (h : holds f n = true) : n.isFirm names = true := by
  cases n with
  | char c =>
    rw [holds, hits, Node.source,
      scan_cons_of_ne hf.startsMarkup (by simpa [Node.isValid] using hv)] at h
    cases h
  | angle c =>
    simp only [Node.isValid, Bool.and_eq_true, bne_iff_ne, ne_eq, Bool.not_eq_true'] at hv
    rw [holds, hits, Node.source, scan_angle hf.startsMarkup hv.1 hv.2] at h
    cases h
  | declaration m inner => rfl
  | comment inner => rfl
  | tag closing name body =>
    rw [holds, hf.hits_tag hv] at h
    cases h

theorem findOpening?_isSome {ns : List Node} (h : IsRead ns) {name : Text}
    (hn : lower name = name) :
    (findOpening? (sources ns) name).isSome = ns.any (Node.isTagOf name false) := by
  rw [findOpening?_of_isRead h name hn]
  cases hf : firstSplit (Node.isTagOf name false) ns with
  | none =>
    symm
    rw [Option.bind_none, Option.isSome_none, List.any_eq_false]
    exact fun b hb => by simp [firstSplit_eq_none.1 hf b hb]
  | some x =>
    obtain ⟨l, n, r⟩ := x
    obtain ⟨rfl, ht, -⟩ := eq_of_firstSplit hf
    obtain ⟨k, hk, -⟩ := token?_of_isTagOf ht l
    rw [Option.bind_some, hk]
    simp [ht]

theorem isFull_sources {ns : List Node} (h : IsClean ns) :
    isFull (sources ns) = (ns.any (holds doctype?) && ns.any (Node.isTagOf "html".toList false) &&
      ns.any (Node.isTagOf "body".toList false)) := by
  rw [isFull, readsDeclarations_doctype?.findHit_sources h, findOpening?_isSome h.isRead rfl,
    findOpening?_isSome h.isRead rfl]

theorem any_skeleton {names : List Text} {ns : List Node} {p : Node → Bool}
    (hp : ∀ n ∈ ns, p n = true → n.isFirm names = true) : (skeleton names ns).any p = ns.any p := by
  rw [Bool.eq_iff_iff, List.any_eq_true, List.any_eq_true]
  refine ⟨fun ⟨n, hn, h⟩ => ⟨n, List.mem_of_mem_filter hn, h⟩, fun ⟨n, hn, h⟩ => ⟨n, ?_, h⟩⟩
  exact List.mem_filter.2 ⟨hn, hp n hn h⟩

theorem any_forall₂ {α β : Type} {r : α → β → Prop} {p : α → Bool} {q : β → Bool} {as : List α}
    {bs : List β} (h : List.Forall₂ r as bs) (hp : ∀ a ∈ as, ∀ b ∈ bs, r a b → p a = q b) :
    as.any p = bs.any q := by
  induction h with
  | nil => rfl
  | cons hr _ ih =>
    rw [List.any_cons, List.any_cons, hp _ List.mem_cons_self _ List.mem_cons_self hr,
      ih fun a ha b hb => hp a (List.mem_cons_of_mem _ ha) b (List.mem_cons_of_mem _ hb)]

theorem isFull_eq {names : List Text} (hh : "html".toList ∉ names) (hb : "body".toList ∉ names)
    {ns ms : List Node} (hn : IsClean ns) (hm : IsClean ms)
    (h : List.Forall₂ (Respelled Eq Tidied) (skeleton names ns) (skeleton names ms)) :
    isFull (sources ms) = isFull (sources ns) := by
  have hs : ∀ (ns : List Node), skeleton names ns ⊆ ns := fun ns => List.filter_subset_self ns
  have htag : ∀ {name : Text}, name ∉ names →
      ms.any (Node.isTagOf name false) = ns.any (Node.isTagOf name false) := by
    intro name hname
    have hf : ∀ ns : List Node, (skeleton names ns).any (Node.isTagOf name false) =
        ns.any (Node.isTagOf name false) :=
      fun _ => any_skeleton fun n _ => isFirm_of_isTagOf hname false n
    rw [← hf ms, ← hf ns]
    exact (any_forall₂ h fun a _ b _ => isTagOf_of_respelled name false a b).symm
  have hdoc : ms.any (holds doctype?) = ns.any (holds doctype?) := by
    have hf : ∀ ns : List Node, IsClean ns →
        (skeleton names ns).any (holds doctype?) = ns.any (holds doctype?) :=
      fun _ hc => any_skeleton fun n hx => isFirm_of_holds readsDeclarations_doctype? (hc n hx)
    rw [← hf ms hm, ← hf ns hn]
    exact (any_forall₂ h fun a ha b hb' => holds_doctype?_of_respelled (hn a (hs ns ha))
      (hm b (hs ms hb'))).symm
  rw [isFull_sources hm, isFull_sources hn, hdoc, htag hh, htag hb]

end MailMarkup.Document

namespace MailMarkup.Run

open Text Markup Spacing

theorem runSteps_append {σ ε : Type} (apply : σ → Text → Except ε Text) (ss ss' : List σ)
    (t : Text) : (runSteps apply (ss ++ ss') t).2 =
      (runSteps apply ss t).2 ++ (runSteps apply ss' (runSteps apply ss t).1).2 := by
  induction ss generalizing t with
  | nil => rfl
  | cons s' ss ih =>
    rw [List.cons_append, runSteps, runSteps]
    cases apply s' t with
    | ok t' => exact congrArg (_ :: ·) (ih t')
    | error e => exact congrArg (_ :: ·) (ih t)

theorem not_mem_completed {c : Config} {ss : List Stage} {s : Stage} (hs : s ∉ ss) (t : Text) :
    s ∉ completed (runSteps (Stage.apply c) ss t).2 := by
  intro hm
  have := map_step_runSteps (Stage.apply c) ss t
  refine hs (this ▸ ?_)
  exact List.map_subset _ (List.filter_subset_self _) hm

theorem completed_append {σ ε : Type} (os ps : List (Outcome σ ε)) :
    completed (os ++ ps) = completed os ++ completed ps := by
  rw [completed, List.filter_append, List.map_append]
  rfl

theorem mem_completed_iff {c : Config} {l r : List Stage} {s : Stage} (hl : s ∉ l)
    (hr : s ∉ r) (t : Text) :
    s ∈ completed (runSteps (Stage.apply c) (l ++ s :: r) t).2 ↔
      ∃ out, s.apply c (l.foldl (Stage.run c) t) = .ok out := by
  rw [runSteps_append, fst_runSteps, completed_append, List.mem_append,
    or_iff_right (not_mem_completed hl t), runSteps]
  cases s.apply c (l.foldl (Stage.run c) t) with
  | ok out => simp [completed]
  | error e =>
    have := not_mem_completed (c := c) hr (l.foldl (Stage.run c) t)
    simpa [completed] using this

def innerStages (c : Config) : List Stage :=
  earlyStages ++ [.enhanceImages] ++
    ([.collapseImageCells] ++ (if c.wrapColumns then [.wrapColumns] else []) ++
      [.cleanColspans, .tagLinks]) ++ [.tidyWhitespace, .propagateBackgrounds]

theorem stagesOf_eq_inner (c : Config) :
    Stage.stagesOf c = innerStages c ++ [.wrapDocument] := by
  rw [stagesOf_eq, innerStages, List.append_assoc (_ ++ _) [Stage.tidyWhitespace, _]]
  rfl

def lateText (c : Config) (source : Text) : Text := (innerStages c).foldl (Stage.run c) source

theorem lateText_eq (c : Config) (source : Text) :
    lateText c source = [Stage.tidyWhitespace, .propagateBackgrounds].foldl (Stage.run c)
      (([.collapseImageCells] ++ (if c.wrapColumns then [.wrapColumns] else []) ++
        [.cleanColspans, .tagLinks] : List Stage).foldl (Stage.run c)
        (Stage.enhanceImages.run c (earlyText c source))) := by
  simp only [lateText, earlyText, innerStages, List.foldl_append, List.foldl_cons, List.foldl_nil]

variable {analyze : Report.Analysis}

theorem format_eq_resultOf {c : Config} {source : Text} (h : allBlank source = false) :
    formatBy analyze c source = .ok (resultOf analyze Fault.message c source
      (runSteps (Stage.apply c) (Stage.stagesOf c) source).1
      (runSteps (Stage.apply c) (Stage.stagesOf c) source).2) := by
  rw [formatBy, formatWith_pure analyze h]
  rfl

theorem format_eq {c : Config} {source : Text} (h : allBlank source = false) :
    ∃ r, formatBy analyze c source = .ok r ∧ r.html = Stage.wrapDocument.run c (lateText c source) ∧
      (.wrapDocument ∈ r.completed ↔
        ∃ out, Document.complete (lateText c source) [] = .ok out) := by
  refine ⟨_, format_eq_resultOf h, ?_, ?_⟩
  · have := fst_runSteps c (Stage.stagesOf c) source
    rw [stagesOf_eq_inner, List.foldl_append] at this
    rw [resultOf, stagesOf_eq_inner]
    exact this
  · have hw : Stage.wrapDocument ∉ innerStages c := by
      cases hc : c.wrapColumns <;> simp [innerStages, earlyStages, hc]
    have := mem_completed_iff (c := c) hw (r := []) (by simp) source
    rw [← stagesOf_eq_inner] at this
    exact this

theorem completed_format {c : Config} {source : Text} (h : allBlank source = false) {r : Result}
    (hr : formatBy analyze c source = .ok r) :
    r.completed = completed (runSteps (Stage.apply c) (Stage.stagesOf c) source).2 := by
  obtain rfl := Except.ok.inj ((format_eq_resultOf h).symm.trans hr)
  rfl

theorem enhanceImages_mem_completed_iff {c : Config} {source : Text} (h : allBlank source = false)
    {r : Result} (hr : formatBy analyze c source = .ok r) :
    .enhanceImages ∈ r.completed ↔ ∃ out, Image.enhance c (earlyText c source) = .ok out := by
  have := mem_completed_iff (c := c) (s := .enhanceImages) (l := earlyStages) (by decide)
    (r := [.collapseImageCells] ++ (if c.wrapColumns then [.wrapColumns] else []) ++
      [.cleanColspans, .tagLinks] ++ [.tidyWhitespace, .propagateBackgrounds, .wrapDocument])
    (by cases c.wrapColumns <;> decide) source
  rw [completed_format h hr, stagesOf_eq, List.append_assoc earlyStages,
    List.append_assoc earlyStages]
  exact this

variable {source : List Node} {P : List Tag → Prop}

theorem exists_late {c : Config} (hb : '<' ∉ c.imageBase) (hc : IsClean source)
    (hg : isGuarded source = true) {t : Text} (h : At source P [] false t) :
    ∃ ns ms ks, Between source P [] false ns ∧ Spaced Eq Tidied ns ms ∧
      Reworked ["td".toList] ms ks ∧
        ([Stage.tidyWhitespace, .propagateBackgrounds].foldl (Stage.run c) t) = sources ks := by
  obtain ⟨ns, rfl, h⟩ := h
  obtain ⟨ms, hm, hs⟩ := exists_tidy h.reworked.clean
    (isGuarded_of_reworked (by decide) hc h.reworked hg)
  have ht : Stage.tidyWhitespace.run c (sources ns) = sources ms := by
    rw [← hm]
    exact Stage.run_of_ok rfl
  rw [List.foldl_cons, ht, List.foldl_cons, List.foldl_nil, Stage.run]
  split
  · rename_i t' ha
    obtain ⟨ks, hr, rfl⟩ := exists_reworked_of_apply (r := .propagateBackgrounds) hb hs.clean
      (fun _ _ => trivial) ha
    exact ⟨ns, ms, ks, h, hs, hr, rfl⟩
  · exact ⟨ns, ms, ms, h, hs, .refl hs.clean, rfl⟩

theorem respelled_late {ns ms ks : List Node} (h : Between source P [] false ns)
    (hs : Spaced Eq Tidied ns ms) (hr : Reworked ["td".toList] ms ks) :
    List.Forall₂ (Respelled Eq Tidied) (skeleton earlyNames source) (skeleton earlyNames ks) := by
  have hr' : Reworked earlyNames ms ks := hr.mono (by decide)
  rw [← h.reworked.skeleton_eq, hr'.skeleton_eq]
  exact skeleton_forall₂ hs.firm (by simp)

end MailMarkup.Run
