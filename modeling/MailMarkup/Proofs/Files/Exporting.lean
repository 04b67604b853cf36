import MailMarkup.Proofs.Files.Suggesting

namespace MailMarkup.Files

open Text

structure Export where
  folder : Path
  campaign : Text
  html : Text

namespace Tree

def exportOne (t : Tree) (x : Export) : Tree × Option Path :=
  match t.suggest x.folder x.campaign with
  | .error _ => (t, none)
  | .ok p =>
    match t.writeDocument p x.html with
    | (u, none) => (u, some p)
    | (u, some _) => (u, none)

def exportAll (t : Tree) : List Export → Tree × List (Path × Text)
  | [] => (t, [])
  | x :: xs =>
    let (u, saved) := t.exportOne x
    let (v, rest) := u.exportAll xs
    (v, saved.toList.map (·, x.html) ++ rest)

variable {t u v : Tree} {p folder : Path} {place : Place} {content : Bytes} {campaign : Text}
  {x : Export} {xs : List Export}

inductive Step (t : Tree) : Tree → Prop
  | put {p : Path} {place : Place} {old : Option Node} (n : Node) :
      t.look p = .ok (place, old) → old ≠ some .folder → Step t (t.put place n)

abbrev Steps : Tree → Tree → Prop := Relation.ReflTransGen Step

theorem Makes.step (h : t.Makes u) : t.Step u := by
  cases h with
  | folder hl => exact .put .folder hl nofun

theorem step_save (h : t.save p content = .ok u) : t.Step u := by
  rw [save_eq] at h
  split at h
  · cases h
  · rename_i place n hn hl
    obtain rfl := Except.ok.inj h
    exact .put (.file content) hl hn
  · cases h

theorem steps_ensureFolder (t : Tree) (p : Path) : t.Steps (t.ensureFolder p).1 :=
  Relation.ReflTransGen.mono (fun _ _ h => Makes.step h) _ _ (t.made_ensureFolder p)

theorem steps_write (t : Tree) (p : Path) (content : Bytes) : t.Steps (t.write p content).1 := by
  have hm := t.steps_ensureFolder p.parent
  rw [write]
  split
  · rename_i u hu
    rw [hu] at hm
    cases hs : u.save p content with
    | error e => exact hm
    | ok v => exact hm.tail (step_save hs)
  · exact hm

theorem steps_exportOne (t : Tree) (x : Export) : t.Steps (t.exportOne x).1 := by
  rw [exportOne]
  split
  · exact .refl
  · rename_i p hp
    have hw := t.steps_write p (encodeUtf8 x.html)
    rw [writeDocument]
    split
    · rename_i u hu
      rwa [hu] at hw
    · rename_i u e hu
      rwa [hu] at hw

theorem steps_exportAll (t : Tree) (xs : List Export) : t.Steps (t.exportAll xs).1 := by
  induction xs generalizing t with
  | nil => exact .refl
  | cons x xs ih => exact (t.steps_exportOne x).trans (ih _)

structure Within (t u : Tree) : Prop where
  folders : ∀ q, t.find? q = some .folder → u.find? q = some .folder
  taken : ∀ q, t.find? q ≠ none → u.find? q ≠ none

theorem Step.within (h : t.Step u) : t.Within u := by
  cases h with
  | @put p place old n hl hn =>
    have hne : t.find? place ≠ some .folder := (look_eq_ok.1 hl).2 ▸ hn
    constructor
    · intro q hq
      rw [t.find?_put_of_ne (by rintro rfl; exact hne hq), hq]
    · intro q hq
      by_cases hqp : q = place
      · rw [hqp, t.find?_put_self (ne_nil_of_find? hne)]
        exact Option.some_ne_none n
      · rwa [t.find?_put_of_ne hqp]

theorem within_of_steps (h : t.Steps u) : t.Within u := by
  induction h with
  | refl => exact ⟨fun _ hq => hq, fun _ hq => hq⟩
  | tail _ hs ih =>
    exact ⟨fun q hq => hs.within.folders q (ih.folders q hq),
      fun q hq => hs.within.taken q (ih.taken q hq)⟩

theorem Within.holds (h : t.Within u) (hp : t.Holds p) : u.Holds p := by
  obtain ⟨place, n, hl⟩ := hp
  obtain ⟨hp, hn⟩ := look_eq_ok.1 hl
  have hthere : t.find? place ≠ none := Option.ne_none_iff_exists'.2 ⟨n, hn⟩
  obtain ⟨m, hm⟩ := Option.ne_none_iff_exists'.1 (h.taken place hthere)
  exact ⟨place, m, look_eq_ok.2 ⟨locate_of_folders h.folders hp, hm⟩⟩

def IsClosed (t : Tree) : Prop :=
  ∀ q n, t.find? q = some n → t.find? q.dropLast = some .folder

theorem isClosed_empty : empty.IsClosed := by
  intro q n hq
  have hdrop : q.dropLast = [] := by
    by_cases hne : q = []
    · rw [hne, List.dropLast_nil]
    · have hm := mem_entries_of_find? hq hne
      rw [List.mem_singleton.1 hm]
      rfl
  rw [hdrop]
  rfl

theorem IsClosed.walk (h : t.IsClosed) {ws : List Text} {here : Place}
    (hh : t.find? here.dropLast = some .folder) (hf : ws.foldlM t.enter here = .ok place) :
    t.find? place.dropLast = some .folder := by
  induction ws generalizing here with
  | nil =>
    obtain rfl := pure_eq_ok.1 hf
    exact hh
  | cons w ws ih =>
    obtain ⟨q, hq, hf⟩ := bind_eq_ok.1 hf
    obtain ⟨hfolder, -, rfl⟩ := enter_eq_ok.1 hq
    refine ih ?_ hf
    split
    · exact h _ _ (h _ _ hfolder)
    · rwa [List.dropLast_concat]

theorem IsClosed.locate (h : t.IsClosed) (hp : t.locate p = .ok place) :
    t.find? place.dropLast = some .folder := by
  obtain ⟨_, -, hf⟩ := bind_eq_ok.1 hp
  refine h.walk ?_ hf
  rw [startOf]
  split
  · rfl
  · rfl

theorem IsClosed.step (h : t.IsClosed) (hs : t.Step u) : u.IsClosed := by
  intro q m hq
  have hw := hs.within
  cases hs with
  | @put p place old n hl hn =>
    refine hw.folders _ ?_
    by_cases hqp : q = place
    · rw [hqp]
      exact h.locate (look_eq_ok.1 hl).1
    · rw [t.find?_put_of_ne hqp] at hq
      exact h q m hq

theorem IsClosed.steps (h : t.IsClosed) (hs : t.Steps u) : u.IsClosed := by
  induction hs with
  | refl => exact h
  | tail _ hs ih => exact ih.step hs

def Climbs (t : Tree) (p : Path) : Prop :=
  ∀ i < p.parts.length, p.parts[i]? = some "..".toList →
    t.isFolder ⟨p.root, p.parts.take i⟩ = true

instance (t : Tree) (p : Path) : Decidable (t.Climbs p) :=
  inferInstanceAs (Decidable (∀ i < p.parts.length, _ → _))

theorem climbs_concat {root w : Text} {ws : List Text} :
    t.Climbs ⟨root, ws ++ [w]⟩ ↔
      t.Climbs ⟨root, ws⟩ ∧ (w = "..".toList → t.isFolder ⟨root, ws⟩ = true) := by
  have hinit {i : Nat} (hi : i < ws.length) :
      (ws ++ [w])[i]? = ws[i]? ∧ (ws ++ [w]).take i = ws.take i :=
    ⟨List.getElem?_append_left hi, List.take_append_of_le_length (Nat.le_of_lt hi)⟩
  simp only [Climbs, List.length_append, List.length_singleton]
  constructor
  · intro h
    refine ⟨fun i hi hw => ?_, ?_⟩
    · have hup := h i (Nat.lt_succ_of_lt hi)
      rw [(hinit hi).1, (hinit hi).2] at hup
      exact hup hw
    · rintro rfl
      simpa using h ws.length (Nat.lt_succ_self _)
  · rintro ⟨hws, hw⟩ i hi hup
    rcases Nat.lt_succ_iff_lt_or_eq.1 hi with hi | rfl
    · rw [(hinit hi).1] at hup
      rw [(hinit hi).2]
      exact hws i hi hup
    · rw [List.getElem?_concat_length] at hup
      rw [List.take_left]
      exact hw (Option.some.inj hup)

theorem Climbs.child (h : t.Climbs folder) {name : Text} (hn : IsPlainName name) :
    t.Climbs (folder.child name) :=
  climbs_concat.2 ⟨h, fun he => absurd he hn.ne_up⟩

theorem walk_of_within (hc : t.IsClosed) (hw : t.Within u) {root : Text} {ws : List Text}
    (hp : t.Climbs ⟨root, ws⟩) (hf : ws.foldlM u.enter (startOf ⟨root, []⟩) = .ok place)
    (hn : t.find? place ≠ none) : ws.foldlM t.enter (startOf ⟨root, []⟩) = .ok place := by
  induction ws using List.reverseRecOn generalizing place with
  | nil => exact hf
  | append_singleton ws w ih =>
    obtain ⟨hp, hup⟩ := climbs_concat.1 hp
    rw [List.foldlM_append] at hf ⊢
    obtain ⟨q, hq, hf⟩ := bind_eq_ok.1 hf
    obtain ⟨r, hr, hf⟩ := bind_eq_ok.1 hf
    obtain rfl := pure_eq_ok.1 hf
    obtain ⟨-, hlong, hr⟩ := enter_eq_ok.1 hr
    obtain ⟨hwalk, hfolder⟩ :
        ws.foldlM t.enter (startOf ⟨root, []⟩) = .ok q ∧ t.find? q = some .folder := by
      by_cases hdots : w = "..".toList
      · have hthere := hup hdots
        rw [isFolder] at hthere
        split at hthere
        · rename_i q' hl
          obtain ⟨hl, hfolder⟩ := look_eq_ok.1 hl
          obtain ⟨_, -, hl⟩ := bind_eq_ok.1 hl
          obtain rfl := Except.ok.inj (hq.symm.trans (walk_of_folders hw.folders hl))
          exact ⟨hl, hfolder⟩
        · cases hthere
      · rw [if_neg hdots] at hr
        obtain ⟨m, hm⟩ := Option.ne_none_iff_exists'.1 hn
        have hfolder := hc r m hm
        rw [hr, List.dropLast_concat] at hfolder
        exact ⟨ih hp hq (Option.ne_none_iff_exists'.2 ⟨.folder, hfolder⟩), hfolder⟩
    exact bind_eq_ok.2 ⟨q, hwalk, bind_eq_ok.2 ⟨r, enter_eq_ok.2 ⟨hfolder, hlong, hr⟩, rfl⟩⟩

theorem holds_of_within (hc : t.IsClosed) (hw : t.Within u) (hp : t.Climbs p)
    (hl : u.locate p = .ok place) (hn : t.find? place ≠ none) : t.Holds p := by
  obtain ⟨c, hchecked, hf⟩ := bind_eq_ok.1 hl
  obtain ⟨n, hn'⟩ := Option.ne_none_iff_exists'.1 hn
  exact ⟨place, n, look_eq_ok.2 ⟨bind_eq_ok.2 ⟨c, hchecked, walk_of_within hc hw hp hf hn⟩, hn'⟩⟩

theorem exportOne_cases (t : Tree) (x : Export) :
    (∃ p, (t.exportOne x).2 = some p ∧ t.Proposes x.folder x.campaign p ∧
      t.Wrote (t.exportOne x).1 p (encodeUtf8 x.html)) ∨
    (t.exportOne x).2 = none ∧ t.Grown (t.exportOne x).1 := by
  rw [exportOne]
  split
  · exact .inr ⟨rfl, .refl t⟩
  · rename_i p hp
    split
    · rename_i u hu
      exact .inl ⟨p, rfl, proposes_of_suggest hp, wrote_write hu⟩
    · rename_i u e hu
      exact .inr ⟨rfl, grown_write hu⟩

theorem free_of_proposes (hc : t.IsClosed) (hx : t.Climbs folder)
    (hp : t.Proposes folder campaign p) (hw : t.Within u) (hl : u.locate p = .ok place) :
    t.find? place = none := by
  by_contra hn
  obtain ⟨k, rfl⟩ := hp.exists_copy
  exact hp.not_holds (holds_of_within hc hw (hx.child (isPlainName_copyName campaign k)) hl hn)

theorem files_kept_exportOne (hc : t.IsClosed) (hx : t.Climbs x.folder) {q : Place}
    (hq : t.find? q = some (.file content)) :
    (t.exportOne x).1.find? q = some (.file content) := by
  rcases t.exportOne_cases x with ⟨p, -, hp, place, hl, hkept⟩ | ⟨-, hg⟩
  · have hw := within_of_steps (t.steps_exportOne x)
    have hfree := free_of_proposes hc hx hp hw (look_eq_ok.1 hl).1
    refine (hkept q ?_ content).2 hq
    rintro rfl
    rw [hq] at hfree
    cases hfree
  · exact (hg.files q content).2 hq

def AllClimb (t : Tree) : List Export → Prop
  | [] => True
  | x :: xs => t.Climbs x.folder ∧ (t.exportOne x).1.AllClimb xs

instance AllClimb.decidable (t : Tree) : (xs : List Export) → Decidable (t.AllClimb xs)
  | [] => .isTrue trivial
  | x :: xs => @instDecidableAnd _ _ _ (AllClimb.decidable (t.exportOne x).1 xs)

theorem files_kept_exportAll (hc : t.IsClosed) (h : t.AllClimb xs) {q : Place}
    (hq : t.find? q = some (.file content)) :
    (t.exportAll xs).1.find? q = some (.file content) := by
  induction xs generalizing t with
  | nil => exact hq
  | cons x xs ih =>
    exact ih (hc.steps (t.steps_exportOne x)) h.2 (files_kept_exportOne hc h.1 hq)

theorem exportAll_cons_cases (t : Tree) (x : Export) (xs : List Export) :
    (∃ p, t.Proposes x.folder x.campaign p ∧ t.Wrote (t.exportOne x).1 p (encodeUtf8 x.html) ∧
      (t.exportAll (x :: xs)).2 = (p, x.html) :: ((t.exportOne x).1.exportAll xs).2) ∨
    (t.exportAll (x :: xs)).2 = ((t.exportOne x).1.exportAll xs).2 := by
  have hsaved : (t.exportAll (x :: xs)).2 =
      (t.exportOne x).2.toList.map (·, x.html) ++ ((t.exportOne x).1.exportAll xs).2 := rfl
  rcases t.exportOne_cases x with ⟨p, hs, hp, hw⟩ | ⟨hs, -⟩
  · exact .inl ⟨p, hp, hw, by simp [hsaved, hs]⟩
  · exact .inr (by simp [hsaved, hs])

theorem not_holds_of_mem_exportAll {s : Path × Text} (hs : s ∈ (t.exportAll xs).2) :
    ¬ t.Holds s.1 := by
  induction xs generalizing t with
  | nil => cases hs
  | cons x xs ih =>
    have hlater (hs : s ∈ ((t.exportOne x).1.exportAll xs).2) : ¬ t.Holds s.1 := fun hheld =>
      ih hs ((within_of_steps (t.steps_exportOne x)).holds hheld)
    rcases t.exportAll_cons_cases x xs with ⟨p, hp, -, he⟩ | he
    · rw [he] at hs
      rcases List.mem_cons.1 hs with rfl | hs
      · exact hp.not_holds
      · exact hlater hs
    · exact hlater (he ▸ hs)

theorem nodup_exportAll (t : Tree) (xs : List Export) :
    ((t.exportAll xs).2.map Prod.fst).Nodup := by
  induction xs generalizing t with
  | nil => exact .nil
  | cons x xs ih =>
    rcases t.exportAll_cons_cases x xs with ⟨p, -, ⟨place, hl, -⟩, he⟩ | he
    · rw [he, List.map_cons, List.nodup_cons]
      refine ⟨?_, ih _⟩
      intro hp
      obtain ⟨s, hs, rfl⟩ := List.mem_map.1 hp
      exact not_holds_of_mem_exportAll hs ⟨place, _, hl⟩
    · rw [he]
      exact ih _

theorem look_of_wrote (hc : t.IsClosed) (h : t.AllClimb xs)
    (hl : t.look p = .ok (place, some (.file content))) :
    (t.exportAll xs).1.look p = .ok (place, some (.file content)) := by
  obtain ⟨hp, hf⟩ := look_eq_ok.1 hl
  have hw := within_of_steps (t.steps_exportAll xs)
  exact look_eq_ok.2 ⟨locate_of_folders hw.folders hp, files_kept_exportAll hc h hf⟩

theorem look_of_mem_exportAll (hc : t.IsClosed) (h : t.AllClimb xs) {s : Path × Text}
    (hs : s ∈ (t.exportAll xs).2) : ∃ place, t.find? place = none ∧
      (t.exportAll xs).1.look s.1 = .ok (place, some (.file (encodeUtf8 s.2))) := by
  induction xs generalizing t with
  | nil => cases hs
  | cons x xs ih =>
    have hw := within_of_steps (t.steps_exportOne x)
    have hcu := hc.steps (t.steps_exportOne x)
    have hlater (hs : s ∈ ((t.exportOne x).1.exportAll xs).2) : ∃ place, t.find? place = none ∧
        (t.exportAll (x :: xs)).1.look s.1 = .ok (place, some (.file (encodeUtf8 s.2))) := by
      obtain ⟨place, hfree, hl⟩ := ih hcu h.2 hs
      exact ⟨place, by_contra fun hn => hw.taken place hn hfree, hl⟩
    rcases t.exportAll_cons_cases x xs with ⟨p, hp, ⟨place, hl, -⟩, he⟩ | he
    · rw [he] at hs
      rcases List.mem_cons.1 hs with rfl | hs
      · have hkept : ((t.exportOne x).1.exportAll xs).1.look p = _ := look_of_wrote hcu h.2 hl
        exact ⟨place, free_of_proposes hc h.1 hp hw (look_eq_ok.1 hl).1, hkept⟩
      · exact hlater hs
    · exact hlater (he ▸ hs)

theorem places_exportAll (hc : t.IsClosed) (h : t.AllClimb xs) :
    (t.exportAll xs).2.Pairwise fun a b =>
      (t.exportAll xs).1.locate a.1 ≠ (t.exportAll xs).1.locate b.1 := by
  induction xs generalizing t with
  | nil => exact .nil
  | cons x xs ih =>
    have hcu := hc.steps (t.steps_exportOne x)
    rcases t.exportAll_cons_cases x xs with ⟨p, -, ⟨place, hl, -⟩, he⟩ | he
    · rw [he, List.pairwise_cons]
      refine ⟨?_, ih hcu h.2⟩
      intro s hs hsame
      obtain ⟨q, hfree, hq⟩ := look_of_mem_exportAll hcu h.2 hs
      have hp := (look_eq_ok.1 (look_of_wrote hcu h.2 hl)).1
      obtain rfl := Except.ok.inj (hp.symm.trans (hsame.trans (look_eq_ok.1 hq).1))
      rw [(look_eq_ok.1 hl).2] at hfree
      cases hfree
    · rw [he]
      exact ih hcu h.2

/-- The path that is suggested is free and right in the folder, and no two documents are saved at
one. Nothing that was there before is changed when every folder is reached from folders that are
there. -/
theorem exports_kept_apart (t : Tree) :
    (∀ folder campaign,
      (∃ p, t.suggest folder campaign = .ok p ∧ t.Proposes folder campaign p ∧ ¬ t.Holds p ∧
        p.parent = folder ∧ IsPlainName p.name) ∨
      ∃ k ≤ t.entries.length, ¬ (folder.child (copyName campaign k)).IsWithinLimits ∧
        t.suggest folder campaign =
          .error ⟨.longName, (folder.child (copyName campaign k)).text⟩) ∧
    ∀ xs, ((t.exportAll xs).2.map Prod.fst).Nodup ∧
      (t.IsClosed → t.AllClimb xs →
        (∀ q content, t.find? q = some (.file content) →
          (t.exportAll xs).1.find? q = some (.file content)) ∧
        (∀ s ∈ (t.exportAll xs).2, (t.exportAll xs).1.read s.1 = .ok (encodeUtf8 s.2)) ∧
        (t.exportAll xs).2.Pairwise fun a b =>
          (t.exportAll xs).1.locate a.1 ≠ (t.exportAll xs).1.locate b.1) := by
  refine ⟨?_, fun xs => ⟨t.nodup_exportAll xs, ?_⟩⟩
  · intro folder campaign
    rcases t.suggest_spec folder campaign with ⟨p, hs, hp⟩ | h
    · refine .inl ⟨p, hs, hp, hp.not_holds, ?_⟩
      obtain ⟨k, rfl⟩ := hp.exists_copy
      exact ⟨Path.parent_child _ _, (Path.name_child _ _).symm ▸ isPlainName_copyName campaign k⟩
    · exact .inr h
  · intro hc h
    refine ⟨fun q content => files_kept_exportAll hc h, ?_, places_exportAll hc h⟩
    intro s hs
    obtain ⟨place, -, hl⟩ := look_of_mem_exportAll hc h hs
    rw [Tree.read, hl]

def springExports : List Export :=
  [⟨.parse "out".toList, "Spring sale".toList, "<p>1</p>".toList⟩,
    ⟨.parse "out".toList, "Spring sale".toList, "<p>2</p>".toList⟩,
    ⟨.parse "out/..".toList, [], "<p>3</p>".toList⟩]

theorem exports_kept_apart_in_spring :
    (Tree.empty.exportAll springExports).2 =
      [(.parse "out/Spring_sale.html".toList, "<p>1</p>".toList),
        (.parse "out/Spring_sale_1.html".toList, "<p>2</p>".toList),
        (.parse "out/../email_formatted.html".toList, "<p>3</p>".toList)] ∧
    ∀ s ∈ (Tree.empty.exportAll springExports).2,
      (Tree.empty.exportAll springExports).1.read s.1 = .ok (encodeUtf8 s.2) := by
  have hclimb : Tree.empty.AllClimb springExports := by decide +kernel
  have hkept := ((exports_kept_apart Tree.empty).2 springExports).2 isClosed_empty hclimb
  exact ⟨by decide +kernel, hkept.2.1⟩

theorem export_replaced_behind_missing_folder :
    (Tree.empty.exportAll [⟨.parse ".".toList, [], "old".toList⟩]).1.find?
      ["work".toList, "email_formatted.html".toList] =
        some (.file (encodeUtf8 "old".toList)) ∧
    (Tree.empty.exportAll [⟨.parse ".".toList, [], "old".toList⟩,
        ⟨.parse "new/..".toList, [], "fresh".toList⟩]).1.find?
      ["work".toList, "email_formatted.html".toList] =
        some (.file (encodeUtf8 "fresh".toList)) := by
  decide +kernel

end Tree

end MailMarkup.Files
