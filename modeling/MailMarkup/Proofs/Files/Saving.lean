import Mathlib.Logic.Relation
import MailMarkup.Files.Document
import MailMarkup.Proofs.Files.Encoding
import MailMarkup.Proofs.Text.Scanning

namespace MailMarkup.Files.Tree

open Text

structure Grown (t t' : Tree) : Prop where
  folders : ∀ q, t.find? q = some .folder → t'.find? q = some .folder
  files : ∀ q content, t'.find? q = some (.file content) ↔ t.find? q = some (.file content)

theorem Grown.refl (t : Tree) : t.Grown t := ⟨fun _ h => h, fun _ _ => .rfl⟩

theorem Grown.trans {t u v : Tree} (h : t.Grown u) (h' : u.Grown v) : t.Grown v :=
  ⟨fun q hq => h'.folders q (h.folders q hq), fun q c => (h'.files q c).trans (h.files q c)⟩

variable {t t' : Tree} {p : Path} {place : Place} {content : Bytes}

theorem ne_nil_of_find? (h : t.find? place ≠ some .folder) : place ≠ [] := by
  rintro rfl
  exact h rfl

theorem grown_put (h : t.find? place = none) : t.Grown (t.put place .folder) := by
  have hne : place ≠ [] := ne_nil_of_find? (by rw [h]; exact nofun)
  have hself := t.find?_put_self hne .folder
  refine ⟨fun q hq => ?_, fun q c => ?_⟩ <;> by_cases hp : q = place
  · rw [hp, hself]
  · rw [t.find?_put_of_ne hp, hq]
  · simp [hp, hself, h]
  · rw [t.find?_put_of_ne hp]

theorem look_eq_ok {n : Option Node} :
    t.look p = .ok (place, n) ↔ t.locate p = .ok place ∧ t.find? place = n := by
  rw [look, bind_eq_ok]
  simp [pure_eq_ok]

inductive Makes (t : Tree) : Tree → Prop
  | folder {p : Path} {place : Place} :
      t.look p = .ok (place, none) → Makes t (t.put place .folder)

theorem makes_makeFolder (h : t.makeFolder p = .ok t') : t.Makes t' := by
  rw [makeFolder] at h
  split at h
  · rename_i q hq
    obtain rfl := Except.ok.inj h
    exact .folder hq
  · cases h
  · cases h

theorem made_requireFolder (h : t.requireFolder p = .ok t') :
    Relation.ReflTransGen Makes t t' := by
  rw [requireFolder] at h
  split at h
  · rename_i u hu
    obtain rfl := Except.ok.inj h
    exact .single (makes_makeFolder hu)
  · split at h
    · obtain rfl := Except.ok.inj h
      exact .refl
    · cases h

theorem made_attempted {r : Except FileError Tree}
    (h : ∀ u, r = .ok u → Relation.ReflTransGen Makes t u) :
    Relation.ReflTransGen Makes t (t.attempted r).1 := by
  cases r with
  | error e => exact .refl
  | ok u => exact h u rfl

theorem made_ensureFolder (t : Tree) (p : Path) :
    Relation.ReflTransGen Makes t (t.ensureFolder p).1 := by
  fun_induction ensureFolder t p with
  | case1 p u hu => exact .single (makes_makeFolder hu)
  | case2 => exact .refl
  | case3 p e he hm hne u hu ih =>
    rw [hu] at ih
    exact ih.trans (made_attempted fun v hv => made_requireFolder hv)
  | case4 p e he hm hne hs ih => exact ih
  | case5 => exact .refl

theorem grown_of_made (h : Relation.ReflTransGen Makes t t') : t.Grown t' := by
  induction h with
  | refl => exact .refl t
  | tail _ hm ih =>
    cases hm with
    | folder hl => exact ih.trans (grown_put (look_eq_ok.1 hl).2)

theorem grown_ensureFolder (t : Tree) (p : Path) : t.Grown (t.ensureFolder p).1 :=
  grown_of_made (t.made_ensureFolder p)

theorem find?_of_enter {here q : Place} {part : Text} (h : t.enter here part = .ok q) :
    t.find? here = some .folder := by
  unfold enter at h
  split at h
  · cases h
  · cases h
  · assumption

theorem enter_of_folders (h : ∀ q, t.find? q = some .folder → t'.find? q = some .folder)
    {here q : Place} {part : Text} (he : t.enter here part = .ok q) :
    t'.enter here part = .ok q := by
  have hf := find?_of_enter he
  rw [enter, hf] at he
  rw [enter, h here hf]
  exact he

theorem walk_of_folders (h : ∀ q, t.find? q = some .folder → t'.find? q = some .folder)
    {ws : List Text} {here : Place} (hf : ws.foldlM t.enter here = .ok place) :
    ws.foldlM t'.enter here = .ok place := by
  induction ws generalizing here with
  | nil => exact hf
  | cons w ws ih =>
    obtain ⟨q, hq, hf⟩ := bind_eq_ok.1 hf
    exact bind_eq_ok.2 ⟨q, enter_of_folders h hq, ih hf⟩

theorem locate_of_folders (h : ∀ q, t.find? q = some .folder → t'.find? q = some .folder)
    (hp : t.locate p = .ok place) : t'.locate p = .ok place := by
  obtain ⟨u, hc, hf⟩ := bind_eq_ok.1 hp
  exact bind_eq_ok.2 ⟨u, hc, walk_of_folders h hf⟩

def Wrote (t t' : Tree) (p : Path) (content : Bytes) : Prop :=
  ∃ place, t'.look p = .ok (place, some (.file content)) ∧
    ∀ q ≠ place, ∀ c, t'.find? q = some (.file c) ↔ t.find? q = some (.file c)

theorem Grown.wrote {u : Tree} (h : t.Grown u) (hw : u.Wrote t' p content) :
    t.Wrote t' p content := by
  obtain ⟨place, hl, hq⟩ := hw
  exact ⟨place, hl, fun q hne c => (hq q hne c).trans (h.files q c)⟩

theorem Wrote.read (h : t.Wrote t' p content) : t'.read p = .ok content := by
  obtain ⟨place, hl, -⟩ := h
  rw [Tree.read, hl]

theorem wrote_save (h : t.save p content = .ok t') : t.Wrote t' p content := by
  rw [save_eq] at h
  split at h
  · cases h
  · rename_i place n hn hl
    obtain rfl := Except.ok.inj h
    obtain ⟨hp, rfl⟩ := look_eq_ok.1 hl
    have hfolder : t.find? place ≠ some .folder := hn
    have hkept : ∀ q, t.find? q = some .folder →
        (t.put place (.file content)).find? q = some .folder := by
      intro q hq
      rw [t.find?_put_of_ne (by rintro rfl; exact hfolder hq), hq]
    refine ⟨place, look_eq_ok.2 ⟨locate_of_folders hkept hp, ?_⟩, fun q hq c => ?_⟩
    · exact t.find?_put_self (ne_nil_of_find? hfolder) _
    · rw [t.find?_put_of_ne hq]
  · cases h

theorem wrote_write (h : t.write p content = (t', none)) : t.Wrote t' p content := by
  have hg := t.grown_ensureFolder p.parent
  rw [write] at h
  split at h
  · rename_i u hu
    rw [hu] at hg
    cases hs : u.save p content with
    | error e => simp [hs, attempted] at h
    | ok v =>
      obtain rfl : v = t' := by simpa [hs, attempted] using h
      exact hg.wrote (wrote_save hs)
  · rename_i hne
    exact absurd h (hne t')

theorem grown_write {e : FileError} (h : t.write p content = (t', some e)) : t.Grown t' := by
  have hg := t.grown_ensureFolder p.parent
  rw [write] at h
  split at h
  · rename_i u hu
    rw [hu] at hg
    cases hs : u.save p content with
    | error e =>
      obtain ⟨rfl, -⟩ : u = t' ∧ _ := by simpa [hs, attempted] using h
      exact hg
    | ok v => simp [hs, attempted] at h
  · rwa [h] at hg

theorem text_parent (p : Path) : p.parent.text = ['.'] ∨ p.parent.text <+: p.text := by
  cases hp : p.parent.root.isEmpty && p.parent.parts.isEmpty with
  | true => exact .inl (if_pos hp)
  | false =>
    have hn : (p.root.isEmpty && p.parts.isEmpty) = false := by
      rw [Bool.and_eq_false_iff] at hp ⊢
      refine hp.imp_right fun h => ?_
      rw [List.isEmpty_eq_false_iff] at h ⊢
      rintro he
      exact h (by rw [Path.parent, he, List.dropLast_nil])
    refine .inr ?_
    rw [Path.text, Path.text, hp, hn]
    exact (List.prefix_append_right_inj p.root).2 (join_isPrefix (List.dropLast_prefix p.parts))

theorem checkText_parent (hp : checkText p = .ok ()) : checkText p.parent = .ok () := by
  have hdot : checkText ⟨[], []⟩ = .ok () := by decide
  simp only [checkText] at hp hdot ⊢
  rcases text_parent p with h | ⟨r, h⟩
  · rw [h]
    exact hdot
  · rw [← h] at hp
    split at hp
    · cases hp
    split at hp
    · cases hp
    · rename_i hn hl
      rw [encodeUtf8, List.flatMap_append, List.length_append] at hl
      have hnull : ¬ p.parent.text.contains '\x00' = true := fun hm =>
        hn (List.contains_iff_mem.2 (List.mem_append_left r (List.contains_iff_mem.1 hm)))
      have hlong : ¬ (encodeUtf8 p.parent.text).length ≥ pathLimit := fun hm =>
        hl (Nat.le_trans hm (Nat.le_add_right _ _))
      rw [if_neg hnull, if_neg hlong]

theorem look_parent {n : Option Node} (h : p.parts ≠ []) (hl : t.look p = .ok (place, n)) :
    ∃ here, t.look p.parent = .ok (here, some .folder) := by
  obtain ⟨hp, -⟩ := look_eq_ok.1 hl
  obtain ⟨u, hc, hf⟩ := bind_eq_ok.1 hp
  rw [← List.dropLast_append_getLast h, List.foldlM_append] at hf
  obtain ⟨here, hh, hf⟩ := bind_eq_ok.1 hf
  refine ⟨here, look_eq_ok.2 ⟨bind_eq_ok.2 ⟨u, checkText_parent hc, hh⟩, ?_⟩⟩
  obtain ⟨q, hq, -⟩ := bind_eq_ok.1 hf
  exact find?_of_enter hq

theorem write_of_look {n : Option Node} (h : p.parts ≠ []) (hl : t.look p = .ok (place, n))
    (hn : n ≠ some .folder) (content : Bytes) : (t.write p content).2 = none := by
  obtain ⟨here, hh⟩ := look_parent h hl
  have hf : t.isFolder p.parent = true := by rw [isFolder, hh]
  have he : t.ensureFolder p.parent = (t, none) := by
    rw [ensureFolder, makeFolder, hh]
    simp [hf]
  have hs : t.save p content = .ok (t.put place (.file content)) := by
    rw [save_eq, hl]
    rcases n with _ | _ | c
    · rfl
    · exact absurd rfl hn
    · rfl
  rw [write, he]
  simp [hs, attempted]

theorem writeString_of_half {s : List CodePoint} {n : Fin 2048} (h : .half n ∈ s)
    (hw : t.write p [] = (t', none)) : t.writeString p s = (t', some .half) := by
  rw [write] at hw
  rw [writeString]
  rcases hu : t.ensureFolder p.parent with ⟨u, _ | e⟩
  · rw [hu] at hw
    simp only [scalars?_eq_none h, save_eq, openFile] at hw ⊢
    rcases hl : u.look p with c | ⟨place, _ | _ | old⟩ <;> rw [hl] at hw <;> cases hw <;> rfl
  · rw [hu] at hw
    cases hw

/-- A document that was written is read as it was written, line ends and all. A mark in front is no
part of its text. -/
theorem read_written (t : Tree) (p : Path) (html : Text) :
    (∀ t', t.writeDocument p html = (t', none) →
      (html.head? ≠ some byteOrderMark → t'.readDocument p = .ok (html, .utf8)) ∧
      ∀ rest, html = byteOrderMark :: rest → t'.readDocument p = .ok (rest, .markedUtf8)) ∧
    (p.parts ≠ [] → ∀ place n, t.look p = .ok (place, n) → n ≠ some .folder →
      (t.writeDocument p html).2 = none) := by
  refine ⟨fun t' hw => ?_, fun hp place n hl hn => write_of_look hp hl hn _⟩
  have hr : t'.readDocument p = .ok (decoded (encodeUtf8 html)) := by
    rw [readDocument, (wrote_write hw).read]
    rfl
  refine ⟨fun hm => ?_, fun rest hm => ?_⟩
  · rw [hr, decoded_encodeUtf8 hm]
  · rw [hr, hm, decoded_encodeUtf8_marked]

def accentedPath : Path := .parse "é.html".toList

theorem read_written_with_two_marks :
    (∃ t', Tree.empty.writeDocument accentedPath "é\r\n\x85\n".toList = (t', none) ∧
      t'.readDocument accentedPath = .ok ("é\r\n\x85\n".toList, .utf8)) ∧
    ∃ t', Tree.empty.writeDocument accentedPath "\uFEFF\uFEFFé".toList = (t', none) ∧
      t'.readDocument accentedPath = .ok ("\uFEFFé".toList, .markedUtf8) := by
  have hl : Tree.empty.look accentedPath = .ok (["work".toList, "é.html".toList], none) := by
    decide
  obtain ⟨hr, hw⟩ := read_written Tree.empty accentedPath "é\r\n\x85\n".toList
  obtain ⟨hr', hw'⟩ := read_written Tree.empty accentedPath "\uFEFF\uFEFFé".toList
  have hw := hw (by decide) _ _ hl nofun
  have hw' := hw' (by decide) _ _ hl nofun
  exact ⟨⟨_, Prod.ext rfl hw, (hr _ (Prod.ext rfl hw)).1 (by decide)⟩,
    ⟨_, Prod.ext rfl hw', (hr' _ (Prod.ext rfl hw')).2 _ rfl⟩⟩

end MailMarkup.Files.Tree
