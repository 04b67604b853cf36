import MailMarkup.Document.Head
import MailMarkup.Proofs.Table.TableTag

namespace MailMarkup.Text

inductive Without (D : Text → Prop) : Text → Text → Prop
  | nil : Without D [] []
  | hit {d t u : Text} (kind : D d) (rest : Without D t u) : Without D (d ++ t) u
  | skip {c : Char} {t u : Text} (none : ∀ d, D d → ¬ d <+: c :: t) (rest : Without D t u) :
      Without D (c :: t) (c :: u)

structure Recognises {α : Type} (f : Recogniser α) (D : Text → Prop) : Prop where
  ne_nil : ∀ d, D d → d ≠ []
  found_iff : ∀ t n, (∃ a, f t = some (a, n)) ↔ ∃ d, D d ∧ d <+: t ∧ d.length = n + 1

section

variable {α : Type} {f : Recogniser α} {D : Text → Prop} (hf : Recognises f D)

include hf

theorem Recognises.exists_of_append {d : Text} (hd : D d) (t : Text) :
    ∃ a, f (d ++ t) = some (a, d.length - 1) := by
  have hpos := List.length_pos_of_ne_nil (hf.ne_nil d hd)
  exact (hf.found_iff _ _).2 ⟨d, hd, List.prefix_append d t, by omega⟩

theorem Recognises.of_none {t : Text} (h : f t = none) {d : Text} (hd : D d) : ¬ d <+: t := by
  rintro ⟨r, rfl⟩
  obtain ⟨a, ha⟩ := hf.exists_of_append hd r
  rw [h] at ha
  cases ha

theorem eraseHits_of_without {t u : Text} (h : Without D t u) : eraseHits f t = u := by
  induction h with
  | nil => rfl
  | @hit d t u hd _ ih =>
    obtain ⟨a, ha⟩ := hf.exists_of_append hd t
    rw [eraseHits, scan_append (hf.ne_nil d hd) ha]
    exact ih
  | @skip c t u hn _ ih =>
    have hnone : f (c :: t) = none := by
      by_contra hs
      obtain ⟨⟨a, n⟩, ha⟩ := Option.ne_none_iff_exists'.1 hs
      obtain ⟨d, hd, hp, -⟩ := (hf.found_iff _ n).1 ⟨a, ha⟩
      exact hn d hd hp
    rw [eraseHits, scan_cons_none hnone]
    exact congrArg (c :: ·) ih

theorem without_eraseHits (t : Text) : Without D t (eraseHits f t) := by
  match t with
  | [] => exact .nil
  | c :: t =>
    cases h : f (c :: t) with
    | none =>
      rw [eraseHits, scan_cons_none h]
      exact .skip (fun d => hf.of_none h) (without_eraseHits t)
    | some x =>
      obtain ⟨a, n⟩ := x
      obtain ⟨d, hd, ⟨r, hr⟩, hlen⟩ := (hf.found_iff _ n).1 ⟨a, h⟩
      have hrest : t.drop n = r := by
        have := congrArg (List.drop (n + 1)) hr
        rwa [← hlen, List.drop_left, hlen, List.drop_succ_cons, eq_comm] at this
      have ih := without_eraseHits (t.drop n)
      rw [eraseHits, scan_cons_some h, ← hr]
      rw [hrest] at ih ⊢
      exact .hit hd ih
termination_by t.length
decreasing_by
  all_goals simp only [List.length_cons, List.length_drop]; omega

theorem without_iff {t u : Text} : Without D t u ↔ u = eraseHits f t :=
  ⟨fun h => (eraseHits_of_without hf h).symm, fun h => h ▸ without_eraseHits hf t⟩

end

theorem exists_of_takeWhile_lt {c : Char} {t : Text}
    (h : (t.takeWhile (· != c)).length < t.length) :
    ∃ r, t = t.takeWhile (· != c) ++ c :: r ∧ c ∉ t.takeWhile (· != c) := by
  have hsplit := List.takeWhile_append_dropWhile (p := (· != c)) (l := t)
  cases hd : t.dropWhile (· != c) with
  | nil =>
    rw [hd, List.append_nil] at hsplit
    rw [hsplit] at h
    omega
  | cons d r =>
    have hhead := List.head?_dropWhile_not (· != c) t
    rw [hd] at hhead hsplit
    obtain rfl : d = c := by simpa using hhead
    refine ⟨r, hsplit.symm, fun hm => ?_⟩
    simpa using List.mem_takeWhile_imp hm

end MailMarkup.Text

namespace MailMarkup.Document

open Text

def IsDeclaration (beginning ending : Text) (d : Text) : Prop :=
  ∃ p inner, d = p ++ inner ++ ['>'] ∧ p.map foldLetter = beginning ∧ '>' ∉ inner ∧
    ending <:+ inner

theorem exists_declaration_iff {w e t : Text} {n : Nat} :
    (∃ r, dropFolded? w t = some r ∧ (r.takeWhile (· != '>')).length < r.length ∧
        e <:+ r.takeWhile (· != '>') ∧
        t.length - r.length + (r.takeWhile (· != '>')).length = n) ↔
      ∃ d, IsDeclaration w e d ∧ d <+: t ∧ d.length = n + 1 := by
  constructor
  · rintro ⟨r, hr, hlt, he, hn⟩
    obtain ⟨p, rfl, hp⟩ := dropFolded?_eq_some_iff.1 hr
    obtain ⟨z, hz, hm⟩ := exists_of_takeWhile_lt hlt
    refine ⟨_, ⟨p, r.takeWhile (· != '>'), rfl, hp, hm, he⟩, ⟨z, ?_⟩, ?_⟩
    · conv_rhs => rw [hz]
      simp only [List.append_assoc, List.singleton_append]
    · simp only [List.length_append, List.length_singleton] at hn ⊢
      omega
  · rintro ⟨d, ⟨p, inner, rfl, hp, hm, he⟩, ⟨z, rfl⟩, hlen⟩
    have htake : (inner ++ '>' :: z).takeWhile (· != '>') = inner :=
      Markup.Attributes.takeWhile_ne_append hm z
    refine ⟨inner ++ '>' :: z, dropFolded?_eq_some_iff.2 ⟨p, by simp, hp⟩, ?_⟩
    rw [htake]
    simp only [List.length_append, List.length_cons, List.length_nil] at hlen ⊢
    exact ⟨by omega, he, by omega⟩

theorem recognises_doctype? : Recognises doctype? (IsDeclaration "<!doctype".toList []) where
  ne_nil := by
    rintro d ⟨p, inner, rfl, -⟩
    simp
  found_iff t n := by
    rw [← exists_declaration_iff]
    simp [doctype?, Option.bind_eq_some_iff]

theorem recognises_xmlDeclaration? :
    Recognises xmlDeclaration? (IsDeclaration "<?xml".toList ['?']) where
  ne_nil := by
    rintro d ⟨p, inner, rfl, -⟩
    simp
  found_iff t n := by
    have hlast (i : Text) : i.getLast? = some '?' ↔ ['?'] <:+ i := by
      rw [List.getLast?_eq_some_iff]
      exact exists_congr fun _ => eq_comm
    rw [← exists_declaration_iff]
    simp [xmlDeclaration?, Option.bind_eq_some_iff, hlast, and_assoc]

end MailMarkup.Document
