import Mathlib.Data.Finset.Card
import Mathlib.Data.List.Perm.Subperm
import Mathlib.Order.Bounds.Basic
import MailMarkup.Image.AltText
import MailMarkup.Proofs.Markup.TokenPositions

namespace MailMarkup.Text

structure Divides (c : Char) : Prop where
  counts : isCaseIgnorable c = false
  uncased : isCased c = false
  ascii : c.toNat < 128
  lower : c.toLower = c

theorem divides_blank : Divides ' ' := by
  constructor <;> decide +kernel

theorem divides_slash : Divides '/' := by
  constructor <;> decide +kernel

theorem Divides.meetsCased_append {c : Char} (h : Divides c) (s t : Text) :
    meetsCased (s ++ c :: t) = meetsCased s := by
  rw [meetsCased, meetsCased, List.find?_append]
  cases s.find? (!isCaseIgnorable ·) with
  | some d => rfl
  | none =>
    rw [Option.none_or, List.find?_cons_of_pos (by rw [h.counts]; rfl)]
    exact h.uncased

theorem Divides.lowerChar_append {c : Char} (h : Divides c) (b : Bool) (d : Char) (s t : Text) :
    lowerChar b d (s ++ c :: t) = lowerChar b d s := by
  rw [lowerChar, lowerChar, h.meetsCased_append]

theorem Divides.lowerFrom_append {c : Char} (h : Divides c) (b : Bool) (s t : Text) :
    lowerFrom b (s ++ c :: t) = lowerFrom b s ++ c :: Text.lower t := by
  induction s generalizing b with
  | nil =>
    have hchar : lowerChar b c t = [c] := by rw [lowerChar, if_pos h.ascii, h.lower]
    change lowerChar b c t ++ lowerFrom (if isCaseIgnorable c then b else isCased c) t = _
    rw [hchar, h.counts, h.uncased]
    rfl
  | cons d s ih =>
    rw [List.cons_append, lowerFrom, h.lowerChar_append, ih, lowerFrom, List.append_assoc]

theorem Divides.lower_append {c : Char} (h : Divides c) (s t : Text) :
    Text.lower (s ++ c :: t) = Text.lower s ++ c :: Text.lower t :=
  h.lowerFrom_append false s t

theorem ofNat_injective : Function.Injective ofNat := by
  intro m n h
  have hread := congrArg (fun ds => Nat.ofDigitChars 10 ds 0) h
  simpa [ofNat] using hread

theorem isDigit_of_mem_ofNat {n : Nat} {c : Char} (h : c ∈ ofNat n) : c.isDigit = true :=
  Nat.isDigit_of_mem_toDigits (by decide) (by decide) h

theorem minus_not_mem_ofNat (n : Nat) : '-' ∉ ofNat n := fun h =>
  absurd (isDigit_of_mem_ofNat h) (by decide)

theorem ofInt_injective : Function.Injective ofInt := by
  have hsign (m n : Nat) (r : Text) : '-' :: r ≠ ofNat n := fun h =>
    minus_not_mem_ofNat n (h ▸ List.mem_cons_self)
  intro m n h
  rw [ofInt, ofInt] at h
  split at h <;> split at h
  · have := ofNat_injective (List.cons.inj h).2
    omega
  · exact absurd h (hsign 0 _ _)
  · exact absurd h.symm (hsign 0 _ _)
  · have := ofNat_injective h
    omega

theorem mem_ofInt {n : Int} {c : Char} (h : c ∈ ofInt n) : c = '-' ∨ c.isDigit = true := by
  rw [ofInt] at h
  split at h
  · exact (List.mem_cons.1 h).imp_right isDigit_of_mem_ofNat
  · exact .inr (isDigit_of_mem_ofNat h)

theorem map_toLower_ofInt (n : Int) : (ofInt n).map Char.toLower = ofInt n := by
  refine (List.map_congr_left fun c hc => ?_).trans (List.map_id _)
  rcases mem_ofInt hc with rfl | hd
  · rfl
  · have hrange := Markup.isDigit_iff.1 hd
    refine Char.ext (UInt32.toNat_inj.1 ?_)
    change c.toLower.toNat = c.toNat
    rw [toNat_toLower, if_neg (by omega)]

theorem lt_of_mem_ofInt {n : Int} {c : Char} (h : c ∈ ofInt n) : c.toNat < 128 := by
  rcases mem_ofInt h with rfl | hd
  · decide
  · have hrange := Markup.isDigit_iff.1 hd
    omega

end MailMarkup.Text

namespace MailMarkup.Image

open Text

structure Request where
  alt : Text
  written : Bool
  index : Int
  deriving DecidableEq

namespace Request

def joint (q : Request) : Text := if q.written then " ".toList else " variant ".toList

def first (q : Request) : Int := if q.written then q.index + 1 else 2

end Request

namespace Registry

variable {r : Registry} {q : Request}

inductive Answers (r : Registry) (q : Request) : Text → Prop
  | itself : r.has q.alt = false → Answers r q q.alt
  | numbered {k : Int} : r.has q.alt = true →
      IsLeast {n | q.first ≤ n ∧ r.has (numbered q.alt q.joint n) = false} k →
      Answers r q (numbered q.alt q.joint k)

theorem Answers.not_has {a : Text} (h : Answers r q a) : r.has a = false := by
  cases h with
  | itself h => exact h
  | numbered _ h => exact h.1.2

theorem exists_joint (q : Request) :
    ∃ w, q.joint = ' ' :: w ∧ ∀ c ∈ w, c.toNat < 128 := by
  rw [Request.joint]
  split
  · exact ⟨[], rfl, by simp⟩
  · exact ⟨"variant ".toList, rfl, List.forall_iff_forall_mem.1 (by decide)⟩

theorem lower_numbered_injective (q : Request) :
    Function.Injective fun n => lower (numbered q.alt q.joint n) := by
  obtain ⟨w, hw, hascii⟩ := exists_joint q
  have hform (n : Int) : lower (numbered q.alt q.joint n) =
      lower q.alt ++ ' ' :: (w.map Char.toLower ++ ofInt n) := by
    have htail : ∀ c ∈ w ++ ofInt n, c.toNat < 128 := fun c hc =>
      (List.mem_append.1 hc).elim (hascii c) lt_of_mem_ofInt
    rw [numbered, hw, List.append_assoc, List.cons_append, divides_blank.lower_append,
      Markup.lower_eq_map htail, List.map_append, map_toLower_ofInt]
  intro m n h
  simp only [hform, List.append_cancel_left_eq, List.cons.injEq, true_and] at h
  exact ofInt_injective h

theorem exists_free (r : Registry) (q : Request) :
    ∃ k : Nat, k ∈ List.range (r.used.length + 1) ∧
      r.has (numbered q.alt q.joint (q.first + k)) = false := by
  by_contra hnone
  have hsub : (List.range (r.used.length + 1)).map
      (fun k : Nat => lower (numbered q.alt q.joint (q.first + k))) ⊆ r.used := by
    intro t ht
    obtain ⟨k, hk, rfl⟩ := List.mem_map.1 ht
    by_contra hfree
    exact hnone ⟨k, hk, by simpa [has] using hfree⟩
  have hinj : Function.Injective fun k : Nat => lower (numbered q.alt q.joint (q.first + k)) := by
    intro i j h
    have := lower_numbered_injective q h
    omega
  have hlen := ((List.nodup_range.map hinj).subperm hsub).length_le
  rw [List.length_map, List.length_range] at hlen
  omega

theorem answers_firstFree (h : r.has q.alt = true) :
    Answers r q (r.firstFree q.alt q.joint q.first) := by
  obtain ⟨j, hj, hfree⟩ := exists_free r q
  cases hf : (List.range (r.used.length + 1)).find?
      fun k : Nat => !r.has (numbered q.alt q.joint (q.first + k)) with
  | none => exact absurd (by simpa using hfree) (List.find?_eq_none.1 hf j hj)
  | some k =>
    obtain ⟨hk, -, hleast⟩ := List.find?_range_eq_some.1 hf
    have hvalue : r.firstFree q.alt q.joint q.first = numbered q.alt q.joint (q.first + k) := by
      simp only [firstFree, hf, Option.map_some, Option.getD_some]
    rw [hvalue]
    refine .numbered h ⟨⟨by omega, by simpa using hk⟩, ?_⟩
    rintro n ⟨hn, hnfree⟩
    by_contra hlt
    have := hleast (n - q.first).toNat (by omega)
    rw [show q.first + ((n - q.first).toNat : Int) = n by omega, hnfree] at this
    cases this

theorem answers_choose (r : Registry) (q : Request) :
    Answers r q (r.choose q.alt q.written q.index) := by
  obtain ⟨alt, written, index⟩ := q
  cases h : r.has alt with
  | false =>
    rw [choose, h]
    exact .itself h
  | true =>
    rw [choose, h]
    cases written with
    | true => exact answers_firstFree (q := ⟨alt, true, index⟩) h
    | false => exact answers_firstFree (q := ⟨alt, false, index⟩) h

theorem not_mem_used_of_answers {a : Text} (h : Answers r q a) : lower a ∉ r.used := by
  simpa [has] using h.not_has

def claimAll (r : Registry) : List Request → List Text × Registry
  | [] => ([], r)
  | q :: qs =>
    let (a, r) := r.claim q.alt q.written q.index
    let (as, r) := r.claimAll qs
    (a :: as, r)

def entries (r : Registry) : Finset Text := r.used.toFinset

theorem claimAll_cons (r : Registry) (q : Request) (qs : List Request) :
    r.claimAll (q :: qs) =
      (r.choose q.alt q.written q.index ::
          ((r.claim q.alt q.written q.index).2.claimAll qs).1,
        ((r.claim q.alt q.written q.index).2.claimAll qs).2) := rfl

theorem claimAll_append (r : Registry) (ps qs : List Request) :
    r.claimAll (ps ++ qs) =
      ((r.claimAll ps).1 ++ ((r.claimAll ps).2.claimAll qs).1,
        ((r.claimAll ps).2.claimAll qs).2) := by
  induction ps generalizing r with
  | nil => rfl
  | cons p ps ih => rw [List.cons_append, claimAll_cons, ih, claimAll_cons, List.cons_append]

theorem length_claimAll (r : Registry) (qs : List Request) :
    (r.claimAll qs).1.length = qs.length := by
  induction qs generalizing r with
  | nil => rfl
  | cons q qs ih => rw [claimAll_cons, List.length_cons, ih, List.length_cons]

theorem used_claimAll (r : Registry) (qs : List Request) :
    (r.claimAll qs).2.used = ((r.claimAll qs).1.map lower).reverse ++ r.used := by
  induction qs generalizing r with
  | nil => rfl
  | cons q qs ih =>
    rw [claimAll_cons, ih]
    simp [claim]

theorem nodup_used_claimAll (h : r.used.Nodup) (qs : List Request) :
    (r.claimAll qs).2.used.Nodup := by
  induction qs generalizing r with
  | nil => exact h
  | cons q qs ih =>
    exact ih (List.nodup_cons.2 ⟨not_mem_used_of_answers (answers_choose r q), h⟩)

theorem nodup_map_lower_claimAll (qs : List Request) :
    ((Registry.empty.claimAll qs).1.map lower).Nodup := by
  have h := nodup_used_claimAll (r := .empty) List.nodup_nil qs
  rw [used_claimAll, show Registry.empty.used = [] from rfl, List.append_nil,
    List.nodup_reverse] at h
  exact h

theorem card_entries_claim (r : Registry) (q : Request) :
    (r.claim q.alt q.written q.index).2.entries.card = r.entries.card + 1 := by
  have hnew : lower (r.choose q.alt q.written q.index) ∉ r.entries := fun h =>
    not_mem_used_of_answers (answers_choose r q) (List.mem_toFinset.1 h)
  rw [← Finset.card_insert_of_notMem hnew, entries, claim, List.toFinset_cons]
  rfl

/-- Every call of a sequence on a fresh registry has its answer: the text itself if it is free, and
else the first of its numbered forms that is. It is one entry more, and no two answers of the
sequence are the same in lower case. -/
theorem claimed_apart (before : List Request) (q : Request) (behind : List Request) :
    ∃ a as, (Registry.empty.claimAll (before ++ q :: behind)).1 =
        (Registry.empty.claimAll before).1 ++ a :: as ∧
      (Registry.empty.claimAll before).1.length = before.length ∧
      Answers (Registry.empty.claimAll before).2 q a ∧
      (Registry.empty.claimAll (before ++ [q])).2.entries.card =
        (Registry.empty.claimAll before).2.entries.card + 1 ∧
      ((Registry.empty.claimAll (before ++ q :: behind)).1.map lower).Nodup := by
  have hanswers := congrArg Prod.fst (claimAll_append .empty before (q :: behind))
  rw [claimAll_cons] at hanswers
  refine ⟨_, _, hanswers, length_claimAll _ before, answers_choose _ q, ?_,
    nodup_map_lower_claimAll (before ++ q :: behind)⟩
  rw [claimAll_append]
  exact card_entries_claim _ q

example : (Registry.empty.claimAll
    [⟨"A variant 2".toList, true, 0⟩, ⟨"A".toList, false, 1⟩, ⟨"a".toList, false, 2⟩,
      ⟨"A".toList, true, 3⟩]).1 =
    ["A variant 2".toList, "A".toList, "a variant 3".toList, "A 4".toList] := by
  decide +kernel

end Registry

end MailMarkup.Image
