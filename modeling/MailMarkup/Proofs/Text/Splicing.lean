import Mathlib.Logic.ExistsUnique
import MailMarkup.Text.Splice

namespace MailMarkup.Text

namespace Insertion

variable {is os ps : List Insertion} {i j : Insertion}

def Precedes (i j : Insertion) : Prop :=
  i.position < j.position ∨ i.position = j.position ∧ i.priority ≤ j.priority

theorem before_iff : i.before j = true ↔ i.Precedes j := by
  simp [before, Precedes]

theorem before_trans (i j k : Insertion) (h : i.before j = true) (h' : j.before k = true) :
    i.before k = true := by
  rw [before_iff, Precedes] at *
  omega

theorem before_total (i j : Insertion) : (i.before j || j.before i) = true := by
  simp only [Bool.or_eq_true, before_iff, Precedes]
  omega

theorem position_le_of_before (h : i.before j = true) : i.position ≤ j.position := by
  rw [before_iff, Precedes] at h
  omega

theorem pairwise_position_mergeSort (is : List Insertion) :
    (is.mergeSort before).Pairwise fun i j => i.position ≤ j.position :=
  (List.pairwise_mergeSort before_trans before_total is).imp position_le_of_before

def isAt (position priority : Int) (i : Insertion) : Bool :=
  i.position == position && i.priority == priority

theorem isAt_self (i : Insertion) : isAt i.position i.priority i = true := by
  simp [isAt]

structure IsStableOrder (is os : List Insertion) : Prop where
  sorted : os.Pairwise Precedes
  kept : ∀ p q, os.filter (isAt p q) = is.filter (isAt p q)

theorem mem_of_filter_eq (h : ∀ p q, os.filter (isAt p q) = ps.filter (isAt p q)) (hi : i ∈ os) :
    i ∈ ps := by
  have hf : i ∈ os.filter (isAt i.position i.priority) := List.mem_filter.2 ⟨hi, isAt_self i⟩
  rw [h] at hf
  exact (List.mem_filter.1 hf).1

theorem eq_of_filter_eq (ho : os.Pairwise Precedes) (hp : ps.Pairwise Precedes)
    (h : ∀ p q, os.filter (isAt p q) = ps.filter (isAt p q)) : os = ps := by
  induction os generalizing ps with
  | nil =>
    refine (List.eq_nil_iff_forall_not_mem.2 ?_).symm
    intro j hj
    exact List.not_mem_nil (mem_of_filter_eq (fun p q => (h p q).symm) hj)
  | cons i os ih =>
    cases ps with
    | nil => exact absurd (mem_of_filter_eq h List.mem_cons_self) List.not_mem_nil
    | cons j ps =>
      obtain ⟨hi, hos⟩ := List.pairwise_cons.1 ho
      obtain ⟨hj, hps⟩ := List.pairwise_cons.1 hp
      -- each head is somewhere in the other list, so that neither comes behind the other
      have hij : i = j ∨ j.Precedes i :=
        (List.mem_cons.1 (mem_of_filter_eq h List.mem_cons_self)).imp_right (hj i)
      have hji : j = i ∨ i.Precedes j :=
        (List.mem_cons.1 (mem_of_filter_eq (fun p q => (h p q).symm) List.mem_cons_self)).imp_right
          (hi j)
      have hat : isAt i.position i.priority j = true := by
        rcases hij with rfl | hij
        · exact isAt_self i
        rcases hji with rfl | hji
        · exact isAt_self j
        · simp only [Precedes] at hij hji
          simp only [isAt, Bool.and_eq_true, beq_iff_eq]
          omega
      have hhead := h i.position i.priority
      rw [List.filter_cons_of_pos (isAt_self i), List.filter_cons_of_pos hat] at hhead
      obtain ⟨rfl, -⟩ := List.cons.inj hhead
      refine congrArg (i :: ·) (ih hos hps ?_)
      intro p q
      have hpq := h p q
      rw [List.filter_cons, List.filter_cons] at hpq
      split at hpq
      · exact (List.cons.inj hpq).2
      · exact hpq

theorem isStableOrder_mergeSort (is : List Insertion) :
    IsStableOrder is (is.mergeSort before) := by
  constructor
  · exact (List.pairwise_mergeSort before_trans before_total is).imp before_iff.1
  · intro p q
    have hsame : (is.filter (isAt p q)).Pairwise fun i j => i.before j = true := by
      refine List.pairwise_of_forall_mem_list ?_
      intro i hi j hj
      have hi := (List.mem_filter.1 hi).2
      have hj := (List.mem_filter.1 hj).2
      simp only [isAt, Bool.and_eq_true, beq_iff_eq] at hi hj
      rw [before_iff, Precedes]
      omega
    have hsub : (is.filter (isAt p q)).Sublist ((is.mergeSort before).filter (isAt p q)) := by
      have := List.sublist_mergeSort before_trans before_total hsame List.filter_sublist
      simpa using this.filter (isAt p q)
    exact (hsub.eq_of_length ((List.mergeSort_perm is before).filter _).length_eq.symm).symm

theorem existsUnique_isStableOrder (is : List Insertion) : ∃! os, IsStableOrder is os := by
  refine ⟨is.mergeSort before, isStableOrder_mergeSort is, ?_⟩
  intro os h
  have hm := isStableOrder_mergeSort is
  exact eq_of_filter_eq h.sorted hm.sorted fun p q => (h.kept p q).trans (hm.kept p q).symm

end Insertion

def insertEach (t : Text) (is : List Insertion) : Text :=
  is.foldl (fun t i => insertAt t i.position i.addition) t

theorem insertAt_append (s r addition : Text) :
    insertAt (s ++ r) s.length addition = s ++ (addition ++ r) := by
  have hle : s.length ≤ (s ++ r).length := by simp
  rw [insertAt, upTo, fromIndex, clampIndex_natCast hle, List.take_left, List.drop_left,
    List.append_assoc]

theorem insertEach_reverse {t : Text} {last : Nat} {os : List Insertion} (hl : last ≤ t.length)
    (hs : os.Pairwise fun i j => i.position ≤ j.position)
    (ho : ∀ i ∈ os, (last : Int) ≤ i.position ∧ i.position ≤ t.length) :
    insertEach t os.reverse = t.take last ++ weave t last os := by
  induction os generalizing last with
  | nil =>
    rw [weave, fromIndex, clampIndex_natCast hl, List.take_append_drop]
    rfl
  | cons i os ih =>
    obtain ⟨hi, ho⟩ := List.forall_mem_cons.1 ho
    obtain ⟨hfirst, hs⟩ := List.pairwise_cons.1 hs
    obtain ⟨p, hp⟩ := Int.eq_ofNat_of_zero_le (show 0 ≤ i.position by omega)
    have hle : p ≤ t.length := by omega
    have hrest : insertEach t os.reverse = t.take p ++ weave t p os :=
      ih hle hs fun j hj => ⟨hp ▸ hfirst j hj, (ho j hj).2⟩
    have hlen : (t.take p).length = p := List.length_take_of_le hle
    have hput := insertAt_append (t.take p) (weave t p os) i.addition
    rw [hlen, ← hrest] at hput
    have hfront : t.take last ++ between t last p = t.take p := by
      rw [between, clampIndex_natCast hl, clampIndex_natCast hle]
      have hmin : (t.take p).take last = t.take last := by
        rw [List.take_take, Nat.min_eq_left (by omega)]
      rw [← hmin, List.take_append_drop]
    calc insertEach t (i :: os).reverse
        = insertAt (insertEach t os.reverse) p i.addition := by
          rw [← hp, List.reverse_cons, insertEach, List.foldl_append]
          rfl
      _ = t.take p ++ (i.addition ++ weave t p os) := hput
      _ = t.take last ++ weave t last (i :: os) := by
          rw [weave, hp, ← hfront, List.append_assoc, List.append_assoc]

theorem splice_eq_weave_mergeSort (t : Text) (is : List Insertion) :
    splice t is = weave t 0 (is.mergeSort Insertion.before) := by
  rw [splice]
  cases is.mergeSort Insertion.before with
  | nil => rfl
  | cons i is => rfl

/-- Insertions at positions of the text have one stable order. To put all in at once is to put in
one after another from the end of that order on. -/
theorem splice_one_by_one {t : Text} {is : List Insertion}
    (h : ∀ i ∈ is, 0 ≤ i.position ∧ i.position ≤ t.length) :
    (∃! os, Insertion.IsStableOrder is os) ∧
      ∀ os, Insertion.IsStableOrder is os → splice t is = insertEach t os.reverse := by
  refine ⟨Insertion.existsUnique_isStableOrder is, ?_⟩
  intro os ho
  have hm := Insertion.isStableOrder_mergeSort is
  obtain rfl := (Insertion.existsUnique_isStableOrder is).unique ho hm
  have hput := insertEach_reverse (Nat.zero_le t.length)
    (Insertion.pairwise_position_mergeSort is) fun i hi => h i (List.mem_mergeSort.1 hi)
  rw [hput, splice_eq_weave_mergeSort]
  rfl

def tiedInsertions : List Insertion := [
  ⟨2, 0, "end".toList⟩, ⟨1, 1, "x".toList⟩, ⟨1, 0, "y".toList⟩, ⟨1, 1, "z".toList⟩,
  ⟨0, 7, "start".toList⟩, ⟨1, 1, []⟩, ⟨1, 0, "w".toList⟩]

theorem splice_one_by_one_of_ties :
    (∀ i ∈ tiedInsertions, 0 ≤ i.position ∧ i.position ≤ "ab".toList.length) ∧
      (∃! os, Insertion.IsStableOrder tiedInsertions os) ∧
      ∀ os, Insertion.IsStableOrder tiedInsertions os →
        splice "ab".toList tiedInsertions = insertEach "ab".toList os.reverse := by
  have h : ∀ i ∈ tiedInsertions, 0 ≤ i.position ∧ i.position ≤ "ab".toList.length := by decide
  exact ⟨h, splice_one_by_one h⟩

end MailMarkup.Text
