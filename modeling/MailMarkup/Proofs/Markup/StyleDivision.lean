import MailMarkup.Markup.Style

namespace MailMarkup.Markup

open Text

inductive Divided : Nesting → List Text → Prop
  | last {s : Nesting} {w : Text} : chunksFrom s w = [w] → Divided s [w]
  | cons {s : Nesting} {w : Text} {ws : List Text} : chunksFrom s w = [w] →
      w.foldl Nesting.next s = .top → Divided .top ws → Divided s (w :: ws)

variable {s : Nesting} {c : Char} {w : Text} {ws : List Text}

theorem chunksFrom_ne_nil (s : Nesting) (t : Text) : chunksFrom s t ≠ [] := by
  cases t with
  | nil => exact List.cons_ne_nil _ _
  | cons c r =>
    rw [chunksFrom]
    split
    · exact List.cons_ne_nil _ _
    · split <;> exact List.cons_ne_nil _ _

theorem exists_chunksFrom (s : Nesting) (t : Text) : ∃ w ws, chunksFrom s t = w :: ws :=
  List.exists_cons_of_ne_nil (chunksFrom_ne_nil s t)

theorem chunksFrom_semicolon (r : Text) : chunksFrom .top (';' :: r) = [] :: chunksFrom .top r :=
  if_pos ⟨rfl, rfl⟩

theorem chunksFrom_cons (hc : ¬ (c = ';' ∧ s = .top)) {r : Text}
    (hr : chunksFrom (s.next c) r = w :: ws) : chunksFrom s (c :: r) = (c :: w) :: ws := by
  rw [chunksFrom, if_neg hc, hr]

namespace Divided

theorem ne_nil (h : Divided s ws) : ws ≠ [] := by
  cases h <;> exact List.cons_ne_nil _ _

theorem cons_char (hc : ¬ (c = ';' ∧ s = .top)) (h : Divided (s.next c) (w :: ws)) :
    Divided s ((c :: w) :: ws) := by
  cases h with
  | last hw => exact .last (chunksFrom_cons hc hw)
  | cons hw hclosed hws => exact .cons (chunksFrom_cons hc hw) hclosed hws

theorem undivided (h : Divided .top ws) (hw : w ∈ ws) : declarationChunks w = [w] := by
  induction ws with
  | nil => cases hw
  | cons v ws ih =>
    cases h with
    | last hv =>
      obtain rfl := List.mem_singleton.1 hw
      exact hv
    | cons hv _ hws =>
      rcases List.mem_cons.1 hw with rfl | hw
      · exact hv
      · exact ih hws hw

theorem closed (h : Divided .top ws) (hw : w ∈ ws.dropLast) :
    w.foldl Nesting.next .top = .top := by
  induction ws with
  | nil => cases hw
  | cons v ws ih =>
    cases h with
    | last => cases hw
    | cons _ hclosed hws =>
      rw [List.dropLast_cons_of_ne_nil hws.ne_nil] at hw
      rcases List.mem_cons.1 hw with rfl | hw
      · exact hclosed
      · exact ih hws hw

end Divided

theorem divided_chunksFrom (s : Nesting) (t : Text) : Divided s (chunksFrom s t) := by
  induction t generalizing s with
  | nil => exact .last rfl
  | cons c t ih =>
    by_cases hc : c = ';' ∧ s = .top
    · obtain ⟨rfl, rfl⟩ := hc
      rw [chunksFrom_semicolon]
      exact .cons rfl rfl (ih .top)
    · obtain ⟨w, ws, hr⟩ := exists_chunksFrom (s.next c) t
      rw [chunksFrom_cons hc hr]
      exact (hr ▸ ih (s.next c)).cons_char hc

theorem join_chunksFrom (s : Nesting) (t : Text) : join [';'] (chunksFrom s t) = t := by
  induction t generalizing s with
  | nil => rfl
  | cons c t ih =>
    by_cases hc : c = ';' ∧ s = .top
    · obtain ⟨rfl, rfl⟩ := hc
      rw [chunksFrom_semicolon]
      calc join [';'] ([[]] ++ chunksFrom .top t)
          = join [';'] [[]] ++ ';' :: join [';'] (chunksFrom .top t) :=
            join_append (List.cons_ne_nil _ _) (chunksFrom_ne_nil _ _)
        _ = ';' :: t := by rw [ih]; rfl
    · obtain ⟨w, ws, hr⟩ := exists_chunksFrom (s.next c) t
      have ih := ih (s.next c)
      rw [hr] at ih
      rw [chunksFrom_cons hc hr, ← ih]
      cases ws with
      | nil => simp [join]
      | cons v ws => simp [join, List.intercalate_cons_cons]

theorem chunksFrom_append {u : Text} (h : u.foldl Nesting.next s = .top) (t : Text) :
    chunksFrom s (u ++ ';' :: t) = chunksFrom s u ++ chunksFrom .top t := by
  induction u generalizing s with
  | nil =>
    obtain rfl : s = .top := h
    exact chunksFrom_semicolon t
  | cons c u ih =>
    by_cases hc : c = ';' ∧ s = .top
    · obtain ⟨rfl, rfl⟩ := hc
      rw [List.cons_append, chunksFrom_semicolon, chunksFrom_semicolon, List.cons_append]
      exact congrArg _ (ih h)
    · obtain ⟨w, ws, hr⟩ := exists_chunksFrom (s.next c) u
      have hboth := ih h
      rw [hr, List.cons_append] at hboth
      rw [List.cons_append, chunksFrom_cons hc hr, chunksFrom_cons hc hboth, List.cons_append]

/-- Nothing is lost, and a semicolon divides only where all is closed. A text that closes what it
opens is divided as if nothing followed its semicolon. -/
theorem declarationChunks_at_top :
    (∀ t, join [';'] (declarationChunks t) = t ∧
      (∀ w ∈ declarationChunks t, declarationChunks w = [w]) ∧
      ∀ w ∈ (declarationChunks t).dropLast, w.foldl Nesting.next .top = .top) ∧
    ∀ s t : Text, s.foldl Nesting.next .top = .top →
      declarationChunks (s ++ ';' :: t) = declarationChunks s ++ declarationChunks t := by
  constructor
  · intro t
    have hd := divided_chunksFrom .top t
    exact ⟨join_chunksFrom .top t, fun _ => hd.undivided, fun _ => hd.closed⟩
  · exact fun _ t h => chunksFrom_append h t

def closedStyle : Text := "background:URL(a;')');b:';'".toList

def unclosedStyle : Text := "c:d);font:\"e;(".toList

theorem declarationChunks_at_top_of_unclosed :
    ("b:';'".toList ∈ declarationChunks closedStyle ∧
        "c:d)".toList ∈ (declarationChunks unclosedStyle).dropLast ∧
        closedStyle.foldl Nesting.next .top = .top) ∧
      declarationChunks "b:';'".toList = ["b:';'".toList] ∧
      "c:d)".toList.foldl Nesting.next .top = .top ∧
      declarationChunks (closedStyle ++ ';' :: unclosedStyle) =
        declarationChunks closedStyle ++ declarationChunks unclosedStyle := by
  have h : "b:';'".toList ∈ declarationChunks closedStyle ∧
      "c:d)".toList ∈ (declarationChunks unclosedStyle).dropLast ∧
      closedStyle.foldl Nesting.next .top = .top := by decide
  refine ⟨h, ?_⟩
  obtain ⟨hw, hlast, hs⟩ := h
  exact ⟨(declarationChunks_at_top.1 _).2.1 _ hw, (declarationChunks_at_top.1 _).2.2 _ hlast,
    declarationChunks_at_top.2 _ _ hs⟩

end MailMarkup.Markup
