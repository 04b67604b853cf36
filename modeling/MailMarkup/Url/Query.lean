import MailMarkup.Url.Percent

namespace MailMarkup.Url

open Text

abbrev Parameter := Text × Text

abbrev Query := List Parameter

namespace Query

def readOne (t : Text) : Parameter :=
  let (name, value) := breakAt '=' t
  (unescapeForm name, unescapeForm (value.getD []))

def parse (t : Text) : Query := (fields (· == '&') t).map readOne

def renderOne (p : Parameter) : Text := escapeForm p.1 ++ '=' :: escapeForm p.2

def render (q : Query) : Text := join ['&'] (q.map renderOne)

theorem mem_renderOne {p : Parameter} {c : Char} (h : c ∈ renderOne p) :
    isFormChar c = true ∨ c = '=' := by
  rcases List.mem_append.1 h with h | h
  · exact .inl (isFormChar_of_mem_escapeForm h)
  · rcases List.mem_cons.1 h with h | h
    · exact .inr h
    · exact .inl (isFormChar_of_mem_escapeForm h)

theorem mem_render {q : Query} {c : Char} (h : c ∈ q.render) :
    isFormChar c = true ∨ c = '=' ∨ c = '&' := by
  rcases mem_join h with h | ⟨t, ht, h⟩
  · exact .inr (.inr h)
  · obtain ⟨p, -, rfl⟩ := List.mem_map.1 ht
    exact (mem_renderOne h).imp_right .inl

def replace (name value : Text) : Query → Query
  | [] => []
  | p :: q =>
    if p.1 = name then (name, value) :: q.filter (·.1 != name) else p :: replace name value q

def set (q : Query) (name value : Text) : Query :=
  if q.any (·.1 == name) then replace name value q else q ++ [(name, value)]

end Query

end MailMarkup.Url
