import MailMarkup.Proofs.Url.Addresses
import MailMarkup.Proofs.Url.Parameters
import MailMarkup.Report.Analysis

namespace MailMarkup.Url.Query

open Text

theorem ne_mark_of_mem_render {q : Query} {c : Char} (h : c ∈ q.render) :
    c ≠ '#' ∧ isDropped c = false := by
  have hother : ∀ e ∈ ['#', '\t', '\r', '\n'],
      isFormChar e = false ∧ e ≠ '=' ∧ e ≠ '&' := by simp [isFormChar]
  have hquery : c ∉ ['#', '\t', '\r', '\n'] := by
    intro hm
    obtain ⟨hf, he, ha⟩ := hother c hm
    rcases mem_render h with h | h | h
    · simp [hf] at h
    · exact he h
    · exact ha h
  rw [List.mem_cons, not_or] at hquery
  exact ⟨hquery.1, by simpa [isDropped] using hquery.2⟩

end MailMarkup.Url.Query

namespace MailMarkup.Link

open Text

namespace Campaign

variable {c : Campaign} {q : Url.Query}

theorem sets_mark (c : Campaign) (q : Url.Query) : ∃ r,
    Url.Query.Sets "utm_medium".toList c.medium q r ∧
      Url.Query.Sets "utm_campaign".toList c.campaign r (c.mark q) :=
  ⟨_, Url.Query.sets_setUnlessEmpty _ _ _, Url.Query.sets_setUnlessEmpty _ _ _⟩

theorem filter_medium_mark (h : c.medium ≠ []) (q : Url.Query) :
    (c.mark q).filter (·.1 == "utm_medium".toList) = [("utm_medium".toList, c.medium)] := by
  obtain ⟨r, hm, hc⟩ := c.sets_mark q
  rw [hc.filter_of_ne (by decide), hm.filter_self h]

theorem filter_campaign_mark (h : c.campaign ≠ []) (q : Url.Query) :
    (c.mark q).filter (·.1 == "utm_campaign".toList) = [("utm_campaign".toList, c.campaign)] := by
  obtain ⟨r, -, hc⟩ := c.sets_mark q
  exact hc.filter_self h

theorem exists_mem_mark (h : c.isEmpty = false) (q : Url.Query) :
    ∃ p ∈ c.mark q, "utm_".toList.isPrefixOf (lower p.1) = true := by
  rw [isEmpty, Bool.and_eq_false_iff] at h
  rcases h with h | h
  · have hm := filter_medium_mark (by simpa using h) q
    exact ⟨_, (List.mem_filter.1 (hm ▸ List.mem_singleton_self _)).1,
      show "utm_".toList.isPrefixOf (lower "utm_medium".toList) = true by decide⟩
  · have hm := filter_campaign_mark (by simpa using h) q
    exact ⟨_, (List.mem_filter.1 (hm ▸ List.mem_singleton_self _)).1,
      show "utm_".toList.isPrefixOf (lower "utm_campaign".toList) = true by decide⟩

theorem setUnlessEmpty_eq_self {name value : Text}
    (h : value ≠ [] → q.filter (·.1 == name) = [(name, value)]) :
    setUnlessEmpty q name value = q := by
  rw [setUnlessEmpty]
  split
  · rfl
  · rename_i hv
    exact Url.Query.set_eq_self (h (by simpa using hv))

theorem mark_mark (c : Campaign) (q : Url.Query) : c.mark (c.mark q) = c.mark q := by
  have hm : setUnlessEmpty (c.mark q) "utm_medium".toList c.medium = c.mark q :=
    setUnlessEmpty_eq_self fun h => filter_medium_mark h q
  have hc : setUnlessEmpty (c.mark q) "utm_campaign".toList c.campaign = c.mark q :=
    setUnlessEmpty_eq_self fun h => filter_campaign_mark h q
  rw [mark, hm, hc]

def marked (c : Campaign) (u : Url) : Url :=
  { u with
    path := if !u.netloc.isEmpty && u.path.isEmpty then ['/'] else u.path
    query := (c.mark (.parse u.query)).render }

end Campaign

variable {c : Campaign} {u : Url} {href new : Text}

theorem addParameters_eq_ok : addParameters c href = .ok new ↔
    ∃ u, Url.parse href = .ok u ∧ Url.checkPort u.netloc = .ok () ∧
      (c.marked u).render = new := by
  rw [addParameters, bind_eq_ok]
  refine exists_congr fun u => and_congr_right fun _ => ?_
  rw [bind_eq_ok]
  exact ⟨fun ⟨_, hp, h⟩ => ⟨hp, pure_eq_ok.1 h⟩, fun ⟨hp, h⟩ => ⟨(), hp, pure_eq_ok.2 h⟩⟩

theorem isReadable_marked (hc : c.isEmpty = false) (h : Url.parse href = .ok u)
    (hsingle : u.netloc = [] → ¬ "//".toList <+: u.path) : (c.marked u).IsReadable := by
  refine .of_parse h hsingle ?_ ?_ ?_
  · split
    · rename_i hn
      exact .inr ⟨by simp_all, rfl⟩
    · exact .inl rfl
  · refine Url.Query.render_ne_nil fun he => ?_
    obtain ⟨p, hp, -⟩ := c.exists_mem_mark hc (.parse u.query)
    simp [he] at hp
  · exact fun d hd => Url.Query.ne_mark_of_mem_render hd

theorem marked_path_ne_nil (h : u.netloc ≠ []) : (c.marked u).path ≠ [] := by
  rw [Campaign.marked]
  split
  · exact List.cons_ne_nil _ _
  · rename_i hn
    simpa [h] using hn

theorem marked_eq_self (hp : u.netloc = [] ∨ u.path ≠ [])
    (hq : (c.mark (.parse u.query)).render = u.query) : c.marked u = u := by
  have hroot : (!u.netloc.isEmpty && u.path.isEmpty) = false := by
    rw [Bool.and_eq_false_iff]
    exact hp.imp (fun h => by simp [h]) fun h => by simpa using h
  rw [Campaign.marked, hq, hroot]
  rfl

theorem marked_settled (c : Campaign) (u : Url) :
    c.marked (c.marked u).settled = (c.marked u).settled := by
  refine marked_eq_self ?_ ?_
  · rw [Url.settled_netloc, or_iff_not_imp_left]
    exact fun hn => Url.settled_path_ne_nil (marked_path_ne_nil hn)
  · rw [Url.settled_query]
    change (c.mark (.parse (c.mark (.parse u.query)).render)).render = _
    rw [Url.Query.parse_render, c.mark_mark]
    rfl

theorem addParameters_again (hc : c.isEmpty = false) (h : addParameters c href = .ok new)
    (hsingle : ∀ u, Url.parse href = .ok u → u.netloc = [] → ¬ "//".toList <+: u.path) :
    addParameters c new = .ok new := by
  obtain ⟨u, hu, hport, rfl⟩ := addParameters_eq_ok.1 h
  refine addParameters_eq_ok.2
    ⟨_, (isReadable_marked hc hu (hsingle u hu)).parse_render, ?_, ?_⟩
  · rw [Url.settled_netloc]
    exact hport
  · rw [marked_settled, Url.render_settled]

/-- Each value is set in the query and nothing else is changed, the address is recognised as
marked, and to mark it again changes nothing. A path that begins with two slashes has to have a
location in front of it. -/
theorem addParameters_exact (hc : c.isEmpty = false) (h : addParameters c href = .ok new)
    (hsingle : ∀ u, Url.parse href = .ok u → u.netloc = [] → ¬ "//".toList <+: u.path) :
    ∃ u v q, Url.parse href = .ok u ∧ Url.parse new = .ok v ∧
      v.scheme = u.scheme ∧ v.netloc = u.netloc ∧ v.fragment = u.fragment ∧
      Url.Query.Sets "utm_medium".toList c.medium (.parse u.query) q ∧
      Url.Query.Sets "utm_campaign".toList c.campaign q (.parse v.query) ∧
      Report.isTagged new = true ∧ addParameters c new = .ok new := by
  obtain ⟨u, hu, hport, rfl⟩ := addParameters_eq_ok.1 h
  have hread := (isReadable_marked hc hu (hsingle u hu)).parse_render
  have hquery : Url.Query.parse (c.marked u).settled.query = c.mark (.parse u.query) := by
    rw [Url.settled_query]
    exact Url.Query.parse_render _
  obtain ⟨q, hm, hq⟩ := c.sets_mark (.parse u.query)
  refine ⟨u, _, q, hu, hread, Url.settled_scheme _, Url.settled_netloc _, Url.settled_fragment _,
    hm, hquery ▸ hq, ?_, ?_⟩
  · obtain ⟨p, hp, hutm⟩ := c.exists_mem_mark hc (.parse u.query)
    rw [Report.isTagged, hread]
    exact List.any_eq_true.2 ⟨p, hquery ▸ hp, hutm⟩
  · exact addParameters_again hc (addParameters_eq_ok.2 ⟨u, hu, hport, rfl⟩) hsingle

def shopAddress : Text :=
  " HTTPS://Shop.example?a=%C3%A9+1&utm_medium=x&b&&utm_medium=y#top".toList

def springLetter : Campaign := ⟨"e mail".toList, "spring & co".toList⟩

theorem addParameters_exact_on_repeats :
    springLetter.isEmpty = false ∧
      addParameters springLetter shopAddress =
        .ok ("https://Shop.example/?a=%C3%A9+1&utm_medium=e+mail&b=".toList ++
          "&utm_campaign=spring+%26+co#top".toList) ∧
      (∀ u, Url.parse shopAddress = .ok u → u.netloc = [] → ¬ "//".toList <+: u.path) ∧
      ∃ new, addParameters springLetter shopAddress = .ok new ∧ Report.isTagged new = true ∧
        addParameters springLetter new = .ok new := by
  have hnew : addParameters springLetter shopAddress =
      .ok ("https://Shop.example/?a=%C3%A9+1&utm_medium=e+mail&b=".toList ++
        "&utm_campaign=spring+%26+co#top".toList) := by decide +kernel
  have hparse : (Url.parse shopAddress).map (·.netloc) = .ok "Shop.example".toList := by
    decide +kernel
  have hsingle : ∀ u, Url.parse shopAddress = .ok u → u.netloc = [] →
      ¬ "//".toList <+: u.path := by
    intro u hu hn
    rw [hu] at hparse
    rw [show u.netloc = _ from Except.ok.inj hparse] at hn
    cases hn
  obtain ⟨u, v, q, -, -, -, -, -, -, -, htagged, hagain⟩ :=
    addParameters_exact (c := springLetter) (by decide) hnew hsingle
  exact ⟨by decide, hnew, hsingle, _, hnew, htagged, hagain⟩

theorem addParameters_makes_location_of_path :
    ∃ u v, Url.parse "////x".toList = .ok u ∧
      addParameters ⟨['m'], []⟩ "////x".toList = .ok "//x?utm_medium=m".toList ∧
      Url.parse "//x?utm_medium=m".toList = .ok v ∧ u.netloc = [] ∧ v.netloc = ['x'] :=
  ⟨⟨[], [], "//x".toList, [], []⟩, ⟨[], ['x'], [], "utm_medium=m".toList, []⟩, by decide +kernel,
    by decide +kernel, by decide +kernel, rfl, rfl⟩

end MailMarkup.Link
