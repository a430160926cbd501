import TreeQuery.Event.Record
import TreeQuery.Proofs.Event.Grammar

/-!
# Events shown as texts

Events are shown with a stack of open groups. The events of a part of a tree add texts to the
innermost open group and leave those around it alone.
-/

set_option autoImplicit false

namespace TreeQuery

/-- Showing the events adds `texts` to the innermost open group. -/
def Shows (es : List Event) (texts : List String) : Prop :=
  ∀ (top : List String) (outer : List (List String)) (more : List Event),
    showEvents (top :: outer) (es ++ more) = showEvents ((texts.reverse ++ top) :: outer) more

/-- Showing the events opens nested groups, which are complete in the end. -/
def ShowsNested (es : List Event) (groups : List (List String)) : Prop :=
  ∀ (around : List (List String)) (more : List Event),
    showEvents around (es ++ more) = showEvents ((groups.map List.reverse).reverse ++ around) more

theorem showEvents_cons {e : Event} (he : e ≠ .nest) {groups : List (List String)}
    (hcount : e.groupCount = groups.length) (top : List String) (outer : List (List String))
    (more : List Event) :
    showEvents ((groups.map List.reverse).reverse ++ top :: outer) (e :: more) =
      showEvents (((e.texts groups).reverse ++ top) :: outer) more := by
  have hlength : (groups.map List.reverse).reverse.length = e.groupCount := by
    rw [List.length_reverse, List.length_map, hcount]
  have hnested : (groups.map List.reverse).reverse.reverse.map List.reverse = groups := by
    rw [List.reverse_reverse, List.map_map]
    exact (List.map_congr_left fun group _ => List.reverse_reverse group).trans (List.map_id groups)
  rw [showEvents]
  · simp only [List.take_left' hlength, List.drop_left' hlength, hnested]
  · exact he

namespace ShowsNested

theorem nil : ShowsNested [] [] :=
  fun _ _ => rfl

theorem nest {es : List Event} {texts : List String} (h : Shows es texts) :
    ShowsNested (.nest :: es) [texts] := by
  intro around more
  have hrun := h [] around more
  rw [List.append_nil] at hrun
  rw [List.cons_append, showEvents]
  exact hrun

theorem append {xs ys : List Event} {groups groups' : List (List String)}
    (hx : ShowsNested xs groups) (hy : ShowsNested ys groups') :
    ShowsNested (xs ++ ys) (groups ++ groups') := by
  intro around more
  rw [List.append_assoc, hx, hy, ← List.append_assoc, List.map_append, List.reverse_append]

/-- An event that uses the nested groups. -/
theorem event {es : List Event} {groups : List (List String)} (h : ShowsNested es groups)
    {e : Event} (he : e ≠ .nest) (hcount : e.groupCount = groups.length) :
    Shows (es ++ [e]) (e.texts groups) := by
  intro top outer more
  rw [List.append_assoc, h, List.singleton_append, showEvents_cons he hcount]

end ShowsNested

namespace Shows

theorem nil : Shows [] [] :=
  fun _ _ _ => rfl

theorem append {xs ys : List Event} {texts texts' : List String} (hx : Shows xs texts)
    (hy : Shows ys texts') : Shows (xs ++ ys) (texts ++ texts') := by
  intro top outer more
  rw [List.append_assoc, hx, hy, List.reverse_append, List.append_assoc]

theorem cons {e : Event} (he : e ≠ .nest) (hcount : e.groupCount = 0) {es : List Event}
    {texts : List String} (h : Shows es texts) : Shows (e :: es) (e.texts [] ++ texts) :=
  (ShowsNested.nil.event he hcount).append h

theorem showEvents_eq {es : List Event} {texts : List String} (h : Shows es texts) :
    showEvents [[]] es = texts := by
  have hrun := h [] [] []
  rw [List.append_nil, List.append_nil] at hrun
  rw [hrun, showEvents, List.headD_cons, List.reverse_reverse]

end Shows

/-! ## Trees -/

theorem SimpleTest.shows (test : SimpleTest) : Shows [test.event] (test.event.texts []) := by
  apply ShowsNested.nil.event
  · cases test <;> simp [SimpleTest.event]
  · cases test <;> rfl

mutual

theorem modifier_shows : ∀ m : ModifierTree, ∃ texts, Shows m.events texts
  | .test test => ⟨_, test.shows⟩
  | .grouped pseudo single argument => by
    obtain ⟨rest, hrest⟩ := group_shows argument
    have hcount : (Event.grouped pseudo).groupCount = 1 := by
      cases pseudo with
      | between => exact absurd rfl single
      | _ => rfl
    exact ⟨_, (ShowsNested.nest (hrest pseudo.anchorsArgument)).event (by simp) hcount⟩
  | .between start stop => by
    obtain ⟨texts, htexts⟩ := group_shows start
    obtain ⟨texts', htexts'⟩ := group_shows stop
    have hboth := (ShowsNested.nest (htexts false)).append (.nest (htexts' false))
    exact ⟨_, hboth.event (by simp) rfl⟩
  | .custom name arguments => by
    obtain ⟨groups, hgroups, hlength⟩ := arguments_show arguments
    exact ⟨_, hgroups.event (by simp) hlength.symm⟩

theorem modifiers_show : ∀ ms : List ModifierTree, ∃ texts,
    Shows (ModifierTree.listEvents ms) texts
  | [] => ⟨_, .nil⟩
  | m :: ms => by
    obtain ⟨texts, htexts⟩ := modifier_shows m
    obtain ⟨more, hmore⟩ := modifiers_show ms
    exact ⟨_, htexts.append hmore⟩

theorem arguments_show : ∀ as : List ArgumentTree, ∃ groups,
    ShowsNested (ArgumentTree.listEvents as) groups ∧
      groups.length = (as.map ArgumentTree.argument).count .group
  | [] => ⟨_, .nil, rfl⟩
  | a :: as => by
    obtain ⟨groups, hgroups, hlength⟩ := argument_shows a
    obtain ⟨more, hmore, hlengths⟩ := arguments_show as
    refine ⟨_, hgroups.append hmore, ?_⟩
    rw [List.length_append, hlength, hlengths, ← List.count_append]
    rfl

theorem argument_shows : ∀ a : ArgumentTree, ∃ groups, ShowsNested a.events groups ∧
    groups.length = [a.argument].count .group
  | .string _ => ⟨_, .nil, rfl⟩
  | .integer _ => ⟨_, .nil, rfl⟩
  | .group g => by
    obtain ⟨rest, hrest⟩ := group_shows g
    exact ⟨_, .nest (hrest false), rfl⟩

theorem compound_shows : ∀ c : CompoundTree, ∃ texts, Shows c.events texts
  | .mk head modifiers => by
    obtain ⟨texts, htexts⟩ := modifiers_show modifiers
    refine ⟨_, htexts.cons (e := head.event) ?_ ?_⟩
    · cases head <;> simp [CompoundHead.event]
    · cases head <;> rfl

theorem alternative_shows : ∀ a : AlternativeTree, ∃ texts, Shows a.events texts
  | .last c => compound_shows c
  | .link c k rest => by
    obtain ⟨texts, htexts⟩ := compound_shows c
    obtain ⟨more, hmore⟩ := alternative_shows rest
    exact ⟨_, htexts.append (hmore.cons (e := .combinator k) (by simp) rfl)⟩

theorem alternatives_show : ∀ as : List AlternativeTree, ∃ texts,
    Shows (AlternativeTree.listEvents as) texts
  | [] => ⟨_, .nil⟩
  | a :: as => by
    obtain ⟨texts, htexts⟩ := alternative_shows a
    obtain ⟨more, hmore⟩ := alternatives_show as
    exact ⟨_, (htexts.cons (e := .alternative) (by simp) rfl).append hmore⟩

/-- A group is shown alike whether it is anchored from around or not, but for its anchor. -/
theorem group_shows : ∀ g : GroupTree, ∃ rest, ∀ anchored : Bool, Shows (g.events anchored)
    ("init" :: ((if anchored then ["anchor"] else []) ++ rest))
  | .mk slashed alternatives => by
    obtain ⟨texts, htexts⟩ := alternatives_show alternatives
    have hclose : Shows [.close] ["close"] := ShowsNested.nil.event (by simp) rfl
    have hbody := htexts.append hclose
    have hanchor : Shows [.anchor] ["anchor"] := ShowsNested.nil.event (by simp) rfl
    have hslash : Shows ((if slashed then [.anchor] else []) ++
        (AlternativeTree.listEvents alternatives ++ [.close]))
        ((if slashed then ["anchor"] else []) ++ (texts ++ ["close"])) := by
      cases slashed with
      | false => exact hbody
      | true => exact hanchor.append hbody
    refine ⟨(if slashed then ["anchor"] else []) ++ (texts ++ ["close"]), fun anchored => ?_⟩
    rw [GroupTree.events, List.append_assoc, List.append_assoc]
    have hinit (es : List Event) (shown : List String) (h : Shows es shown) :
        Shows (.init :: es) ("init" :: shown) := h.cons (e := .init) (by simp) rfl
    apply hinit
    cases anchored with
    | false => exact hslash
    | true => exact hanchor.append hslash

end

end TreeQuery
