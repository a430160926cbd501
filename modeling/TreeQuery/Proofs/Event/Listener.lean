import TreeQuery.Proofs.Event.Replay

/-!
# Listeners

A listener hears events and may refuse any of them, in view of what it has heard before. What it
refuses decides how much of the transcript it hears, and nothing else: neither what would come next
nor which tokens have been used up by then.
-/

set_option autoImplicit false

namespace TreeQuery

/-- A receiver that refuses an event for a reason of its own. What it has heard includes the event
that it refuses. -/
structure Listener where
  signature? : String → Option (List ArgumentType)
  refusal? : List Event → Event → Option SelectorError
  heard : List Event := []

namespace Listener

def hear (l : Listener) (e : Event) : Listener :=
  { l with heard := l.heard ++ [e] }

instance : EventSink Listener where
  signature? l := l.signature?
  handle e l :=
    match l.refusal? l.heard e with
    | none => .ok () (l.hear e)
    | some err => .error err (l.hear e)

instance : SteadySink Listener where
  signature?_handle e l := by
    simp only [EventSink.handle]
    cases l.refusal? l.heard e with
    | none => rfl
    | some err => rfl

/-- No event of the list is refused when they are heard one after another. -/
def Accepts (l : Listener) : List Event → Prop
  | [] => True
  | e :: es => l.refusal? l.heard e = none ∧ (l.hear e).Accepts es

end Listener

namespace Course

variable {R S α : Type} {view : R → S}

theorem perform_accepted {c : Course R α} {l : Listener} (h : l.Accepts c.events) :
    c.perform view l =
      match c.outcome with
      | .ok a => .ok a ⟨view (c.left c.events.length), { l with heard := l.heard ++ c.events }⟩
      | .error e =>
        .error e ⟨view (c.left c.events.length), { l with heard := l.heard ++ c.events }⟩ := by
  induction c generalizing l with
  | done r a => simp [perform, events, outcome, left]
  | failed r e => simp [perform, events, outcome, left]
  | tell e r next ih =>
    obtain ⟨hfirst, hrest⟩ := h
    have hnext := ih hrest
    simp only [Listener.hear, List.append_assoc, List.singleton_append] at hnext
    simp only [perform, EventSink.handle, hfirst]
    exact hnext

theorem perform_refused {c : Course R α} {before after : List Event} {e : Event}
    {err : SelectorError} (hevents : c.events = before ++ e :: after) {l : Listener}
    (haccepts : l.Accepts before) (hrefuses : l.refusal? (l.heard ++ before) e = some err) :
    c.perform view l =
      .error err ⟨view (c.left before.length), { l with heard := l.heard ++ before ++ [e] }⟩ := by
  induction c generalizing l before with
  | done r a => simp [events] at hevents
  | failed r x => simp [events] at hevents
  | tell x r next ih =>
    cases before with
    | nil =>
      obtain ⟨rfl, -⟩ := List.cons.inj hevents
      rw [List.append_nil] at hrefuses
      simp [perform, EventSink.handle, hrefuses, Listener.hear, left]
    | cons y before =>
      obtain ⟨rfl, hnexts⟩ := List.cons.inj hevents
      obtain ⟨hfirst, hrest⟩ := haccepts
      have hnext := ih hnexts hrest (by simpa [Listener.hear] using hrefuses)
      simp only [Listener.hear, List.append_assoc, List.singleton_append] at hnext
      simp only [perform, EventSink.handle, hfirst]
      rw [List.append_assoc]
      exact hnext

end Course

/-- A listener hears the transcript up to the first event that it refuses, and its refusal is the
result; or it hears the whole transcript, whose end is the result. The tokens left depend only on
the number of events heard. -/
theorem group_listener (signature? : String → Option (List ArgumentType)) (tokens : List Token) :
    ∃ left : Nat → TokenReader, ∀ refusal? : List Event → Event → Option SelectorError,
      (∀ (before after : List Event) (e : Event) (err : SelectorError),
        (transcript signature? tokens).1 = before ++ e :: after →
        Listener.Accepts { signature?, refusal? } before → refusal? before e = some err →
        Parse.group (tokens.length + 1)
            (⟨TokenReader.ofList tokens, { signature?, refusal? }⟩ : ParseState _ Listener) =
          .error err ⟨left before.length, { signature?, refusal?, heard := before ++ [e] }⟩) ∧
      (Listener.Accepts { signature?, refusal? } (transcript signature? tokens).1 →
        Parse.group (tokens.length + 1)
            (⟨TokenReader.ofList tokens, { signature?, refusal? }⟩ : ParseState _ Listener) =
          match transcript signature? tokens with
          | (told, .ok ()) => .ok () ⟨left told.length, { signature?, refusal?, heard := told }⟩
          | (told, .error e) =>
            .error e ⟨left told.length, { signature?, refusal?, heard := told }⟩) := by
  obtain ⟨c, htold, hrun⟩ := exists_course Listener signature? tokens
  refine ⟨c.left, fun refusal? => ⟨?_, ?_⟩⟩
  · intro before after e err hevents haccepts hrefuses
    rw [hrun _ rfl]
    rw [htold] at hevents
    exact Course.perform_refused hevents haccepts hrefuses
  · intro haccepts
    rw [htold] at haccepts ⊢
    rw [hrun _ rfl, Course.perform_accepted haccepts]
    cases c.outcome with
    | ok u => rfl
    | error e => rfl

/-- A refused group is reported, and not the parenthesis that is missing after it. -/
theorem group_listener_unclosed_has :
    let tokens : List Token := [.ofKind .colon, ⟨.function, "has"⟩, ⟨.ident, "a"⟩, .endOfInput]
    let before : List Event := [.init, .alternative, .universal .unstated, .nest, .init,
      .alternative, .type .unstated "a", .close]
    let err : SelectorError := .raised .notSupported "has"
    let listener : Listener :=
      { signature? := fun _ => none
        refusal? := fun _ e => if e = .grouped .has then some err else none }
    (∃ rest, Parse.group (tokens.length + 1) ⟨TokenReader.ofList tokens, listener⟩ =
        .error err ⟨rest, { listener with heard := before ++ [.grouped .has] }⟩) ∧
      (transcript listener.signature? tokens).1 = before ++ [.grouped .has] ∧
      ∃ e, (transcript listener.signature? tokens).2 = .error e ∧ e ≠ err := by
  intro tokens before err listener
  have htold : (transcript listener.signature? tokens).1 = before ++ [.grouped .has] := by rfl
  obtain ⟨left, hleft⟩ := group_listener listener.signature? tokens
  have hrun := (hleft listener.refusal?).1 before [] (.grouped .has) err htold
    ⟨rfl, rfl, rfl, rfl, rfl, rfl, rfl, rfl, trivial⟩ rfl
  exact ⟨⟨_, hrun⟩, htold, _, rfl, by decide⟩

end TreeQuery
