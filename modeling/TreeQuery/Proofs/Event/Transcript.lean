import Mathlib.Tactic.Choose
import TreeQuery.Event.OfTokens

/-!
# Transcripts

Reading selector groups is polymorphic in what is read from and who is told. Its plainest form
reads from a list of tokens and tells a transcript, which refuses nothing and keeps all events.
This module says what the plain form has to do with any other, for a source that answers like a
list and a receiver whose custom selectors do not change. What is read and told is laid down in
advance, as a course that both forms follow; the receiver decides only where it breaks off.
-/

set_option autoImplicit false

namespace TreeQuery

/-- A list of tokens, read from its front. -/
instance : TokenSource (List Token) where
  peek ts := ts.head?.getD .endOfInput
  read ts := (ts.head?.getD .endOfInput, ts.tail)
  unread t ts := t :: ts

/-- A source that answers as the list of its tokens does. A token can be given back to a source
that was just read. -/
class LawfulSource (R : Type) [TokenSource R] where
  view : R → List Token
  peek_eq : ∀ r : R, TokenSource.peek r = TokenSource.peek (view r)
  read_eq : ∀ r : R, (TokenSource.read r).1 = TokenSource.peek (view r) ∧
    view (TokenSource.read r).2 = (view r).tail
  unread_read : ∀ (t : Token) (r : R),
    view (TokenSource.unread t (TokenSource.read r).2) = t :: (view r).tail

instance : LawfulSource (List Token) where
  view ts := ts
  peek_eq _ := rfl
  read_eq _ := ⟨rfl, rfl⟩
  unread_read _ _ := rfl

instance : LawfulSource TokenReader where
  view := TokenReader.toList
  peek_eq := TokenReader.peek_eq_head
  read_eq r := by
    have h := r.read_eq_peek_tail
    rw [r.peek_eq_head] at h
    exact h
  unread_read t r := by
    rw [← r.read_eq_peek_tail.2]
    exact TokenReader.toList_unread r.pushedBack_read t

/-- The events told so far, and the custom selectors known. -/
structure Transcript where
  signature? : String → Option (List ArgumentType)
  events : List Event := []

namespace Transcript

def tell (t : Transcript) (es : List Event) : Transcript :=
  { t with events := t.events ++ es }

@[simp] theorem signature?_tell (t : Transcript) (es : List Event) :
    (t.tell es).signature? = t.signature? := rfl

@[simp] theorem tell_nil (t : Transcript) : t.tell [] = t := by
  simp [tell]

@[simp] theorem tell_tell (t : Transcript) (xs ys : List Event) :
    (t.tell xs).tell ys = t.tell (xs ++ ys) := by
  simp [tell]

end Transcript

instance : EventSink Transcript where
  signature? t := t.signature?
  handle e t := .ok () (t.tell [e])

theorem Transcript.deliver_eq (es : List Event) (t : Transcript) :
    EventSink.deliver es t = .ok () (t.tell es) := by
  induction es generalizing t with
  | nil => rw [tell_nil]; rfl
  | cons e es ih =>
    have hrest := ih (t.tell [e])
    rw [tell_tell] at hrest
    exact hrest

def lastState {ε σ α : Type} : EStateM.Result ε σ α → σ
  | .ok _ s => s
  | .error _ s => s

/-- A receiver whose custom selectors are not changed by what it is told. -/
class SteadySink (G : Type) [EventSink G] : Prop where
  signature?_handle : ∀ (e : Event) (g : G),
    EventSink.signature? (lastState (EventSink.handle e g)) = EventSink.signature? g

namespace EventSink

variable {G : Type} [EventSink G]

theorem deliver_append (xs ys : List Event) (g : G) :
    deliver (xs ++ ys) g = (deliver xs >>= fun _ => deliver ys) g := by
  induction xs generalizing g with
  | nil => rfl
  | cons e xs ih =>
    simp only [List.cons_append, deliver, bind, EStateM.bind] at ih ⊢
    cases handle e g with
    | ok u g' => exact ih g'
    | error err g' => rfl

theorem deliver_append_ok {xs ys : List Event} {g g' : G} (h : deliver xs g = .ok () g') :
    deliver (xs ++ ys) g = deliver ys g' := by
  simp only [deliver_append, bind, EStateM.bind, h]

theorem deliver_singleton (e : Event) (g : G) : deliver [e] g = handle e g := by
  simp only [deliver, bind, EStateM.bind]
  cases handle e g <;> rfl

end EventSink

instance : SteadySink Transcript where
  signature?_handle _ _ := rfl

/-- What is told one after another, each event with the source left by then, and how this ends. -/
inductive Course (R α : Type)
  | done (r : R) (a : α)
  | failed (r : R) (e : SelectorError)
  | tell (e : Event) (r : R) (next : Course R α)

namespace Course

variable {R S G α β : Type}

def events : Course R α → List Event
  | done .. | failed .. => []
  | tell e _ next => e :: next.events

def outcome : Course R α → Except SelectorError α
  | done _ a => .ok a
  | failed _ e => .error e
  | tell _ _ next => next.outcome

def left : Course R α → Nat → R
  | done r _, _ | failed r _, _ => r
  | tell _ r _, 0 => r
  | tell _ _ next, n + 1 => next.left n

def bind : Course R α → (R → α → Course R β) → Course R β
  | done r a, k => k r a
  | failed r e, _ => failed r e
  | tell e r next, k => tell e r (next.bind k)

section Perform

variable [EventSink G]

/-- Tell a receiver, up to the first event that it refuses. The source is seen through `view`. -/
def perform (view : R → S) : Course R α → G → EStateM.Result SelectorError (ParseState S G) α
  | done r a, g => .ok a ⟨view r, g⟩
  | failed r e, g => .error e ⟨view r, g⟩
  | tell e r next, g =>
    match EventSink.handle e g with
    | .ok _ g' => next.perform view g'
    | .error err g' => .error err ⟨view r, g'⟩

theorem perform_bind [SteadySink G] (view : R → S)
    {signature? : String → Option (List ArgumentType)} {f : α → Parse S G β} {k : R → α → Course R β}
    (hk : ∀ r a g, EventSink.signature? g = signature? → f a ⟨view r, g⟩ = (k r a).perform view g)
    (c : Course R α) {g : G} (hg : EventSink.signature? g = signature?) {p : Parse S G α}
    {s : ParseState S G} (hp : p s = c.perform view g) :
    (p >>= f) s = (c.bind k).perform view g := by
  induction c generalizing g with
  | done r a =>
    simp only [Bind.bind, EStateM.bind, hp]
    exact hk r a g hg
  | failed r e =>
    simp only [Bind.bind, EStateM.bind, hp]
    rfl
  | tell e r next ih =>
    have hsteady := SteadySink.signature?_handle e g
    simp only [perform] at hp
    simp only [bind, perform]
    cases hh : EventSink.handle e g with
    | ok u g' =>
      rw [hh] at hp hsteady
      exact ih (hsteady.trans hg) hp
    | error err g' =>
      rw [hh] at hp
      simp only [Bind.bind, EStateM.bind, hp]

/-- The sink after a course has been told the events up to the first that it refuses. -/
theorem perform_sink (view : R → S) (c : Course R α) (g : G) :
    (match c.perform view g with
      | .ok a s => .ok a s.sink
      | .error e s => .error e s.sink) =
      (do
        EventSink.deliver c.events
        MonadExcept.ofExcept c.outcome : EStateM SelectorError G α) g := by
  induction c generalizing g with
  | done r a => rfl
  | failed r e => rfl
  | tell e r next ih =>
    simp only [perform, events, outcome, EventSink.deliver, Bind.bind, EStateM.bind] at ih ⊢
    cases hh : EventSink.handle e g with
    | ok u g' => exact ih g'
    | error err g' => rfl

end Perform

theorem perform_transcript {view : R → S} (c : Course R α) (t : Transcript) :
    c.perform view t =
      match c.outcome with
      | .ok a => .ok a ⟨view (c.left c.events.length), t.tell c.events⟩
      | .error e => .error e ⟨view (c.left c.events.length), t.tell c.events⟩ := by
  induction c generalizing t with
  | done r a => rw [events, Transcript.tell_nil]; rfl
  | failed r e => rw [events, Transcript.tell_nil]; rfl
  | tell e r next ih =>
    have hnext := ih (t.tell [e])
    rw [Transcript.tell_tell] at hnext
    exact hnext

end Course

namespace Parse

variable {R G : Type} [TokenSource R] [LawfulSource R] [EventSink G]

/-- Reading in one form and in the plain form follows the same course. -/
def Replays {α : Type} (p : Parse R G α) (q : Parse (List Token) Transcript α) : Prop :=
  ∀ (r : R) (signature? : String → Option (List ArgumentType)), ∃ c : Course R α,
    (∀ g : G, EventSink.signature? g = signature? → p ⟨r, g⟩ = c.perform id g) ∧
    ∀ t : Transcript, EventSink.signature? t = signature? →
      q ⟨LawfulSource.view r, t⟩ = c.perform LawfulSource.view t

namespace Replays

variable {α β : Type}

theorem pure (a : α) : Replays (Pure.pure a : Parse R G α) (Pure.pure a) :=
  fun r _ => ⟨.done r a, fun _ _ => rfl, fun _ _ => rfl⟩

theorem throw (e : SelectorError) :
    Replays (MonadExcept.throw e : Parse R G α) (MonadExcept.throw e) :=
  fun r _ => ⟨.failed r e, fun _ _ => rfl, fun _ _ => rfl⟩

theorem bind [SteadySink G] {p : Parse R G α} {q : Parse (List Token) Transcript α}
    (h : Replays p q) {f : α → Parse R G β} {k : α → Parse (List Token) Transcript β}
    (hf : ∀ a, Replays (f a) (k a)) : Replays (p >>= f) (q >>= k) := by
  intro r signature?
  obtain ⟨c, hp, hq⟩ := h r signature?
  have hnext : ∀ r a, ∃ c : Course R β, _ := fun r a => hf a r signature?
  choose next hp' hq' using hnext
  refine ⟨c.bind next, fun g hg => ?_, fun t ht => ?_⟩
  · exact Course.perform_bind id hp' c hg (hp g hg)
  · exact Course.perform_bind LawfulSource.view hq' c ht (hq t ht)

end Replays

end Parse

end TreeQuery
