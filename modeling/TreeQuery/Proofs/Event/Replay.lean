import TreeQuery.Proofs.Event.Rules
import TreeQuery.Proofs.Event.Transcript

/-!
# Reading replays its transcript

Every part of the reader follows its plain form. Hence reading tokens for a receiver is the same
as writing the transcript first and delivering it afterwards.
-/

set_option autoImplicit false

namespace TreeQuery.Parse

theorem bind_ok {S α β : Type} {p : EStateM SelectorError S α}
    {f : α → EStateM SelectorError S β} {s s' : S} {a : α} (h : p s = .ok a s') :
    (p >>= f) s = f a s' := by
  simp only [Bind.bind, EStateM.bind, h]

theorem bind_error {S α β : Type} {p : EStateM SelectorError S α}
    {f : α → EStateM SelectorError S β} {s s' : S} {e : SelectorError} (h : p s = .error e s') :
    (p >>= f) s = .error e s' := by
  simp only [Bind.bind, EStateM.bind, h]

section Source

variable {R G : Type} [TokenSource R]

theorem tryRead_eq (specs : List TokenSpec) (r : R) (g : G) :
    tryRead specs ⟨r, g⟩ =
      if specs.any (TokenSpec.accepts (TokenSource.peek r)) = true then
        .ok (some (TokenSource.read r).1) ⟨(TokenSource.read r).2, g⟩
      else .ok none ⟨r, g⟩ := by
  have hlook : peek ⟨r, g⟩ = .ok (TokenSource.peek r) ⟨r, g⟩ := rfl
  have hread : read ⟨r, g⟩ = .ok (TokenSource.read r).1 ⟨(TokenSource.read r).2, g⟩ := rfl
  unfold tryRead
  rw [bind_ok hlook]
  split
  · rw [bind_ok hread]
    rfl
  · rfl

theorem tryRead_some [LawfulSource R] {specs : List TokenSpec} {r : R} {t : Token}
    (hpeek : TokenSource.peek r = t) (h : specs.any (TokenSpec.accepts t) = true) (g : G) :
    tryRead specs ⟨r, g⟩ = .ok (some t) ⟨(TokenSource.read r).2, g⟩ := by
  have hhead : (TokenSource.read r).1 = t := by
    rw [(LawfulSource.read_eq r).1, ← LawfulSource.peek_eq, hpeek]
  rw [tryRead_eq, hpeek, if_pos h, hhead]

theorem tryRead_none {specs : List TokenSpec} {r : R} {t : Token} (hpeek : TokenSource.peek r = t)
    (h : ¬ specs.any (TokenSpec.accepts t) = true) (g : G) :
    tryRead specs ⟨r, g⟩ = .ok none ⟨r, g⟩ := by
  rw [tryRead_eq, hpeek, if_neg h]

theorem skip_true {k : Token.Kind} {r : R} (h : (TokenSource.peek r).kind = k) (g : G) :
    skip k ⟨r, g⟩ = .ok true ⟨(TokenSource.read r).2, g⟩ := by
  unfold skip tryKinds
  rw [bind_ok ((tryRead_eq _ r g).trans (if_pos (by simp [TokenSpec.accepts, h])))]
  rfl

theorem skip_false {k : Token.Kind} {r : R} (h : ¬ (TokenSource.peek r).kind = k)
    (g : G) : skip k ⟨r, g⟩ = .ok false ⟨r, g⟩ := by
  unfold skip tryKinds
  rw [bind_ok (tryRead_none rfl (by simp [TokenSpec.accepts, h]) g)]
  rfl

def namespaceFrom (r : R) : Namespace × R :=
  let t := (TokenSource.read r).1
  let r' := (TokenSource.read r).2
  if (TokenSource.peek r).kind ∈ [Token.Kind.ident, .star, .pipe] then
    if t.kind = .pipe then (.empty, r')
    else if (TokenSource.peek r').kind = .pipe then
      (if t.kind = .ident then .named t.text else .any, (TokenSource.read r').2)
    else (.unstated, TokenSource.unread t r')
  else (.unstated, r)

theorem namespacePart_run (r : R) (g : G) :
    namespacePart ⟨r, g⟩ = .ok (namespaceFrom r).1 ⟨(namespaceFrom r).2, g⟩ := by
  have haccepts : ([Token.Kind.ident, .star, .pipe].map TokenSpec.kind).any
      (TokenSpec.accepts (TokenSource.peek r)) = true ↔
      (TokenSource.peek r).kind ∈ [Token.Kind.ident, .star, .pipe] := by
    simp [TokenSpec.accepts]
  have htry := tryRead_eq ([Token.Kind.ident, .star, .pipe].map TokenSpec.kind) r g
  unfold namespacePart tryKinds namespaceFrom
  dsimp only
  by_cases hkind : (TokenSource.peek r).kind ∈ [Token.Kind.ident, .star, .pipe]
  · rw [if_pos (haccepts.2 hkind)] at htry
    rw [bind_ok htry, if_pos hkind]
    dsimp only
    by_cases hpipe : (TokenSource.read r).1.kind = .pipe
    · rw [if_pos hpipe, if_pos hpipe]
      rfl
    rw [if_neg hpipe, if_neg hpipe]
    by_cases hbar : (TokenSource.peek (TokenSource.read r).2).kind = .pipe
    · rw [bind_ok (skip_true hbar g), if_pos hbar]
      rfl
    · rw [bind_ok (skip_false hbar g), if_neg hbar]
      rfl
  · rw [if_neg (mt haccepts.1 hkind)] at htry
    rw [bind_ok htry, if_neg hkind]
    rfl

/-- Sources that answer alike, also after a read and when a token was given back, have the same
namespace part at their fronts, and stay alike after it. -/
theorem namespaceFrom_alike {S : Type} [TokenSource S] (alike : R → S → Prop)
    (hpeek : ∀ {r : R} {s : S}, alike r s → TokenSource.peek r = TokenSource.peek s)
    (hread : ∀ {r : R} {s : S}, alike r s → (TokenSource.read r).1 = (TokenSource.read s).1 ∧
      alike (TokenSource.read r).2 (TokenSource.read s).2)
    {r : R} {s : S} (h : alike r s)
    (hback : (TokenSource.peek s).kind ∈ [Token.Kind.ident, .star, .pipe] →
      alike (TokenSource.unread (TokenSource.read r).1 (TokenSource.read r).2)
        (TokenSource.unread (TokenSource.read s).1 (TokenSource.read s).2)) :
    (namespaceFrom r).1 = (namespaceFrom s).1 ∧ alike (namespaceFrom r).2 (namespaceFrom s).2 := by
  obtain ⟨hhead, hnext⟩ := hread h
  rw [hhead] at hback
  unfold namespaceFrom
  dsimp only
  rw [hpeek h, hhead, hpeek hnext]
  by_cases hkind : (TokenSource.peek s).kind ∈ [Token.Kind.ident, .star, .pipe]
  · rw [if_pos hkind, if_pos hkind]
    by_cases hpipe : (TokenSource.read s).1.kind = .pipe
    · rw [if_pos hpipe, if_pos hpipe]
      exact ⟨rfl, hnext⟩
    rw [if_neg hpipe, if_neg hpipe]
    by_cases hbar : (TokenSource.peek (TokenSource.read s).2).kind = .pipe
    · rw [if_pos hbar, if_pos hbar]
      exact ⟨rfl, (hread hnext).2⟩
    · rw [if_neg hbar, if_neg hbar]
      exact ⟨rfl, hback hkind⟩
  · rw [if_neg hkind, if_neg hkind]
    exact ⟨rfl, h⟩

end Source

namespace Replays

variable {R G : Type} [TokenSource R] [LawfulSource R] [EventSink G] {α : Type}

/-! ## Single steps -/

theorem peek : Replays (Parse.peek : Parse R G Token) Parse.peek := by
  intro r signature?
  refine ⟨.done r (TokenSource.peek r), fun g _ => rfl, fun t _ => ?_⟩
  rw [LawfulSource.peek_eq r]
  rfl

theorem read : Replays (Parse.read : Parse R G Token) Parse.read := by
  intro r signature?
  obtain ⟨htoken, hview⟩ := LawfulSource.read_eq r
  refine ⟨.done (TokenSource.read r).2 (TokenSource.read r).1, fun g _ => rfl, fun t _ => ?_⟩
  rw [Course.perform, htoken, hview]
  rfl

theorem emit (e : Event) : Replays (Parse.emit e : Parse R G Unit) (Parse.emit e) := by
  intro r signature?
  refine ⟨.tell e r (.done r ()), fun g _ => ?_, fun t _ => rfl⟩
  simp only [Parse.emit, Course.perform]
  cases EventSink.handle e g <;> rfl

theorem signature? (name : String) :
    Replays (Parse.signature? name : Parse R G _) (Parse.signature? name) := by
  intro r signature?
  exact ⟨.done r (signature? name), fun g hg => hg ▸ rfl, fun t ht => ht ▸ rfl⟩

def namespaceOf (ts : List Token) : Namespace × List Token :=
  let t := TokenSource.peek ts
  if t.kind ∈ [Token.Kind.ident, .star, .pipe] then
    if t.kind = .pipe then (.empty, ts.tail)
    else if (TokenSource.peek ts.tail).kind = .pipe then
      (if t.kind = .ident then .named t.text else .any, ts.tail.tail)
    else (.unstated, t :: ts.tail)
  else (.unstated, ts)

omit [EventSink G] in
theorem namespaceFrom_view (r : R) :
    (namespaceFrom r).1 = (namespaceOf (LawfulSource.view r)).1 ∧
      LawfulSource.view (namespaceFrom r).2 = (namespaceOf (LawfulSource.view r)).2 := by
  have hread {r : R} {ts : List Token} (h : LawfulSource.view r = ts) :
      (TokenSource.read r).1 = TokenSource.peek ts ∧
        LawfulSource.view (TokenSource.read r).2 = ts.tail :=
    h ▸ LawfulSource.read_eq r
  refine namespaceFrom_alike (fun r ts => LawfulSource.view r = ts)
    (fun h => h ▸ LawfulSource.peek_eq _) hread rfl fun _ => ?_
  rw [LawfulSource.unread_read, (hread rfl).1]
  rfl

omit [EventSink G] in
/-- The namespace part that is read depends on the tokens alone, even though one may be given
back. -/
theorem namespacePart_eq (r : R) : ∃ r' : R,
    LawfulSource.view r' = (namespaceOf (LawfulSource.view r)).2 ∧
      ∀ g : G, Parse.namespacePart ⟨r, g⟩ = .ok (namespaceOf (LawfulSource.view r)).1 ⟨r', g⟩ := by
  obtain ⟨hpart, hview⟩ := namespaceFrom_view r
  exact ⟨(namespaceFrom r).2, hview, fun g => hpart ▸ namespacePart_run r g⟩

theorem namespacePart :
    Replays (Parse.namespacePart : Parse R G Namespace) Parse.namespacePart := by
  intro r signature?
  obtain ⟨r', hview, hrun⟩ := namespacePart_eq (G := G) r
  obtain ⟨ts, rfl, hplain⟩ := namespacePart_eq (G := Transcript) (LawfulSource.view r)
  refine ⟨.done r' (namespaceOf (LawfulSource.view r)).1, fun g _ => hrun g, fun t _ => ?_⟩
  rw [Course.perform, hview]
  exact hplain t

variable [SteadySink G]

theorem tryRead (specs : List TokenSpec) :
    Replays (Parse.tryRead specs : Parse R G _) (Parse.tryRead specs) := by
  refine peek.bind fun t => ?_
  split
  · exact read.bind fun t => pure (some t)
  · exact pure none

/-! ## Groups -/

theorem alongside : Alongside fun {α} (p : Parse R G α) q => Replays p q where
  pure := pure
  throw := throw
  bind h hf := h.bind hf
  peek := peek
  tryRead := tryRead
  namespacePart := namespacePart
  signature? := signature?
  emit e _ := emit e
  nest h := (emit _).bind fun _ => h.bind fun _ => emit _

theorem group (bound : Nat) : Replays (Parse.group bound : Parse R G Unit) (Parse.group bound) :=
  alongside.group (emit .close) bound

end Replays

end TreeQuery.Parse

namespace TreeQuery

/-- The events that reading `tokens` tells a receiver that refuses nothing, and how it ends. -/
def transcript (signature? : String → Option (List ArgumentType)) (tokens : List Token) :
    List Event × Except SelectorError Unit :=
  match Parse.group (R := List Token) (G := Transcript) (tokens.length + 1)
      ⟨tokens, { signature? }⟩ with
  | .ok _ s => (s.sink.events, .ok ())
  | .error e s => (s.sink.events, .error e)

/-- Reading `tokens` follows one course for all receivers of a type that know the same custom
selectors. It tells the transcript. -/
theorem exists_course (G : Type) [EventSink G] [SteadySink G]
    (signature? : String → Option (List ArgumentType)) (tokens : List Token) :
    ∃ c : Course TokenReader Unit, transcript signature? tokens = (c.events, c.outcome) ∧
      ∀ g : G, EventSink.signature? g = signature? →
        Parse.group (tokens.length + 1) ⟨TokenReader.ofList tokens, g⟩ = c.perform id g := by
  obtain ⟨c, hrun, hplain⟩ := Parse.Replays.group (R := TokenReader) (G := G) (tokens.length + 1)
    (TokenReader.ofList tokens) signature?
  refine ⟨c, ?_, hrun⟩
  have hview : LawfulSource.view (TokenReader.ofList tokens) = tokens := rfl
  have htold := hplain { signature? } rfl
  rw [hview, Course.perform_transcript] at htold
  rw [transcript, htold]
  cases c.outcome with
  | ok u => rfl
  | error e => rfl

/-- Reading for a receiver is delivering the transcript. -/
theorem parseTokens_eq_deliver {G : Type} [EventSink G] [SteadySink G] (tokens : List Token)
    (g : G) :
    parseTokens tokens g =
      (do
        EventSink.deliver (transcript (EventSink.signature? g) tokens).1
        MonadExcept.ofExcept (transcript (EventSink.signature? g) tokens).2) g := by
  obtain ⟨c, htold, hrun⟩ := exists_course G (EventSink.signature? g) tokens
  rw [htold, ← Course.perform_sink id c, parseTokens, hrun g rfl]
  cases c.perform id g with
  | ok u s => rfl
  | error e s => rfl

/-- What is read for one receiver without a fault is read without a fault. -/
theorem transcript_ok_of_parse {G : Type} [EventSink G] [SteadySink G] {tokens : List Token}
    {g g' : G} (h : parseTokens tokens g = .ok () g') :
    ∃ es, transcript (EventSink.signature? g) tokens = (es, .ok ()) := by
  rw [parseTokens_eq_deliver] at h
  cases hend : (transcript (EventSink.signature? g) tokens).2 with
  | ok u => exact ⟨_, Prod.ext rfl hend⟩
  | error e =>
    rw [hend] at h
    simp only [Bind.bind, EStateM.bind] at h
    split at h <;> cases h

end TreeQuery
