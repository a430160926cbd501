import TreeQuery.Event.OfTokens

/-!
# Rules for reading

Reading is put together from a few parts: looking at tokens, taking them, and telling events. A
property of computations that these parts have, and that passes from parts to what is put together
from them, is a property of reading. The same holds for a relation between two readers, which may
read from different sources and tell different receivers. A nested group counts as one part, from
the event that begins it to the one that closes it.
-/

set_option autoImplicit false

namespace TreeQuery

def Event.isBoundary : Event → Bool
  | nest | close => true
  | _ => false

namespace Parse

variable {R S G H : Type} [TokenSource R] [TokenSource S] [EventSink G] [EventSink H]

/-- A relation between two readers that their parts have and pass on. -/
structure Alongside (P : {α : Type} → Parse R G α → Parse S H α → Prop) : Prop where
  pure : ∀ {α : Type} (a : α), P (Pure.pure a) (Pure.pure a)
  throw : ∀ {α : Type} (e : SelectorError),
    P (MonadExcept.throw e : Parse R G α) (MonadExcept.throw e)
  bind : ∀ {α β : Type} {p : Parse R G α} {q : Parse S H α} {f : α → Parse R G β}
    {k : α → Parse S H β}, P p q → (∀ a, P (f a) (k a)) → P (p >>= f) (q >>= k)
  peek : P Parse.peek Parse.peek
  tryRead : ∀ specs : List TokenSpec, P (Parse.tryRead specs) (Parse.tryRead specs)
  namespacePart : P Parse.namespacePart Parse.namespacePart
  signature? : ∀ name : String, P (Parse.signature? name) (Parse.signature? name)
  emit : ∀ e : Event, e.isBoundary = false → P (Parse.emit e) (Parse.emit e)
  nest : ∀ {body : Parse R G Unit} {body' : Parse S H Unit}, P body body' →
    P (do
      Parse.emit .nest
      body
      Parse.emit .close) (do
      Parse.emit .nest
      body'
      Parse.emit .close)

/-- A property that the parts of the reader have and pass on. -/
structure Rules (P : {α : Type} → Parse R G α → Prop) : Prop where
  pure : ∀ {α : Type} (a : α), P (Pure.pure a)
  throw : ∀ {α : Type} (e : SelectorError), P (MonadExcept.throw e : Parse R G α)
  bind : ∀ {α β : Type} {p : Parse R G α} {f : α → Parse R G β}, P p → (∀ a, P (f a)) →
    P (p >>= f)
  peek : P Parse.peek
  tryRead : ∀ specs : List TokenSpec, P (Parse.tryRead specs)
  namespacePart : P Parse.namespacePart
  signature? : ∀ name : String, P (Parse.signature? name)
  emit : ∀ e : Event, e.isBoundary = false → P (Parse.emit e)
  nest : ∀ {body : Parse R G Unit}, P body → P (do
    Parse.emit .nest
    body
    Parse.emit .close)

/-- A property relates each reader with itself. -/
theorem Rules.alongside {P : {α : Type} → Parse R G α → Prop} (h : Rules P) :
    Alongside fun {_} p (_ : Parse R G _) => P p where
  pure := h.pure
  throw := h.throw
  bind := h.bind
  peek := h.peek
  tryRead := h.tryRead
  namespacePart := h.namespacePart
  signature? := h.signature?
  emit := h.emit
  nest := h.nest

namespace Alongside

variable {P : {α : Type} → Parse R G α → Parse S H α → Prop} (h : Alongside P)

include h

/-! ## Tokens -/

theorem expect (specs : List TokenSpec) : P (Parse.expect specs) (Parse.expect specs) := by
  refine h.bind (h.tryRead specs) fun t? => ?_
  cases t? with
  | some t => exact h.pure t
  | none => exact h.bind h.peek fun _ => h.throw _

theorem tryKinds (kinds : List Token.Kind) : P (Parse.tryKinds kinds) (Parse.tryKinds kinds) :=
  h.tryRead _

theorem expectKinds (kinds : List Token.Kind) :
    P (Parse.expectKinds kinds) (Parse.expectKinds kinds) :=
  h.expect _

theorem skip (k : Token.Kind) : P (Parse.skip k) (Parse.skip k) :=
  h.bind (h.tryKinds [k]) fun t? => h.pure t?.isSome

theorem separator : P Parse.separator Parse.separator :=
  h.bind (h.expectKinds _) fun _ => h.bind (h.expectKinds _) fun _ => h.pure _

theorem repeatWhile {p : Parse R G Bool} {q : Parse S H Bool} (hp : P p q) (bound : Nat) :
    P (Parse.repeatWhile p bound) (Parse.repeatWhile q bound) := by
  induction bound with
  | zero => exact h.pure ()
  | succ bound ih =>
    refine h.bind hp fun again => ?_
    cases again with
    | false => exact h.pure ()
    | true => exact ih

theorem integerOf (t : Token) : P (Parse.integerOf t) (Parse.integerOf t) := by
  unfold Parse.integerOf
  split
  · exact h.pure _
  · exact h.throw _

theorem integer : P Parse.integer Parse.integer :=
  h.bind (h.expectKinds _) h.integerOf

theorem position (function : String) : P (Parse.position function) (Parse.position function) := by
  have hrest (t : Token) : P
      (do
        let next ← Parse.peek
        if next.kind = .ident ∧ isFormulaTerm next.text then
          MonadExcept.throw (.positionFormula function (t.text ++ next.text))
        Parse.integerOf t : Parse R G Int)
      (do
        let next ← Parse.peek
        if next.kind = .ident ∧ isFormulaTerm next.text then
          MonadExcept.throw (.positionFormula function (t.text ++ next.text))
        Parse.integerOf t) := by
    refine h.bind h.peek fun next => ?_
    dsimp only
    split
    · exact h.bind (h.throw _) fun _ => h.integerOf t
    · exact h.integerOf t
  refine h.bind (h.skip _) fun _ => h.bind (h.expectKinds _) fun t => ?_
  dsimp only
  split
  · split
    · exact h.bind (h.throw _) fun _ => h.bind (h.throw _) fun _ => hrest t
    · exact h.bind (h.throw _) fun _ => hrest t
  · exact hrest t

/-! ## Parts without nested groups -/

theorem combinator : P Parse.combinator Parse.combinator := by
  refine h.bind (h.tryKinds _) fun t? => ?_
  cases t? with
  | none => exact h.pure false
  | some t =>
    dsimp only
    split
    · exact h.bind (h.emit _ rfl) fun _ => h.pure true
    · exact h.bind (h.emit _ rfl) fun _ => h.bind (h.skip _) fun _ => h.pure true
    · exact h.bind (h.emit _ rfl) fun _ => h.bind (h.skip _) fun _ => h.pure true
    · exact h.bind (h.emit _ rfl) fun _ => h.bind (h.skip _) fun _ => h.pure true

theorem typeOrUniversal : P Parse.typeOrUniversal Parse.typeOrUniversal := by
  refine h.bind h.namespacePart fun ns => h.bind (h.expectKinds _) fun t => ?_
  split
  · exact h.emit _ rfl
  · exact h.emit _ rfl

theorem attributeTest : P Parse.attributeTest Parse.attributeTest := by
  refine h.bind (h.skip _) fun _ => h.bind h.namespacePart fun ns =>
    h.bind (h.expectKinds _) fun name => h.bind (h.skip _) fun _ =>
    h.bind (h.tryKinds _) fun t? => ?_
  dsimp only
  split
  · exact h.bind (h.skip _) fun _ => h.bind (h.expectKinds _) fun value =>
      h.bind (h.skip _) fun _ => h.bind (h.emit _ rfl) fun _ => h.bind (h.expectKinds _) fun _ =>
      h.pure _
  · exact h.bind (h.emit _ rfl) fun _ => h.bind (h.expectKinds _) fun _ => h.pure _

theorem openGroup (anchored : Bool) : P (Parse.openGroup anchored) (Parse.openGroup anchored) := by
  have hslash : P
      (do
        if ← Parse.skip .slash then
          Parse.emit .anchor
          let _ ← Parse.skip .whiteSpace : Parse R G Unit)
      (do
        if ← Parse.skip .slash then
          Parse.emit .anchor
          let _ ← Parse.skip .whiteSpace) := by
    refine h.bind (h.skip _) fun slash => ?_
    cases slash with
    | false => exact h.pure ()
    | true => exact h.bind (h.emit _ rfl) fun _ => h.bind (h.skip _) fun _ => h.pure ()
  refine h.bind (h.emit _ rfl) fun _ => ?_
  cases anchored with
  | false => exact hslash
  | true => exact h.bind (h.emit _ rfl) fun _ => hslash

/-! ## Parts over nested groups -/

section Nested

variable {nested : Bool → Parse R G Unit} {nested' : Bool → Parse S H Unit}
  (hnested : ∀ b, P (nested b) (nested' b))

include hnested

theorem customArgument (type : ArgumentType) :
    P (Parse.customArgument nested type) (Parse.customArgument nested' type) := by
  cases type with
  | string => exact h.bind (h.expectKinds _) fun t => h.pure _
  | integer => exact h.bind h.integer fun n => h.pure _
  | subSelector => exact h.bind (hnested false) fun _ => h.pure _

theorem moreCustomArguments
    (types : List ArgumentType) :
    P (Parse.moreCustomArguments nested types) (Parse.moreCustomArguments nested' types) := by
  induction types with
  | nil => exact h.pure []
  | cons type types ih =>
    exact h.bind h.separator fun _ => h.bind (h.customArgument hnested type) fun a =>
      h.bind ih fun as => h.pure _

theorem customArguments (types : List ArgumentType) :
    P (Parse.customArguments nested types) (Parse.customArguments nested' types) := by
  cases types with
  | nil => exact h.pure []
  | cons type types =>
    exact h.bind (h.customArgument hnested type) fun a =>
      h.bind (h.moreCustomArguments hnested types) fun as => h.pure _

theorem custom (name : String) (functional : Bool) :
    P (Parse.custom nested name functional) (Parse.custom nested' name functional) := by
  refine h.bind (h.signature? name) fun types? => ?_
  cases types? with
  | none => exact h.throw _
  | some types =>
    have hcall := h.bind (h.customArguments hnested types) fun as => h.emit (.custom name as) rfl
    dsimp only
    split
    · exact h.bind (h.throw _) fun _ => hcall
    · exact hcall

theorem groupPseudo (pseudo : GroupPseudo) :
    P (Parse.groupPseudo nested pseudo) (Parse.groupPseudo nested' pseudo) := by
  refine h.bind (hnested _) fun _ => ?_
  dsimp only
  split
  · exact h.bind h.separator fun _ => h.bind (hnested false) fun _ => h.emit _ rfl
  · exact h.emit _ rfl

theorem functionArguments (name : String) :
    P (Parse.functionArguments nested name) (Parse.functionArguments nested' name) := by
  unfold Parse.functionArguments
  split
  · exact h.bind h.integer fun n => h.emit _ rfl
  split
  · exact h.bind (h.position name) fun n => h.emit _ rfl
  split
  · exact h.bind (h.position name) fun n => h.emit _ rfl
  split
  · exact h.bind (h.expectKinds _) fun t => h.emit _ rfl
  split
  · exact h.bind (h.expectKinds _) fun t => h.emit _ rfl
  split
  · exact h.groupPseudo hnested _
  · exact h.custom hnested name true

theorem pseudoClass :
    P (Parse.pseudoClass nested) (Parse.pseudoClass nested') := by
  refine h.bind (h.tryKinds _) fun t? => ?_
  cases t? with
  | some t =>
    exact h.bind (h.skip _) fun _ => h.bind (h.functionArguments hnested t.text) fun _ =>
      h.bind (h.expectKinds _) fun _ => h.pure _
  | none =>
    refine h.bind (h.expectKinds _) fun t => ?_
    split
    · exact h.emit _ rfl
    · exact h.custom hnested t.text false

theorem modifier (t : Token) :
    P (Parse.modifier nested t) (Parse.modifier nested' t) := by
  unfold Parse.modifier
  split
  · exact h.emit _ rfl
  · exact h.bind (h.expectKinds _) fun name => h.emit _ rfl
  · exact h.attributeTest
  · exact h.pseudoClass hnested

theorem tryModifier :
    P (Parse.tryModifier nested) (Parse.tryModifier nested') := by
  refine h.bind (h.tryKinds _) fun t? => ?_
  cases t? with
  | none => exact h.pure false
  | some t => exact h.bind (h.modifier hnested t) fun _ => h.pure true

theorem compound (bound : Nat) :
    P (Parse.compound nested bound) (Parse.compound nested' bound) := by
  have hmore := h.repeatWhile (h.tryModifier hnested) bound
  refine h.bind (h.tryKinds _) fun t? => ?_
  cases t? with
  | none => exact h.bind h.typeOrUniversal fun _ => hmore
  | some t => exact h.bind (h.emit _ rfl) fun _ => h.bind (h.modifier hnested t) fun _ => hmore

theorem link (bound : Nat) :
    P (Parse.link nested bound) (Parse.link nested' bound) := by
  refine h.bind h.combinator fun again => ?_
  cases again with
  | false => exact h.pure false
  | true => exact h.bind (h.compound hnested bound) fun _ => h.pure true

theorem alternative (bound : Nat) :
    P (Parse.alternative nested bound) (Parse.alternative nested' bound) :=
  h.bind (h.emit _ rfl) fun _ => h.bind (h.compound hnested bound) fun _ =>
    h.repeatWhile (h.link hnested bound) bound

theorem nextAlternative (bound : Nat) :
    P (Parse.nextAlternative nested bound) (Parse.nextAlternative nested' bound) := by
  refine h.bind (h.skip _) fun again => ?_
  cases again with
  | false => exact h.pure false
  | true =>
    exact h.bind (h.skip _) fun _ => h.bind (h.alternative hnested bound) fun _ => h.pure true

theorem alternatives (bound : Nat) :
    P (Parse.alternatives nested bound) (Parse.alternatives nested' bound) :=
  h.bind (h.alternative hnested bound) fun _ =>
    h.repeatWhile (h.nextAlternative hnested bound) bound

end Nested

theorem nestedGroup (bound depth : Nat) (anchored : Bool) :
    P (Parse.nestedGroup bound depth anchored) (Parse.nestedGroup bound depth anchored) := by
  induction depth generalizing anchored with
  | zero => exact h.pure ()
  | succ depth ih =>
    have hbody := h.bind (h.openGroup anchored) fun _ => h.alternatives ih bound
    have hnest := h.nest hbody
    rw [bind_assoc, bind_assoc] at hnest
    exact hnest

end Alongside

/-- An outermost group up to the event that closes it. -/
def unclosedGroup (bound : Nat) : Parse R G Unit := do
  openGroup false
  alternatives (nestedGroup bound bound) bound
  let _ ← expectKinds [.endOfInput]

theorem group_eq (bound : Nat) :
    (group bound : Parse R G Unit) = unclosedGroup bound >>= fun _ => emit .close := by
  simp only [group, groupBody, closeGroup, unclosedGroup, bind_assoc, pure_bind, if_pos]

theorem Alongside.unclosedGroup {P : {α : Type} → Parse R G α → Parse S H α → Prop}
    (h : Alongside P) (bound : Nat) : P (Parse.unclosedGroup bound) (Parse.unclosedGroup bound) :=
  h.bind (h.openGroup false) fun _ => h.bind (h.alternatives (h.nestedGroup bound bound) bound)
    fun _ => h.bind (h.expectKinds _) fun _ => h.pure _

/-- A relation that also holds where a group is closed is one of outermost groups. -/
theorem Alongside.group {P : {α : Type} → Parse R G α → Parse S H α → Prop} (h : Alongside P)
    (hclose : P (Parse.emit .close) (Parse.emit .close)) (bound : Nat) :
    P (Parse.group bound) (Parse.group bound) := by
  rw [group_eq, group_eq]
  exact h.bind (h.unclosedGroup bound) fun _ => hclose

theorem Rules.unclosedGroup {P : {α : Type} → Parse R G α → Prop} (h : Rules P) (bound : Nat) :
    P (Parse.unclosedGroup bound) :=
  h.alongside.unclosedGroup bound

end Parse

end TreeQuery
