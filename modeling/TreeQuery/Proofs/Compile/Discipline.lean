import TreeQuery.Proofs.Compile.Readiness

/-!
# Reading keeps compilers ready

A rule for each part of the reader says what it makes of the generators of a guarded compiler: a
nested group is left finished on top of them, and every other part leaves them as deep as they were.
Where a part fails, the error is a fault of the text, or tells of a position formula.
-/

set_option autoImplicit false

namespace TreeQuery

open Compiler (Above Fits Guarded)

/-- One of the two functions that take a constant position is called. -/
def Positional (tokens : List Token) : Prop :=
  ∃ t ∈ tokens, t.kind = .function ∧ t.text ∈ ["nth-child", "nth-last-child"]

/-- An error that reading and compiling `tokens` may end with. -/
def Expected (tokens : List Token) (e : SelectorError) : Prop :=
  e.kind = .format ∨ e.kind = .notSupported ∧ Positional tokens

variable [PatternEngine]

/-! ## Rules -/

section Rules

variable {R : Type} [TokenSource R] [LawfulSource R] {α β γ : Type}

/-- With at most `n` tokens left of `tokens`, and in a state that satisfies `pre`, the part reads on
and comes to a state that satisfies `post`, or fails with an expected error. -/
def Meets (tokens : List Token) (n : Nat) (pre : Compiler → Prop) (p : Parse R Guarded α)
    (post : α → Compiler → Prop) : Prop :=
  ∀ (r : R) (c : Compiler), LawfulSource.view r <:+ tokens → (LawfulSource.view r).length ≤ n →
    pre c → match p ⟨r, ⟨c⟩⟩ with
      | .ok a s => LawfulSource.view s.source <:+ LawfulSource.view r ∧ post a s.sink.compiler
      | .error e _ => Expected tokens e

variable {tokens : List Token} {n : Nat} {pre : Compiler → Prop} {p : Parse R Guarded α}
  {post post' : α → Compiler → Prop}

namespace Meets

theorem pure {post : α → Compiler → Prop} (a : α) (h : ∀ c, pre c → post a c) :
    Meets tokens n pre (Pure.pure a : Parse R Guarded α) post :=
  fun _ c _ _ hc => ⟨List.suffix_rfl, h c hc⟩

theorem done (a : α) : Meets tokens n pre (Pure.pure a : Parse R Guarded α) fun _ => pre :=
  pure a fun _ hc => hc

theorem throw {e : SelectorError} (h : Expected tokens e) :
    Meets tokens n pre (MonadExcept.throw e : Parse R Guarded α) post :=
  fun _ _ _ _ _ => h

theorem bind {mid : α → Compiler → Prop} {post : β → Compiler → Prop} (h : Meets tokens n pre p mid)
    {f : α → Parse R Guarded β} (hf : ∀ a, Meets tokens n (mid a) (f a) post) :
    Meets tokens n pre (p >>= f) post := by
  intro r c hr hn hc
  have hp := h r c hr hn hc
  cases hrun : p ⟨r, ⟨c⟩⟩ with
  | error e s =>
    rw [hrun] at hp
    rw [Parse.bind_error hrun]
    exact hp
  | ok a s =>
    rw [hrun] at hp
    rw [Parse.bind_ok hrun]
    obtain ⟨hsuffix, hmid⟩ := hp
    have hnext := hf a s.source s.sink.compiler (hsuffix.trans hr)
      (Nat.le_trans hsuffix.length_le hn) hmid
    cases hrest : f a s with
    | error e s' =>
      rw [hrest] at hnext
      exact hnext
    | ok b s' =>
      rw [hrest] at hnext
      exact ⟨hnext.1.trans hsuffix, hnext.2⟩

/-- Less may be told afterwards. -/
theorem imp (h : Meets tokens n pre p post) (hpost : ∀ a c, post a c → post' a c) :
    Meets tokens n pre p post' := by
  intro r c hr hn hc
  have hp := h r c hr hn hc
  cases hrun : p ⟨r, ⟨c⟩⟩ with
  | error e s =>
    rw [hrun] at hp
    exact hp
  | ok a s =>
    rw [hrun] at hp
    exact ⟨hp.1, hpost a _ hp.2⟩

theorem exists_pre {pre : γ → Compiler → Prop} (h : ∀ x, Meets tokens n (pre x) p post) :
    Meets tokens n (fun c => ∃ x, pre x c) p post := by
  rintro r c hr hn ⟨x, hc⟩
  exact h x r c hr hn hc

theorem assuming {fact : Prop} (h : fact → Meets tokens n pre p post) :
    Meets tokens n (fun c => fact ∧ pre c) p post := by
  rintro r c hr hn ⟨hfact, hc⟩
  exact h hfact r c hr hn hc

theorem vacuous : Meets tokens n (fun _ => False) p post :=
  fun _ _ _ _ hc => hc.elim

/-! ## Tokens -/

theorem peek : Meets tokens n pre (Parse.peek : Parse R Guarded Token) fun _ => pre :=
  fun _ _ _ _ hc => ⟨List.suffix_rfl, hc⟩

theorem tryRead (specs : List TokenSpec) :
    Meets tokens n pre (Parse.tryRead specs : Parse R Guarded _) fun _ => pre := by
  intro r c hr hn hc
  by_cases haccepts : specs.any (TokenSpec.accepts (TokenSource.peek r)) = true
  · rw [Parse.tryRead_some rfl haccepts]
    refine ⟨?_, hc⟩
    rw [(LawfulSource.read_eq r).2]
    exact List.tail_suffix _
  · rw [Parse.tryRead_none rfl haccepts]
    exact ⟨List.suffix_rfl, hc⟩

theorem tryKinds (kinds : List Token.Kind) :
    Meets tokens n pre (Parse.tryKinds kinds : Parse R Guarded _) fun _ => pre :=
  tryRead _

/-- A token that is read, and is not the end of input, leaves fewer of them. -/
theorem tryKinds_bind {kinds : List Token.Kind} (hend : .endOfInput ∉ kinds)
    {f : Option Token → Parse R Guarded α} (hnone : Meets tokens n pre (f none) post)
    (hsome : ∀ t ∈ tokens, t.kind ∈ kinds → ∀ m < n, Meets tokens m pre (f (some t)) post) :
    Meets tokens n pre (Parse.tryKinds kinds >>= f) post := by
  intro r c hr hn hc
  have hpeek := LawfulSource.peek_eq r
  obtain ⟨-, hview⟩ := LawfulSource.read_eq r
  by_cases haccepts : (kinds.map TokenSpec.kind).any (TokenSpec.accepts (TokenSource.peek r)) = true
  · have hrun : Parse.tryKinds kinds ⟨r, (⟨c⟩ : Guarded)⟩ = _ :=
      Parse.tryRead_some rfl haccepts _
    rw [Parse.bind_ok hrun]
    have hkind : (TokenSource.peek r).kind ∈ kinds := by
      simpa [TokenSpec.accepts] using haccepts
    generalize LawfulSource.view r = left at *
    cases left with
    | nil =>
      rw [hpeek] at hkind
      exact absurd hkind hend
    | cons t rest =>
      have ht : TokenSource.peek r = t := hpeek
      rw [ht] at hkind ⊢
      have hmem : t ∈ tokens := hr.subset List.mem_cons_self
      have hsuffix : rest <:+ tokens := (List.suffix_cons t rest).trans hr
      have hnext := hsome t hmem hkind rest.length hn (TokenSource.read r).2 c
      rw [hview] at hnext
      have hnext := hnext hsuffix (Nat.le_refl _) hc
      cases hrest : f (some t) ⟨(TokenSource.read r).2, ⟨c⟩⟩ with
      | error e s =>
        rw [hrest] at hnext
        exact hnext
      | ok a s =>
        rw [hrest] at hnext
        exact ⟨hnext.1.trans (List.suffix_cons t rest), hnext.2⟩
  · have hrun : Parse.tryKinds kinds ⟨r, (⟨c⟩ : Guarded)⟩ = _ :=
      Parse.tryRead_none rfl haccepts _
    rw [Parse.bind_ok hrun]
    exact hnone r c hr hn hc

theorem expect (specs : List TokenSpec) :
    Meets tokens n pre (Parse.expect specs : Parse R Guarded _) fun _ => pre := by
  refine (tryRead specs).bind fun t? => ?_
  cases t? with
  | some t => exact done t
  | none => exact peek.bind fun t => throw (.inl rfl)

theorem expectKinds (kinds : List Token.Kind) :
    Meets tokens n pre (Parse.expectKinds kinds : Parse R Guarded _) fun _ => pre :=
  expect _

theorem skip (k : Token.Kind) :
    Meets tokens n pre (Parse.skip k : Parse R Guarded _) fun _ => pre :=
  (tryKinds [k]).bind fun t? => done t?.isSome

omit [PatternEngine] in
theorem suffix_namespaceOf (ts : List Token) : (Parse.Replays.namespaceOf ts).2 <:+ ts := by
  cases ts with
  | nil => exact List.suffix_rfl
  | cons t ts =>
    have hpeek : TokenSource.peek (t :: ts) = t := rfl
    simp only [Parse.Replays.namespaceOf, hpeek, List.tail_cons]
    split
    · split
      · exact List.suffix_cons t ts
      · split
        · exact (List.tail_suffix ts).trans (List.suffix_cons t ts)
        · exact List.suffix_rfl
    · exact List.suffix_rfl

theorem namespacePart :
    Meets tokens n pre (Parse.namespacePart : Parse R Guarded _) fun _ => pre := by
  intro r c hr hn hc
  obtain ⟨r', hview, hrun⟩ := Parse.Replays.namespacePart_eq (G := Guarded) r
  rw [hrun]
  refine ⟨?_, hc⟩
  rw [hview]
  exact suffix_namespaceOf _

theorem integerOf (t : Token) :
    Meets tokens n pre (Parse.integerOf t : Parse R Guarded _) fun _ => pre := by
  unfold Parse.integerOf
  split
  · exact done _
  · exact throw (.inl rfl)

theorem integer : Meets tokens n pre (Parse.integer : Parse R Guarded _) fun _ => pre :=
  (expectKinds _).bind integerOf

theorem position (function : String) (hfunction : Positional tokens) :
    Meets tokens n pre (Parse.position function : Parse R Guarded _) fun _ => pre := by
  have hformula (text : String) : Expected tokens (.positionFormula function text) :=
    .inr ⟨rfl, hfunction⟩
  have hrest (t : Token) : Meets tokens n pre
      (do
        let next ← Parse.peek
        if next.kind = .ident ∧ Parse.isFormulaTerm next.text then
          MonadExcept.throw (.positionFormula function (t.text ++ next.text))
        Parse.integerOf t : Parse R Guarded Int) fun _ => pre := by
    refine peek.bind fun next => ?_
    dsimp only
    split
    · exact (throw (hformula _)).bind fun _ => vacuous
    · exact integerOf t
  refine (skip _).bind fun _ => (expectKinds _).bind fun t => ?_
  dsimp only
  split
  · split
    · exact (throw (hformula _)).bind fun _ => vacuous
    · exact (throw (.inl rfl)).bind fun _ => vacuous
  · exact hrest t

theorem separator : Meets tokens n pre (Parse.separator : Parse R Guarded _) fun _ => pre :=
  (expectKinds _).bind fun _ => (expectKinds _).bind fun _ => done _

/-! ## Events -/

variable {registry : Registry Place} {outer : List Generator}

theorem signature? (name : String) (k : Nat) :
    Meets tokens n (Above registry outer k) (Parse.signature? name : Parse R Guarded _)
      fun types? c => types? = registry.signature? name ∧ Above registry outer k c := by
  intro r c hr hn hc
  have hregistry : c.registry.signature? name = registry.signature? name :=
    congrArg (Registry.signature? · name) hc.registry_eq
  exact ⟨List.suffix_rfl, hregistry, hc⟩

/-- An event finds the groups that it takes on top, and leaves those around them. -/
theorem emit (e : Event) {k : Nat} (hcount : e.groupCount = k) (hfits : Fits registry e) :
    Meets tokens n (Above registry outer k) (Parse.emit e : Parse R Guarded _)
      fun _ => Above registry outer 0 := by
  intro r c hr hn hc
  subst hcount
  have hready := hc.ready hfits
  have hguarded := Guarded.handle_ready hready
  cases hrun : Compiler.handle e c with
  | error err c' =>
    rw [hrun] at hguarded
    simp only [Parse.emit, hguarded, Compiler.guardResult]
    exact .inl (hready.handle_error hrun)
  | ok u c' =>
    rw [hrun] at hguarded
    simp only [Parse.emit, hguarded, Compiler.guardResult]
    exact ⟨List.suffix_rfl, hc.handle hfits hrun⟩

abbrev Level (tokens : List Token) (n : Nat) (registry : Registry Place) (outer : List Generator)
    (p : Parse R Guarded α) : Prop :=
  Meets tokens n (Above registry outer 0) p fun _ => Above registry outer 0

theorem tell (e : Event) (hcount : e.groupCount = 0) (hfits : Fits registry e) :
    Level tokens n registry outer (Parse.emit e : Parse R Guarded _) :=
  emit e hcount hfits

theorem repeatWhile {p : Parse R Guarded Bool} (h : Level tokens n registry outer p) (bound : Nat) :
    Level tokens n registry outer (Parse.repeatWhile p bound) := by
  induction bound with
  | zero => exact done ()
  | succ bound ih =>
    refine h.bind fun again => ?_
    cases again with
    | false => exact done ()
    | true => exact ih

theorem combinator : Level tokens n registry outer (Parse.combinator : Parse R Guarded Bool) := by
  refine (tryKinds _).bind fun t? => ?_
  cases t? with
  | none => exact done false
  | some t =>
    dsimp only
    split
    · exact (tell _ rfl (by trivial)).bind fun _ => done true
    · exact (tell _ rfl (by trivial)).bind fun _ => (skip _).bind fun _ => done true
    · exact (tell _ rfl (by trivial)).bind fun _ => (skip _).bind fun _ => done true
    · exact (tell _ rfl (by trivial)).bind fun _ => (skip _).bind fun _ => done true

theorem typeOrUniversal :
    Level tokens n registry outer (Parse.typeOrUniversal : Parse R Guarded Unit) := by
  refine namespacePart.bind fun ns => (expectKinds _).bind fun t => ?_
  split
  · exact tell _ rfl (by trivial)
  · exact tell _ rfl (by trivial)

theorem attributeTest :
    Level tokens n registry outer (Parse.attributeTest : Parse R Guarded Unit) := by
  refine (skip _).bind fun _ => namespacePart.bind fun ns => (expectKinds _).bind fun name =>
    (skip _).bind fun _ => (tryKinds _).bind fun t => ?_
  dsimp only
  split
  · exact (skip _).bind fun _ => (expectKinds _).bind fun value => (skip _).bind fun _ =>
      (tell _ rfl (by trivial)).bind fun _ => (expectKinds _).bind fun _ => done _
  · exact (tell _ rfl (by trivial)).bind fun _ => (expectKinds _).bind fun _ => done _

theorem openGroup (anchored : Bool) :
    Level tokens n registry outer (Parse.openGroup anchored : Parse R Guarded Unit) := by
  have hslash : Level tokens n registry outer
      (do
        if ← Parse.skip .slash then
          Parse.emit .anchor
          let _ ← Parse.skip .whiteSpace : Parse R Guarded Unit) := by
    refine (skip _).bind fun slash => ?_
    cases slash with
    | false => exact done ()
    | true =>
      exact (tell _ rfl (by trivial)).bind fun _ => (skip _).bind fun _ => done ()
  refine (tell _ rfl (by trivial)).bind fun _ => ?_
  cases anchored with
  | false => exact hslash
  | true => exact (tell _ rfl (by trivial)).bind fun _ => hslash

/-- A group that comes to its end is closed. -/
theorem closeGroup (outermost : Bool) :
    Meets tokens n (Above registry outer 0) (Parse.closeGroup outermost : Parse R Guarded Unit)
      fun _ c => Above registry outer 0 c ∧ ∃ s, c.generator.selector = .ok s := by
  have hclose : Meets tokens n (Above registry outer 0)
      (Parse.emit .close : Parse R Guarded Unit)
      fun _ c => Above registry outer 0 c ∧ ∃ s, c.generator.selector = .ok s := by
    intro r c hr hn hc
    have hrun : Compiler.handle .close c = .ok () (c.update .close) := rfl
    have hguarded := Guarded.handle_ready (Above.ready (e := .close) hc trivial)
    rw [hrun] at hguarded
    simp only [Parse.emit, hguarded, Compiler.guardResult]
    exact ⟨List.suffix_rfl, hc.handle (e := .close) trivial hrun, Compiler.selector_of_close hrun⟩
  cases outermost with
  | false => exact hclose
  | true => exact (expectKinds _).bind fun _ => hclose

/-! ## Parts over nested groups -/

/-- A nested group is left finished on top of those that were finished before. -/
def Nests (tokens : List Token) (n : Nat) (registry : Registry Place) (outer : List Generator)
    (nested : Bool → Parse R Guarded Unit) : Prop :=
  ∀ (anchored : Bool) (k : Nat), Meets tokens n (Above registry outer k) (nested anchored)
    fun _ => Above registry outer (k + 1)

section Nested

variable {nested : Bool → Parse R Guarded Unit}

theorem customArgument (hnested : Nests tokens n registry outer nested) (type : ArgumentType)
    (k : Nat) :
    Meets tokens n (Above registry outer k) (Parse.customArgument nested type)
      fun a c => a.type = type ∧ Above registry outer (k + [a].count .group) c := by
  cases type with
  | string => exact (expectKinds _).bind fun t => pure _ fun c hc => ⟨rfl, hc⟩
  | integer => exact integer.bind fun value => pure _ fun c hc => ⟨rfl, hc⟩
  | subSelector => exact (hnested false k).bind fun _ => pure _ fun c hc => ⟨rfl, hc⟩

theorem moreCustomArguments (hnested : Nests tokens n registry outer nested)
    (types : List ArgumentType) (k : Nat) :
    Meets tokens n (Above registry outer k) (Parse.moreCustomArguments nested types)
      fun as c => as.map EventArgument.type = types ∧
        Above registry outer (k + as.count .group) c := by
  induction types generalizing k with
  | nil => exact pure [] fun c hc => ⟨rfl, hc⟩
  | cons type types ih =>
    refine separator.bind fun _ => (customArgument hnested type k).bind fun a =>
      assuming fun ha => (ih _).bind fun as => assuming fun has => pure _ fun c hc => ⟨?_, ?_⟩
    · rw [List.map_cons, ha, has]
    · rwa [← List.singleton_append, List.count_append, ← Nat.add_assoc]

theorem customArguments {types : List ArgumentType}
    (hnested : types ≠ [] → Nests tokens n registry outer nested) :
    Meets tokens n (Above registry outer 0) (Parse.customArguments nested types)
      fun as c => as.map EventArgument.type = types ∧
        Above registry outer (as.count .group) c := by
  cases types with
  | nil => exact pure [] fun c hc => ⟨rfl, hc⟩
  | cons type types =>
    have hnested := hnested nofun
    refine (customArgument hnested type 0).bind fun a => assuming fun ha =>
      (moreCustomArguments hnested types _).bind fun as => assuming fun has =>
        pure _ fun c hc => ⟨?_, ?_⟩
    · rw [List.map_cons, ha, has]
    · rw [Nat.zero_add] at hc
      rwa [← List.singleton_append, List.count_append]

/-- A custom selector is told with arguments of the types that are registered for it. -/
theorem custom (name : String) {functional : Bool}
    (hnested : functional = true → Nests tokens n registry outer nested) :
    Level tokens n registry outer (Parse.custom nested name functional) := by
  refine (signature? name 0).bind fun types? => assuming fun htypes => ?_
  cases types? with
  | none => exact throw (.inl rfl)
  | some types =>
    have htold (h : types ≠ [] → Nests tokens n registry outer nested) :
        Level tokens n registry outer
          (do Parse.emit (.custom name (← Parse.customArguments nested types))) :=
      (customArguments h).bind fun as => assuming fun has => by
        subst has
        exact emit _ rfl htypes.symm
    dsimp only
    split
    · exact (throw (.inl rfl)).bind fun _ => vacuous
    · next hwritten =>
      refine htold fun hne => hnested ?_
      simpa [hne] using hwritten

theorem groupPseudo (hnested : Nests tokens n registry outer nested) (pseudo : GroupPseudo) :
    Level tokens n registry outer (Parse.groupPseudo nested pseudo) := by
  refine (hnested _ 0).bind fun _ => ?_
  dsimp only
  split
  · next hbetween =>
    subst hbetween
    exact separator.bind fun _ => (hnested false 1).bind fun _ => emit _ rfl trivial
  · next hbetween =>
    have harity : pseudo.arity = 1 := by
      cases pseudo with
      | between => exact absurd rfl hbetween
      | split mode => cases mode <;> rfl
      | _ => rfl
    exact emit _ harity trivial

theorem functionArguments (hnested : Nests tokens n registry outer nested) {t : Token}
    (ht : t ∈ tokens) (hkind : t.kind = .function) :
    Level tokens n registry outer (Parse.functionArguments nested t.text) := by
  have hposition (hname : t.text ∈ ["nth-child", "nth-last-child"]) : Positional tokens :=
    ⟨t, ht, hkind, hname⟩
  unfold Parse.functionArguments
  split
  · exact integer.bind fun n => tell _ rfl (by trivial)
  split
  · next hname =>
    exact (position _ (hposition (by simp [hname]))).bind fun n => tell _ rfl rfl
  split
  · next hname =>
    exact (position _ (hposition (by simp [hname]))).bind fun n => tell _ rfl rfl
  split
  · exact (expectKinds _).bind fun t => tell _ rfl (by trivial)
  split
  · exact (expectKinds _).bind fun t => tell _ rfl (by trivial)
  split
  · exact groupPseudo hnested _
  · exact custom _ fun _ => hnested

theorem pseudoClass (hnested : ∀ m < n, Nests tokens m registry outer nested) :
    Level tokens n registry outer (Parse.pseudoClass nested) := by
  refine tryKinds_bind (by decide) ?_ ?_
  · refine (expectKinds _).bind fun t => ?_
    split
    · exact tell _ rfl (by trivial)
    · exact custom _ nofun
  · intro t ht hkind m hm
    have hkind : t.kind = .function := List.mem_singleton.mp hkind
    exact (skip _).bind fun _ => (functionArguments (hnested m hm) ht hkind).bind fun _ =>
      (expectKinds _).bind fun _ => done _

theorem modifier (hnested : ∀ m < n, Nests tokens m registry outer nested) (t : Token) :
    Level tokens n registry outer (Parse.modifier nested t) := by
  unfold Parse.modifier
  split
  · exact tell _ rfl (by trivial)
  · exact (expectKinds _).bind fun name => tell _ rfl (by trivial)
  · exact attributeTest
  · exact pseudoClass hnested

theorem tryModifier (hnested : ∀ m < n, Nests tokens m registry outer nested) :
    Level tokens n registry outer (Parse.tryModifier nested) := by
  refine (tryKinds _).bind fun t? => ?_
  cases t? with
  | none => exact done false
  | some t => exact (modifier hnested t).bind fun _ => done true

theorem compound (hnested : ∀ m < n, Nests tokens m registry outer nested) (bound : Nat) :
    Level tokens n registry outer (Parse.compound nested bound) := by
  refine (tryKinds _).bind fun t? => ?_
  cases t? with
  | none => exact typeOrUniversal.bind fun _ => repeatWhile (tryModifier hnested) bound
  | some t =>
    exact (tell _ rfl (by trivial)).bind fun _ => (modifier hnested t).bind fun _ =>
      repeatWhile (tryModifier hnested) bound

theorem link (hnested : ∀ m < n, Nests tokens m registry outer nested) (bound : Nat) :
    Level tokens n registry outer (Parse.link nested bound) := by
  refine combinator.bind fun again => ?_
  cases again with
  | false => exact done false
  | true => exact (compound hnested bound).bind fun _ => done true

theorem alternative (hnested : ∀ m < n, Nests tokens m registry outer nested) (bound : Nat) :
    Level tokens n registry outer (Parse.alternative nested bound) :=
  (tell _ rfl (by trivial)).bind fun _ => (compound hnested bound).bind fun _ =>
    repeatWhile (link hnested bound) bound

theorem nextAlternative (hnested : ∀ m < n, Nests tokens m registry outer nested) (bound : Nat) :
    Level tokens n registry outer (Parse.nextAlternative nested bound) := by
  refine (skip _).bind fun again => ?_
  cases again with
  | false => exact done false
  | true =>
    exact (skip _).bind fun _ => (alternative hnested bound).bind fun _ => done true

theorem alternatives (hnested : ∀ m < n, Nests tokens m registry outer nested) (bound : Nat) :
    Level tokens n registry outer (Parse.alternatives nested bound) :=
  (alternative hnested bound).bind fun _ => repeatWhile (nextAlternative hnested bound) bound

/-- A group is left closed. -/
theorem groupBody (hnested : ∀ m < n, Nests tokens m registry outer nested) (bound : Nat)
    (outermost anchored : Bool) :
    Meets tokens n (Above registry outer 0) (Parse.groupBody nested bound outermost anchored)
      fun _ c => Above registry outer 0 c ∧ ∃ s, c.generator.selector = .ok s :=
  (openGroup anchored).bind fun _ => (alternatives hnested bound).bind fun _ =>
    closeGroup outermost

end Nested

/-- A nested group is entered above the groups around it, as far as they are built. -/
theorem enter (k : Nat) :
    Meets tokens n (Above registry outer k) (Parse.emit .nest : Parse R Guarded Unit)
      fun _ c => ∃ around, Above registry outer k around ∧
        Above registry (around.generator :: around.enclosing) 0 c := by
  intro r c hr hn hc
  have hready : c.Ready .nest := ⟨⟨[], rfl, trivial⟩, trivial⟩
  have hrun : Compiler.handle .nest c = .ok () c.enter := rfl
  have hguarded := Guarded.handle_ready hready
  rw [hrun] at hguarded
  simp only [Parse.emit, hguarded, Compiler.guardResult]
  exact ⟨List.suffix_rfl, c, hc, hc.registry_eq, rfl⟩

/-- Every level of nesting takes a token to open it. -/
theorem nestedGroup (bound : Nat) {depth : Nat} (hn : n < depth) (outer : List Generator) :
    Nests tokens n registry outer
      (Parse.nestedGroup bound depth : Bool → Parse R Guarded Unit) := by
  induction depth generalizing n outer with
  | zero => exact absurd hn (Nat.not_lt_zero n)
  | succ depth ih =>
    intro anchored k
    refine (enter k).bind fun _ => exists_pre fun around => assuming fun haround => ?_
    have hinner : ∀ m < n, Nests tokens m registry (around.generator :: around.enclosing)
        (Parse.nestedGroup bound depth) :=
      fun _ hm => ih (Nat.lt_of_lt_of_le hm (Nat.le_of_lt_succ hn)) _
    have hbody := groupBody hinner bound false anchored
    exact hbody.imp fun _ c hc => haround.finish hc.1 hc.2

theorem group (bound : Nat) (hbound : n < bound) :
    Meets tokens n (Above registry outer 0) (Parse.group bound : Parse R Guarded Unit)
      fun _ c => Above registry outer 0 c ∧ ∃ s, c.generator.selector = .ok s :=
  groupBody (fun _ hm => nestedGroup bound (Nat.lt_trans hm hbound) outer) bound true false

end Meets

end Rules

end TreeQuery
