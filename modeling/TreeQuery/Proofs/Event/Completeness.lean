import TreeQuery.Proofs.Event.Replay
import TreeQuery.Proofs.Event.Grammar

/-!
# What a tree writes is read

Plain reading uses up the tokens of a tree and tells its events, provided that what follows them
could not continue the tree. The tokens that may follow depend on the part that has been read.
-/

set_option autoImplicit false

namespace TreeQuery.Parse.Complete

abbrev nextKind (ts : List Token) : Token.Kind :=
  (TokenSource.peek ts).kind

/-! ## What may follow, and what starts a part -/

def afterGroup : List Token.Kind := [.rightParen, .semicolon, .endOfInput]

def afterAlternative : List Token.Kind := .comma :: afterGroup

def afterCompound : List Token.Kind := [.plus, .greater, .tilde, .whiteSpace] ++ afterAlternative

def modifierStarts : List Token.Kind := [.hash, .dot, .leftBracket, .colon]

def compoundStarts : List Token.Kind := [.ident, .star, .pipe] ++ modifierStarts

variable {ts rest : List Token} {x : Transcript}

@[simp] theorem nextKind_cons (t : Token) (ts : List Token) : nextKind (t :: ts) = t.kind := rfl

theorem nextKind_optional {k k' : Token.Kind} {used : List Token} (h : Optional k used)
    (hk : k ≠ k') (hrest : nextKind rest ≠ k') : nextKind (used ++ rest) ≠ k' := by
  cases h with
  | absent => exact hrest
  | present hkind => simpa [hkind] using hk

/-! ## Single tokens -/

theorem tryKinds_cons {kinds : List Token.Kind} {t : Token} (h : t.kind ∈ kinds) :
    Parse.tryKinds kinds ⟨t :: rest, x⟩ = .ok (some t) ⟨rest, x⟩ :=
  have hpeek : TokenSource.peek (t :: rest) = t := rfl
  tryRead_some hpeek (by simpa [TokenSpec.accepts] using h) x

theorem tryKinds_none {kinds : List Token.Kind} (h : nextKind rest ∉ kinds) :
    Parse.tryKinds kinds ⟨rest, x⟩ = .ok none ⟨rest, x⟩ :=
  tryRead_none rfl (by simpa [TokenSpec.accepts] using h) x

theorem expectKinds_cons {kinds : List Token.Kind} {t : Token} (h : t.kind ∈ kinds) :
    Parse.expectKinds kinds ⟨t :: rest, x⟩ = .ok t ⟨rest, x⟩ :=
  bind_ok (tryKinds_cons h)

theorem skip_cons {k : Token.Kind} {t : Token} (h : t.kind = k) :
    Parse.skip k ⟨t :: rest, x⟩ = .ok true ⟨rest, x⟩ :=
  bind_ok (tryKinds_cons (by simpa using h))

theorem skip_none {k : Token.Kind} (h : nextKind rest ≠ k) :
    Parse.skip k ⟨rest, x⟩ = .ok false ⟨rest, x⟩ :=
  bind_ok (tryKinds_none (by simpa using h))

theorem skip_optional {k : Token.Kind} {used : List Token} (h : Optional k used)
    (hnext : nextKind rest ≠ k) : ∃ b, Parse.skip k ⟨used ++ rest, x⟩ = .ok b ⟨rest, x⟩ := by
  cases h with
  | absent => exact ⟨false, skip_none hnext⟩
  | present hkind => exact ⟨true, skip_cons hkind⟩

theorem emit_eq (e : Event) : Parse.emit e ⟨rest, x⟩ = .ok () ⟨rest, x.tell [e]⟩ := rfl

/-! ## Parts without nested groups -/

theorem combinator {k : Combinator} {sign : List Token} (h : k.Written sign)
    (hnext : nextKind rest ≠ .whiteSpace) :
    Parse.combinator ⟨sign ++ rest, x⟩ = .ok true ⟨rest, x.tell [.combinator k]⟩ := by
  have htail {k : Combinator} {blank : List Token} (hblank : Blank blank) :
      (do
        Parse.emit (.combinator k)
        let _ ← Parse.skip .whiteSpace
        return true : Parse (List Token) Transcript Bool) ⟨blank ++ rest, x⟩ =
        .ok true ⟨rest, x.tell [.combinator k]⟩ := by
    obtain ⟨b, hskip⟩ := skip_optional (x := x.tell [.combinator k]) hblank hnext
    rw [bind_ok (emit_eq _), bind_ok hskip]
    rfl
  cases h with
  | blank hkind =>
    refine (bind_ok (tryKinds_cons (by simp [hkind]))).trans ?_
    simp only [hkind]
    rfl
  | child hkind hblank =>
    refine (bind_ok (tryKinds_cons (by simp [hkind]))).trans ?_
    simp only [hkind]
    exact htail hblank
  | adjacent hkind hblank =>
    refine (bind_ok (tryKinds_cons (by simp [hkind]))).trans ?_
    simp only [hkind]
    exact htail hblank
  | sibling hkind hblank =>
    refine (bind_ok (tryKinds_cons (by simp [hkind]))).trans ?_
    simp only [hkind]
    exact htail hblank

theorem combinator_none (hnext : nextKind rest ∈ afterAlternative) :
    Parse.combinator ⟨rest, x⟩ = .ok false ⟨rest, x⟩ := by
  refine (bind_ok (tryKinds_none ?_)).trans rfl
  generalize nextKind rest = k at hnext
  revert k
  decide

theorem namespacePart {ns : Namespace} {part : List Token} {name : Token} (h : ns.Written part)
    (hname : name.kind ∈ [Token.Kind.ident, .star]) (hnext : nextKind rest ≠ .pipe) :
    Parse.namespacePart ⟨part ++ name :: rest, x⟩ = .ok ns ⟨name :: rest, x⟩ := by
  cases h with
  | unstated =>
    have hpipe : name.kind ≠ .pipe := by grind
    refine (bind_ok (tryKinds_cons (by grind))).trans ?_
    dsimp only
    rw [if_neg hpipe, bind_ok (skip_none hnext)]
    rfl
  | empty hbar =>
    refine (bind_ok (tryKinds_cons (by simp [hbar]))).trans ?_
    dsimp only
    rw [if_pos hbar]
    rfl
  | any hstar hbar =>
    refine (bind_ok (tryKinds_cons (by simp [hstar]))).trans ?_
    dsimp only
    rw [if_neg (by simp [hstar])]
    refine (bind_ok (skip_cons hbar)).trans ?_
    rw [if_pos rfl, if_neg (by simp [hstar])]
    rfl
  | named hident hbar =>
    refine (bind_ok (tryKinds_cons (by simp [hident]))).trans ?_
    dsimp only
    rw [if_neg (by simp [hident])]
    refine (bind_ok (skip_cons hbar)).trans ?_
    rw [if_pos rfl, if_pos hident]
    rfl

theorem namespacePart_start {ns : Namespace} {part : List Token} (h : ns.Written part)
    {name : Token} (hname : name.kind = .ident ∨ name.kind = .star) (rest : List Token) :
    ∃ t tail, part ++ name :: rest = t :: tail ∧ t.kind ∈ [Token.Kind.ident, .star, .pipe] := by
  cases h with
  | unstated => exact ⟨name, rest, rfl, by grind⟩
  | empty hbar => exact ⟨_, _, rfl, by simp [hbar]⟩
  | any hstar _ => exact ⟨_, _, rfl, by simp [hstar]⟩
  | named hident _ => exact ⟨_, _, rfl, by simp [hident]⟩

theorem namespacePart_not_blank {ns : Namespace} {part : List Token} (h : ns.Written part)
    {name : Token} (hname : name.kind = .ident) :
    nextKind (part ++ name :: rest) ≠ .whiteSpace := by
  obtain ⟨t, tail, heq, hkind⟩ := namespacePart_start h (.inl hname) rest
  rw [heq, nextKind_cons]
  grind

theorem typeOrUniversal {head : CompoundHead} {used : List Token} (h : head.Written used)
    (hstated : head ≠ .implied) (hnext : nextKind rest ≠ .pipe) :
    Parse.typeOrUniversal ⟨used ++ rest, x⟩ = .ok () ⟨rest, x.tell [head.event]⟩ := by
  cases h with
  | type hpart hident =>
    rw [List.append_assoc, List.singleton_append]
    refine (bind_ok (namespacePart hpart (by simp [hident]) hnext)).trans ?_
    refine (bind_ok (expectKinds_cons (by simp [hident]))).trans ?_
    rw [if_pos hident]
    rfl
  | universal hpart hstar =>
    rw [List.append_assoc, List.singleton_append]
    refine (bind_ok (namespacePart hpart (by simp [hstar]) hnext)).trans ?_
    refine (bind_ok (expectKinds_cons (by simp [hstar]))).trans ?_
    rw [if_neg (by simp [hstar])]
    rfl
  | implied => exact absurd rfl hstated

theorem attributeTest {test : SimpleTest} {used : List Token} (h : AttributeWritten test used) :
    Parse.attributeTest ⟨used ++ rest, x⟩ = .ok () ⟨rest, x.tell [test.event]⟩ := by
  cases h with
  | @has ns part blank blank' name close hblank hpart hname hblank' hclose =>
    have hstart : nextKind (part ++ name :: (blank' ++ close :: rest)) ≠ .whiteSpace :=
      namespacePart_not_blank hpart hname
    have hnext : nextKind (blank' ++ close :: rest) ≠ .pipe :=
      nextKind_optional hblank' (by decide) (by simp [hclose])
    obtain ⟨b, hskip⟩ := skip_optional (x := x) hblank hstart
    obtain ⟨b', hskip'⟩ := skip_optional (x := x) hblank'
      (show nextKind (close :: rest) ≠ .whiteSpace by simp [hclose])
    simp only [List.append_assoc, List.cons_append, List.nil_append]
    refine (bind_ok hskip).trans ?_
    refine (bind_ok (namespacePart hpart (by simp [hname]) hnext)).trans ?_
    refine (bind_ok (expectKinds_cons (by simp [hname]))).trans ?_
    refine (bind_ok hskip').trans ?_
    refine (bind_ok (tryKinds_none (by simp [hclose]; decide))).trans ?_
    refine (bind_ok (emit_eq _)).trans ?_
    refine (bind_ok (expectKinds_cons (by simp [hclose]))).trans ?_
    rfl
  | @compare ns part blank₁ blank₂ blank₃ blank₄ name sign value close comparison hblank₁ hpart
      hname hblank₂ hsign hblank₃ hvalue hblank₄ hclose =>
    have hsignKind : comparison.kind ≠ .whiteSpace ∧ comparison.kind ≠ .pipe ∧
        comparison.kind ∈ Comparison.all.map Comparison.kind := by
      cases comparison <;> decide
    have hstart : nextKind (part ++ name :: (blank₂ ++ sign :: (blank₃ ++ value ::
        (blank₄ ++ close :: rest)))) ≠ .whiteSpace :=
      namespacePart_not_blank hpart hname
    have hnext : nextKind (blank₂ ++ sign :: (blank₃ ++ value :: (blank₄ ++ close :: rest))) ≠
        .pipe :=
      nextKind_optional hblank₂ (by decide) (by simpa [hsign] using hsignKind.2.1)
    have hof : (some sign).bind (Comparison.ofKind? ·.kind) = some comparison := by
      simp [hsign, Comparison.ofKind?_kind]
    obtain ⟨b₁, hskip₁⟩ := skip_optional (x := x) hblank₁ hstart
    obtain ⟨b₂, hskip₂⟩ := skip_optional (x := x) hblank₂
      (show nextKind (sign :: (blank₃ ++ value :: (blank₄ ++ close :: rest))) ≠ .whiteSpace by
        simpa [hsign] using hsignKind.1)
    obtain ⟨b₃, hskip₃⟩ := skip_optional (x := x) hblank₃
      (show nextKind (value :: (blank₄ ++ close :: rest)) ≠ .whiteSpace by
        rcases hvalue with hvalue | hvalue <;> simp [hvalue])
    obtain ⟨b₄, hskip₄⟩ := skip_optional (x := x) hblank₄
      (show nextKind (close :: rest) ≠ .whiteSpace by simp [hclose])
    simp only [List.append_assoc, List.cons_append, List.nil_append]
    refine (bind_ok hskip₁).trans ?_
    refine (bind_ok (namespacePart hpart (by simp [hname]) hnext)).trans ?_
    refine (bind_ok (expectKinds_cons (by simp [hname]))).trans ?_
    refine (bind_ok hskip₂).trans ?_
    refine (bind_ok (tryKinds_cons (hsign ▸ hsignKind.2.2))).trans ?_
    dsimp only
    rw [hof]
    refine (bind_ok hskip₃).trans ?_
    refine (bind_ok (expectKinds_cons (by simpa using hvalue))).trans ?_
    refine (bind_ok hskip₄).trans ?_
    refine (bind_ok (emit_eq _)).trans ?_
    refine (bind_ok (expectKinds_cons (by simp [hclose]))).trans ?_
    rfl

theorem integer {n : Int} {digits : List Token} (h : IntegerWritten n digits) :
    Parse.integer ⟨digits ++ rest, x⟩ = .ok n ⟨rest, x⟩ := by
  obtain ⟨hkind, hn⟩ := h
  refine (bind_ok (expectKinds_cons (by simp [hkind]))).trans ?_
  simp only [integerOf, hn]
  rfl

theorem position {function : String} {n : Int} {sign digits : List Token}
    (hsign : Optional .plus sign) (h : IntegerWritten n digits)
    (hnext : nextKind rest ≠ .ident) :
    Parse.position function ⟨sign ++ (digits ++ rest), x⟩ = .ok n ⟨rest, x⟩ := by
  obtain @⟨t, hkind, hn⟩ := h
  have hplus : nextKind ([t] ++ rest) ≠ .plus := by simp [hkind]
  obtain ⟨b, hskip⟩ := skip_optional (x := x) hsign hplus
  refine (bind_ok hskip).trans ?_
  refine (bind_ok (expectKinds_cons (by simp [hkind]))).trans ?_
  dsimp only
  rw [if_neg (by simp [hkind])]
  have hpeek : Parse.peek ⟨rest, x⟩ = .ok (TokenSource.peek rest) ⟨rest, x⟩ := rfl
  refine (bind_ok hpeek).trans ?_
  rw [if_neg fun h => hnext h.1]
  simp only [integerOf, hn]
  rfl

theorem separator_eq {used : List Token} (h : Separator used) :
    Parse.separator ⟨used ++ rest, x⟩ = .ok () ⟨rest, x⟩ := by
  obtain ⟨hsemicolon, hblank⟩ := h
  refine (bind_ok (expectKinds_cons (by simp [hsemicolon]))).trans ?_
  refine (bind_ok (expectKinds_cons (by simp [hblank]))).trans ?_
  rfl

/-! ## First tokens -/

section FirstTokens

variable {sig : String → Option (List ArgumentType)} {used : List Token}

theorem functionCall_start {name : String} {body : List Token} (h : FunctionCall name body used) :
    ∃ colon tail, used = colon :: tail ∧ colon.kind = .colon := by
  obtain ⟨hcolon, -, -, -, -⟩ := h
  exact ⟨_, _, rfl, hcolon⟩

theorem modifier_start {m : ModifierTree} (h : m.Written sig used) :
    ∃ t tail, used = t :: tail ∧ t.kind ∈ modifierStarts := by
  have hcall {name : String} {body : List Token} (h : FunctionCall name body used) :
      ∃ t tail, used = t :: tail ∧ t.kind ∈ modifierStarts := by
    obtain ⟨colon, tail, rfl, hcolon⟩ := functionCall_start h
    exact ⟨colon, tail, rfl, by simp [hcolon, modifierStarts]⟩
  cases h with
  | test htest =>
    cases htest with
    | id hkind => exact ⟨_, _, rfl, by simp [hkind, modifierStarts]⟩
    | className hkind _ => exact ⟨_, _, rfl, by simp [hkind, modifierStarts]⟩
    | bracketed hkind _ => exact ⟨_, _, rfl, by simp [hkind, modifierStarts]⟩
    | plain hkind _ _ => exact ⟨_, _, rfl, by simp [hkind, modifierStarts]⟩
    | nthChild _ _ h => exact hcall h
    | nthLastChild _ _ h => exact hcall h
    | index _ h => exact hcall h
    | containsText _ h => exact hcall h
    | matchesText _ h => exact hcall h
  | grouped _ h => exact hcall h
  | between _ _ _ h => exact hcall h
  | function _ _ _ h => exact hcall h
  | name hkind _ _ _ => exact ⟨_, _, rfl, by simp [hkind, modifierStarts]⟩

theorem head_start {head : CompoundHead} (h : head.Written used) (hstated : head ≠ .implied) :
    ∃ t tail, used = t :: tail ∧ t.kind ∈ [Token.Kind.ident, .star, .pipe] := by
  cases h with
  | type hpart hname => exact namespacePart_start hpart (.inl hname) []
  | universal hpart hstar => exact namespacePart_start hpart (.inr hstar) []
  | implied => exact absurd rfl hstated

theorem compound_start {c : CompoundTree} (h : c.Written sig used) :
    ∃ t tail, used = t :: tail ∧ t.kind ∈ compoundStarts := by
  cases h with
  | @mk head _ _ _ hhead hmodifiers himplied =>
    by_cases hstated : head = .implied
    · subst hstated
      cases hhead
      cases hmodifiers with
      | nil => exact absurd rfl (himplied rfl)
      | cons hm _ =>
        obtain ⟨t, tail, rfl, hkind⟩ := modifier_start hm
        exact ⟨t, _, rfl, List.mem_append_right _ hkind⟩
    · obtain ⟨t, tail, rfl, hkind⟩ := head_start hhead hstated
      exact ⟨t, _, rfl, List.mem_append_left _ hkind⟩

theorem alternative_start {a : AlternativeTree} (h : a.Written sig used) :
    ∃ t tail, used = t :: tail ∧ t.kind ∈ compoundStarts := by
  cases h with
  | last hc => exact compound_start hc
  | link hc _ _ =>
    obtain ⟨t, tail, rfl, hkind⟩ := compound_start hc
    exact ⟨t, _, rfl, hkind⟩

theorem group_start {g : GroupTree} (h : g.Written sig used) :
    ∃ t tail, used = t :: tail ∧ t.kind ∈ Token.Kind.slash :: compoundStarts := by
  cases h with
  | plain ha _ =>
    obtain ⟨t, tail, rfl, hkind⟩ := alternative_start ha
    exact ⟨t, _, rfl, List.mem_cons_of_mem _ hkind⟩
  | slashed hslash _ _ _ => exact ⟨_, _, rfl, by simp [hslash]⟩

end FirstTokens

/-! ## Parts over nested groups -/

/-- Nested groups are read wherever fewer than `n` tokens are left. -/
def NestedGroups (n : Nat) (nested : Bool → Parse (List Token) Transcript Unit) : Prop :=
  ∀ {anchored : Bool} {g : GroupTree} {used rest : List Token} {x : Transcript},
    g.Written x.signature? used → nextKind rest ∈ afterGroup → (used ++ rest).length < n →
      nested anchored ⟨used ++ rest, x⟩ = .ok () ⟨rest, x.tell (.nest :: g.events anchored)⟩

section Nested

variable {n : Nat} {nested : Bool → Parse (List Token) Transcript Unit}

theorem customArgument (hnested : NestedGroups n nested) {type : ArgumentType}
    {tree : ArgumentTree} {used : List Token} (h : tree.Written x.signature? type used)
    (hnext : nextKind rest ∈ afterGroup) (hn : (used ++ rest).length < n) :
    Parse.customArgument nested type ⟨used ++ rest, x⟩ =
      .ok tree.argument ⟨rest, x.tell tree.events⟩ := by
  cases h with
  | string hwritten =>
    obtain ⟨hkind, rfl⟩ := hwritten
    refine (bind_ok (expectKinds_cons (by simp [hkind]))).trans ?_
    simp [ArgumentTree.events, ArgumentTree.argument]
    rfl
  | integer hwritten =>
    refine (bind_ok (integer hwritten)).trans ?_
    simp [ArgumentTree.events, ArgumentTree.argument]
    rfl
  | group hwritten => exact bind_ok (hnested hwritten hnext hn)

theorem nextKind_separator {used : List Token} (h : Separator used) :
    nextKind (used ++ rest) = .semicolon := by
  obtain ⟨hsemicolon, -⟩ := h
  exact hsemicolon

theorem nextKind_moreArguments {sig : String → Option (List ArgumentType)}
    {types : List ArgumentType} {trees : List ArgumentTree} {used : List Token}
    (h : MoreArgumentsWritten sig types trees used) (hnext : nextKind rest ∈ afterGroup) :
    nextKind (used ++ rest) ∈ afterGroup := by
  cases h with
  | nil => exact hnext
  | cons hseparator _ _ =>
    rw [List.append_assoc, List.append_assoc, nextKind_separator hseparator]
    decide

theorem moreCustomArguments (hnested : NestedGroups n nested) {types : List ArgumentType}
    {trees : List ArgumentTree} {used : List Token}
    (h : MoreArgumentsWritten x.signature? types trees used)
    (hnext : nextKind rest ∈ afterGroup) (hn : (used ++ rest).length < n) :
    Parse.moreCustomArguments nested types ⟨used ++ rest, x⟩ =
      .ok (trees.map ArgumentTree.argument) ⟨rest, x.tell (ArgumentTree.listEvents trees)⟩ := by
  induction types generalizing trees used x with
  | nil =>
    cases h
    simp [ArgumentTree.listEvents]
    rfl
  | cons type types ih =>
    cases h with
    | cons hseparator ha has =>
      simp only [List.append_assoc, List.length_append] at hn ⊢
      refine (bind_ok (separator_eq hseparator)).trans ?_
      refine (bind_ok (customArgument hnested ha (nextKind_moreArguments has hnext) ?_)).trans ?_
      · simp only [List.length_append]
        omega
      refine (bind_ok (ih (x := x.tell _) has ?_)).trans ?_
      · simp only [List.length_append]
        omega
      simp [ArgumentTree.listEvents]
      rfl

theorem customArguments (hnested : NestedGroups n nested) {types : List ArgumentType}
    {trees : List ArgumentTree} {used : List Token}
    (h : ArgumentsWritten x.signature? types trees used)
    (hnext : nextKind rest ∈ afterGroup) (hn : (used ++ rest).length < n) :
    Parse.customArguments nested types ⟨used ++ rest, x⟩ =
      .ok (trees.map ArgumentTree.argument) ⟨rest, x.tell (ArgumentTree.listEvents trees)⟩ := by
  cases h with
  | nil =>
    simp [ArgumentTree.listEvents]
    rfl
  | cons ha has =>
    simp only [List.append_assoc, List.length_append] at hn ⊢
    refine (bind_ok (customArgument hnested ha (nextKind_moreArguments has hnext) ?_)).trans ?_
    · simp only [List.length_append]
      omega
    refine (bind_ok (moreCustomArguments (x := x.tell _) hnested has hnext ?_)).trans ?_
    · simp only [List.length_append]
      omega
    simp [ArgumentTree.listEvents]
    rfl

theorem custom {name : String} {functional : Bool} {types : List ArgumentType}
    {trees : List ArgumentTree} (htypes : x.signature? name = some types)
    (hdeclared : functional = true ∨ types = [])
    (harguments : Parse.customArguments nested types ⟨ts, x⟩ =
      .ok (trees.map ArgumentTree.argument) ⟨rest, x.tell (ArgumentTree.listEvents trees)⟩) :
    Parse.custom nested name functional ⟨ts, x⟩ =
      .ok () ⟨rest, x.tell (ModifierTree.custom name trees).events⟩ := by
  have hsignature : Parse.signature? name ⟨ts, x⟩ = .ok (some types) ⟨ts, x⟩ := by
    rw [← htypes]
    rfl
  have hmissing : ¬ (!functional && !types.isEmpty) = true := by
    rcases hdeclared with rfl | rfl <;> simp
  refine (bind_ok hsignature).trans ?_
  dsimp only
  rw [if_neg hmissing]
  refine (bind_ok harguments).trans ?_
  rw [emit_eq]
  simp [ModifierTree.events]

theorem grouped (hnested : NestedGroups n nested) {pseudo : GroupPseudo} {g : GroupTree}
    {body : List Token} (hpseudo : pseudo ≠ .between) (h : g.Written x.signature? body)
    (hnext : nextKind rest ∈ afterGroup) (hn : (body ++ rest).length < n) :
    Parse.groupPseudo nested pseudo ⟨body ++ rest, x⟩ =
      .ok () ⟨rest, x.tell (ModifierTree.grouped pseudo hpseudo g).events⟩ := by
  refine (bind_ok (hnested h hnext hn)).trans ?_
  rw [if_neg hpseudo]
  refine (emit_eq _).trans ?_
  simp [ModifierTree.events]

theorem between (hnested : NestedGroups n nested) {g g' : GroupTree}
    {start separator stop : List Token} (h : g.Written x.signature? start)
    (hseparator : Separator separator) (h' : g'.Written x.signature? stop)
    (hnext : nextKind rest ∈ afterGroup) (hn : (start ++ separator ++ stop ++ rest).length < n) :
    Parse.groupPseudo nested .between ⟨start ++ separator ++ stop ++ rest, x⟩ =
      .ok () ⟨rest, x.tell (ModifierTree.between g g').events⟩ := by
  simp only [List.append_assoc, List.length_append] at hn ⊢
  have hsemicolon : nextKind (separator ++ (stop ++ rest)) ∈ afterGroup := by
    rw [nextKind_separator hseparator]
    decide
  refine (bind_ok (hnested h hsemicolon ?_)).trans ?_
  · simp only [List.length_append]
    omega
  rw [if_pos rfl]
  refine (bind_ok (separator_eq hseparator)).trans ?_
  refine (bind_ok (hnested (x := x.tell _) h' hnext ?_)).trans ?_
  · simp only [List.length_append]
    omega
  refine (emit_eq _).trans ?_
  simp [ModifierTree.events, GroupPseudo.anchorsArgument]

theorem functionArguments_grouped (pseudo : GroupPseudo) :
    Parse.functionArguments nested pseudo.name = Parse.groupPseudo nested pseudo := by
  have hnames : pseudo.name ≠ "eq" ∧ pseudo.name ≠ "nth-child" ∧ pseudo.name ≠ "nth-last-child" ∧
      pseudo.name ≠ "contains" ∧ pseudo.name ≠ "matches" ∧
      GroupPseudo.ofName? pseudo.name = some pseudo := by
    rcases pseudo with _ | _ | mode | _ | _ | _
    case split => cases mode <;> decide
    all_goals decide
  obtain ⟨hindex, hnth, hnthLast, hcontains, hmatches, hof⟩ := hnames
  unfold Parse.functionArguments
  rw [if_neg hindex, if_neg hnth, if_neg hnthLast, if_neg hcontains, if_neg hmatches, hof]

theorem functionArguments_custom {name : String} (h : name ∉ builtinFunctions) :
    Parse.functionArguments nested name = Parse.custom nested name true := by
  simp only [builtinFunctions, List.mem_append, List.mem_map, List.mem_cons, List.not_mem_nil,
    or_false, not_or, not_exists, not_and] at h
  obtain ⟨⟨hindex, hnth, hnthLast, hcontains, hmatches⟩, hgroups⟩ := h
  have hof : GroupPseudo.ofName? name = none := by
    rw [GroupPseudo.ofName?, List.find?_eq_none]
    intro pseudo hpseudo
    simpa using hgroups pseudo hpseudo
  unfold Parse.functionArguments
  rw [if_neg hindex, if_neg hnth, if_neg hnthLast, if_neg hcontains, if_neg hmatches, hof]

/-- A call is read when its body is. -/
theorem functionCall {name : String} {body used : List Token} {es : List Event}
    (h : FunctionCall name body used)
    (hstart : ∀ {close : Token}, close.kind = .rightParen →
      nextKind (body ++ close :: rest) ≠ .whiteSpace)
    (hbody : ∀ {close : Token}, close.kind = .rightParen →
      Parse.functionArguments nested name ⟨body ++ close :: rest, x⟩ =
        .ok () ⟨close :: rest, x.tell es⟩) :
    ∃ colon tail, used = colon :: tail ∧ colon.kind ∈ modifierStarts ∧
      Parse.modifier nested colon ⟨tail ++ rest, x⟩ = .ok () ⟨rest, x.tell es⟩ := by
  obtain ⟨hcolon, hfunction, rfl, hblank, hclose⟩ := h
  refine ⟨_, _, rfl, by simp [hcolon, modifierStarts], ?_⟩
  obtain ⟨b, hskip⟩ := skip_optional (x := x) hblank (hstart hclose)
  unfold Parse.modifier
  rw [hcolon]
  simp only [List.append_assoc, List.cons_append, List.nil_append]
  refine (bind_ok (tryKinds_cons (by simp [hfunction]))).trans ?_
  refine (bind_ok hskip).trans ?_
  refine (bind_ok (hbody hclose)).trans ?_
  refine (bind_ok (expectKinds_cons (by simp [hclose]))).trans ?_
  rfl

theorem nextKind_group {g : GroupTree} {used : List Token}
    {sig : String → Option (List ArgumentType)} (h : g.Written sig used) :
    nextKind (used ++ rest) ≠ .whiteSpace := by
  obtain ⟨t, tail, rfl, hkind⟩ := group_start h
  intro hblank
  rw [List.cons_append, nextKind_cons] at hblank
  rw [hblank] at hkind
  revert hkind
  decide

theorem nextKind_position {n : Int} {sign digits : List Token} (hsign : Optional .plus sign)
    (h : IntegerWritten n digits) : nextKind (sign ++ digits ++ rest) ≠ .whiteSpace := by
  obtain ⟨hkind, -⟩ := h
  rw [List.append_assoc]
  exact nextKind_optional hsign (by decide) (by simp [hkind])

theorem nextKind_arguments {types : List ArgumentType} {trees : List ArgumentTree}
    {used : List Token} {sig : String → Option (List ArgumentType)}
    (h : ArgumentsWritten sig types trees used) (hnext : nextKind rest ≠ .whiteSpace) :
    nextKind (used ++ rest) ≠ .whiteSpace := by
  cases h with
  | nil => exact hnext
  | cons ha _ =>
    cases ha with
    | string h =>
      obtain ⟨hkind, -⟩ := h
      simp [hkind]
    | integer h =>
      obtain ⟨hkind, -⟩ := h
      simp [hkind]
    | group h =>
      rw [List.append_assoc]
      exact nextKind_group h

theorem functionCall_length {name : String} {body used : List Token}
    (h : FunctionCall name body used) : body.length + 3 ≤ used.length := by
  obtain ⟨-, -, -, -, -⟩ := h
  simp only [List.length_cons, List.length_append, List.length_nil]
  omega

theorem simpleTest {test : SimpleTest} {used : List Token} (h : test.Written used) :
    ∃ t tail, used = t :: tail ∧ t.kind ∈ modifierStarts ∧
      Parse.modifier nested t ⟨tail ++ rest, x⟩ = .ok () ⟨rest, x.tell [test.event]⟩ := by
  cases h with
  | id hkind =>
    refine ⟨_, _, rfl, by simp [hkind, modifierStarts], ?_⟩
    unfold Parse.modifier
    rw [hkind]
    rfl
  | className hkind hname =>
    refine ⟨_, _, rfl, by simp [hkind, modifierStarts], ?_⟩
    unfold Parse.modifier
    rw [hkind]
    exact bind_ok (expectKinds_cons (by simp [hname]))
  | bracketed hkind hattribute =>
    refine ⟨_, _, rfl, by simp [hkind, modifierStarts], ?_⟩
    unfold Parse.modifier
    rw [hkind]
    exact attributeTest hattribute
  | plain hcolon hname hpseudo =>
    refine ⟨_, _, rfl, by simp [hcolon, modifierStarts], ?_⟩
    unfold Parse.modifier
    rw [hcolon]
    refine (bind_ok (tryKinds_none (by simp [hname]))).trans ?_
    refine (bind_ok (expectKinds_cons (by simp [hname]))).trans ?_
    rw [hpseudo]
    rfl
  | nthChild hsign hdigits hcall =>
    refine functionCall hcall (fun hclose => ?_) fun hclose => ?_
    · exact nextKind_position hsign hdigits
    · unfold Parse.functionArguments
      rw [if_neg (by decide), if_pos rfl, List.append_assoc]
      exact bind_ok (position hsign hdigits (by simp [hclose]))
  | nthLastChild hsign hdigits hcall =>
    refine functionCall hcall (fun hclose => ?_) fun hclose => ?_
    · exact nextKind_position hsign hdigits
    · unfold Parse.functionArguments
      rw [if_neg (by decide), if_neg (by decide), if_pos rfl, List.append_assoc]
      exact bind_ok (position hsign hdigits (by simp [hclose]))
  | index hdigits hcall =>
    refine functionCall hcall (fun hclose => ?_) fun hclose => ?_
    · obtain ⟨hkind, -⟩ := hdigits
      simp [hkind]
    · unfold Parse.functionArguments
      rw [if_pos rfl]
      exact bind_ok (integer hdigits)
  | containsText htext hcall =>
    obtain ⟨hkind, rfl⟩ := htext
    refine functionCall hcall (fun hclose => ?_) fun hclose => ?_
    · simp [hkind]
    · unfold Parse.functionArguments
      rw [if_neg (by decide), if_neg (by decide), if_neg (by decide), if_pos rfl]
      exact bind_ok (expectKinds_cons (by simp [hkind]))
  | matchesText htext hcall =>
    obtain ⟨hkind, rfl⟩ := htext
    refine functionCall hcall (fun hclose => ?_) fun hclose => ?_
    · simp [hkind]
    · unfold Parse.functionArguments
      rw [if_neg (by decide), if_neg (by decide), if_neg (by decide), if_neg (by decide),
        if_pos rfl]
      exact bind_ok (expectKinds_cons (by simp [hkind]))

theorem modifier (hnested : NestedGroups n nested) {m : ModifierTree} {used : List Token}
    (h : m.Written x.signature? used) (hn : (used ++ rest).length ≤ n) :
    ∃ t tail, used = t :: tail ∧ t.kind ∈ modifierStarts ∧
      Parse.modifier nested t ⟨tail ++ rest, x⟩ = .ok () ⟨rest, x.tell m.events⟩ := by
  simp only [List.length_append] at hn
  cases h with
  | test h => simpa [ModifierTree.events] using simpleTest h
  | @grouped _ hpseudo _ _ _ hg hcall =>
    have hlength := functionCall_length hcall
    refine functionCall hcall (fun hclose => ?_) fun hclose => ?_
    · exact nextKind_group hg
    · rw [functionArguments_grouped]
      refine grouped hnested hpseudo hg ?_ ?_
      · simp [hclose, afterGroup]
      · simp only [List.length_append, List.length_cons]
        omega
  | between hg hseparator hg' hcall =>
    have hlength := functionCall_length hcall
    refine functionCall hcall (fun hclose => ?_) fun hclose => ?_
    · rw [List.append_assoc, List.append_assoc]
      exact nextKind_group hg
    · rw [show "between" = GroupPseudo.between.name from rfl, functionArguments_grouped]
      refine between hnested hg hseparator hg' ?_ ?_
      · simp [hclose, afterGroup]
      · simp only [List.length_append, List.length_cons] at hlength ⊢
        omega
  | function hname htypes harguments hcall =>
    have hlength := functionCall_length hcall
    refine functionCall hcall (fun hclose => ?_) fun hclose => ?_
    · exact nextKind_arguments harguments (by simp [hclose])
    · rw [functionArguments_custom hname]
      refine custom htypes (.inl rfl) (customArguments hnested harguments ?_ ?_)
      · simp [hclose, afterGroup]
      · simp only [List.length_append, List.length_cons]
        omega
  | name hcolon hname hplain htypes =>
    refine ⟨_, _, rfl, by simp [hcolon, modifierStarts], ?_⟩
    unfold Parse.modifier
    rw [hcolon]
    refine (bind_ok (tryKinds_none (by simp [hname]))).trans ?_
    refine (bind_ok (expectKinds_cons (by simp [hname]))).trans ?_
    rw [hplain]
    refine custom htypes (.inr rfl) ?_
    simp [ArgumentTree.listEvents]
    rfl

theorem repeatModifiers (hnested : NestedGroups n nested) {ms : List ModifierTree}
    {used : List Token} (h : ModifiersWritten x.signature? ms used)
    (hnext : nextKind rest ∈ afterCompound) (hn : (used ++ rest).length ≤ n) {bound : Nat}
    (hbound : used.length < bound) :
    Parse.repeatWhile (Parse.tryModifier nested) bound ⟨used ++ rest, x⟩ =
      .ok () ⟨rest, x.tell (ModifierTree.listEvents ms)⟩ := by
  obtain _ | bound := bound
  · omega
  induction ms generalizing used x bound with
  | nil =>
    cases h
    have hnone : nextKind rest ∉ modifierStarts := by
      generalize nextKind rest = k at hnext
      revert k
      decide
    have hlast : Parse.tryModifier nested ⟨rest, x⟩ = .ok false ⟨rest, x⟩ :=
      bind_ok (tryKinds_none hnone)
    refine (bind_ok hlast).trans ?_
    simp [ModifierTree.listEvents]
    rfl
  | cons m ms ih =>
    cases h with
    | @cons _ _ first more hm hms =>
      simp only [List.append_assoc, List.length_append] at hn hbound ⊢
      obtain ⟨t, tail, rfl, hkind, hread⟩ : ∃ t tail, first = t :: tail ∧
          t.kind ∈ modifierStarts ∧ Parse.modifier nested t ⟨tail ++ (more ++ rest), x⟩ =
            .ok () ⟨more ++ rest, x.tell m.events⟩ :=
        modifier hnested hm (by simpa using hn)
      have hmodifier : Parse.tryModifier nested ⟨t :: tail ++ (more ++ rest), x⟩ =
          .ok true ⟨more ++ rest, x.tell m.events⟩ :=
        (bind_ok (tryKinds_cons hkind)).trans (bind_ok hread)
      simp only [List.length_cons] at hn hbound
      obtain _ | bound := bound
      · omega
      refine (bind_ok hmodifier).trans ((ih (x := x.tell _) hms ?_ bound ?_).trans ?_)
      · simp only [List.length_append]
        omega
      · omega
      · simp [ModifierTree.listEvents]

/-- What may follow a compound may also follow the modifiers that it still lacks. -/
theorem nextKind_modifiers {ms : List ModifierTree} {used : List Token}
    {sig : String → Option (List ArgumentType)} (h : ModifiersWritten sig ms used)
    (hnext : nextKind rest ∈ afterCompound) : nextKind (used ++ rest) ≠ .pipe := by
  cases h with
  | nil =>
    intro hpipe
    rw [List.nil_append] at hpipe
    rw [hpipe] at hnext
    revert hnext
    decide
  | cons hm _ =>
    obtain ⟨t, tail, rfl, hkind⟩ := modifier_start hm
    intro hpipe
    rw [List.cons_append, List.cons_append, nextKind_cons] at hpipe
    rw [hpipe] at hkind
    revert hkind
    decide

theorem compound (hnested : NestedGroups n nested) {c : CompoundTree} {used : List Token}
    (h : c.Written x.signature? used) (hnext : nextKind rest ∈ afterCompound)
    (hn : (used ++ rest).length ≤ n) {bound : Nat} (hbound : used.length < bound) :
    Parse.compound nested bound ⟨used ++ rest, x⟩ = .ok () ⟨rest, x.tell c.events⟩ := by
  cases h with
  | @mk head ms first more hhead hms himplied =>
    simp only [List.append_assoc, List.length_append] at hn hbound ⊢
    by_cases hstated : head = .implied
    · subst hstated
      cases hhead
      cases hms with
      | nil => exact absurd rfl (himplied rfl)
      | @cons m ms first more hm hms =>
        simp only [List.append_assoc, List.length_append, List.nil_append, List.length_nil]
          at hn hbound ⊢
        obtain ⟨t, tail, rfl, hkind, hread⟩ : ∃ t tail, first = t :: tail ∧
            t.kind ∈ modifierStarts ∧
            Parse.modifier nested t ⟨tail ++ (more ++ rest), x.tell [.universal .unstated]⟩ =
              .ok () ⟨more ++ rest, (x.tell [.universal .unstated]).tell m.events⟩ :=
          modifier (x := x.tell _) hnested hm (by simpa [Nat.add_assoc] using hn)
        simp only [List.length_cons] at hn hbound
        refine (bind_ok (tryKinds_cons hkind)).trans ?_
        refine (bind_ok (emit_eq _)).trans ?_
        refine (bind_ok hread).trans ?_
        refine (repeatModifiers (x := (x.tell _).tell _) hnested hms hnext ?_ (by omega)).trans ?_
        · simp only [List.length_append]
          omega
        · simp [CompoundTree.events, ModifierTree.listEvents, CompoundHead.event]
    · have hnone : nextKind (first ++ (more ++ rest)) ∉ modifierStarts := by
        obtain ⟨t, tail, rfl, hkind⟩ := head_start hhead hstated
        rw [List.cons_append, nextKind_cons]
        generalize t.kind = k at hkind
        revert k
        decide
      refine (bind_ok (tryKinds_none hnone)).trans ?_
      refine (bind_ok (typeOrUniversal hhead hstated (nextKind_modifiers hms hnext))).trans ?_
      refine (repeatModifiers (x := x.tell _) hnested hms hnext ?_ (by omega)).trans ?_
      · simp only [List.length_append]
        omega
      · simp [CompoundTree.events]

theorem combinator_start {k : Combinator} {sign : List Token} (h : k.Written sign) :
    nextKind (sign ++ rest) ∈ afterCompound := by
  cases h with
  | blank hkind => simp [hkind, afterCompound]
  | child hkind _ => simp [hkind, afterCompound]
  | adjacent hkind _ => simp [hkind, afterCompound]
  | sibling hkind _ => simp [hkind, afterCompound]

theorem nextKind_alternative {a : AlternativeTree} {used : List Token}
    {sig : String → Option (List ArgumentType)} (h : a.Written sig used) :
    nextKind (used ++ rest) ≠ .whiteSpace ∧ nextKind (used ++ rest) ≠ .slash := by
  obtain ⟨t, tail, rfl, hkind⟩ := alternative_start h
  rw [List.cons_append, nextKind_cons]
  generalize t.kind = k at hkind
  revert k
  decide

/-- A compound and the links after it are those of an alternative. -/
theorem linked (hnested : NestedGroups n nested) {a : AlternativeTree} {used : List Token}
    (h : a.Written x.signature? used) (hnext : nextKind rest ∈ afterAlternative)
    (hn : (used ++ rest).length ≤ n) {inner bound : Nat} (hinner : used.length < inner)
    (hbound : used.length ≤ bound) :
    ∃ s, Parse.compound nested inner ⟨used ++ rest, x⟩ = .ok () s ∧
      Parse.repeatWhile (Parse.link nested inner) bound s = .ok () ⟨rest, x.tell a.events⟩ := by
  induction bound generalizing a used x with
  | zero =>
    obtain ⟨t, tail, rfl, -⟩ := alternative_start h
    simp at hbound
  | succ bound ih =>
    cases h with
    | @last c _ hc =>
      refine ⟨_, compound hnested hc (List.mem_append_right _ hnext) hn hinner, ?_⟩
      have hlast : Parse.link nested inner ⟨rest, x.tell c.events⟩ =
          .ok false ⟨rest, x.tell c.events⟩ :=
        bind_ok (combinator_none hnext)
      refine (bind_ok hlast).trans ?_
      simp [AlternativeTree.events]
      rfl
    | @link c k a first sign more hc hk ha =>
      simp only [List.append_assoc, List.length_append] at hn hinner hbound ⊢
      have hfirst : 0 < first.length := by
        obtain ⟨t, tail, rfl, -⟩ := compound_start hc
        simp
      have hcompound : Parse.compound nested inner ⟨first ++ (sign ++ (more ++ rest)), x⟩ =
          .ok () ⟨sign ++ (more ++ rest), x.tell c.events⟩ := by
        refine compound hnested hc (combinator_start hk) ?_ (by omega)
        simp only [List.length_append]
        omega
      have hcombinator : Parse.combinator ⟨sign ++ (more ++ rest), x.tell c.events⟩ =
          .ok true ⟨more ++ rest, (x.tell c.events).tell [.combinator k]⟩ :=
        combinator hk (nextKind_alternative ha).1
      obtain ⟨s, hnested', hrest⟩ := ih (x := (x.tell c.events).tell [.combinator k]) ha
        (by simp only [List.length_append]; omega) (by omega) (by omega)
      have hlink : Parse.link nested inner ⟨sign ++ (more ++ rest), x.tell c.events⟩ =
          .ok true s :=
        (bind_ok hcombinator).trans (bind_ok hnested')
      refine ⟨_, hcompound, (bind_ok hlink).trans (hrest.trans ?_)⟩
      simp [AlternativeTree.events]

theorem alternative (hnested : NestedGroups n nested) {a : AlternativeTree} {used : List Token}
    (h : a.Written x.signature? used) (hnext : nextKind rest ∈ afterAlternative)
    (hn : (used ++ rest).length ≤ n) {bound : Nat} (hbound : used.length < bound) :
    Parse.alternative nested bound ⟨used ++ rest, x⟩ =
      .ok () ⟨rest, x.tell (.alternative :: a.events)⟩ := by
  obtain ⟨s, hcompound, hrest⟩ :=
    linked (x := x.tell [.alternative]) hnested h hnext hn hbound (Nat.le_of_lt hbound)
  refine (bind_ok (emit_eq _)).trans ((bind_ok hcompound).trans (hrest.trans ?_))
  simp

theorem nextKind_moreAlternatives {as : List AlternativeTree} {used : List Token}
    {sig : String → Option (List ArgumentType)} (h : MoreAlternativesWritten sig as used)
    (hnext : nextKind rest ∈ afterGroup) : nextKind (used ++ rest) ∈ afterAlternative := by
  cases h with
  | nil => exact List.mem_cons_of_mem _ hnext
  | cons hcomma _ _ _ => simp [hcomma, afterAlternative]

theorem repeatAlternatives (hnested : NestedGroups n nested) {as : List AlternativeTree}
    {used : List Token} (h : MoreAlternativesWritten x.signature? as used)
    (hnext : nextKind rest ∈ afterGroup) (hn : (used ++ rest).length ≤ n) {inner bound : Nat}
    (hinner : used.length < inner) (hbound : used.length < bound) :
    Parse.repeatWhile (Parse.nextAlternative nested inner) bound ⟨used ++ rest, x⟩ =
      .ok () ⟨rest, x.tell (AlternativeTree.listEvents as)⟩ := by
  obtain _ | bound := bound
  · omega
  induction as generalizing used x bound with
  | nil =>
    cases h
    have hcomma : nextKind rest ≠ .comma := by
      intro hcomma
      rw [hcomma] at hnext
      revert hnext
      decide
    have hlast : Parse.nextAlternative nested inner ⟨rest, x⟩ = .ok false ⟨rest, x⟩ :=
      bind_ok (skip_none hcomma)
    refine (bind_ok hlast).trans ?_
    simp [AlternativeTree.listEvents]
    rfl
  | cons a as ih =>
    cases h with
    | @cons _ _ comma blank first more hcomma hblank ha has =>
      simp only [List.cons_append, List.append_assoc, List.length_cons, List.length_append]
        at hn hinner hbound ⊢
      obtain ⟨b, hskip⟩ := skip_optional (x := x) hblank (nextKind_alternative ha).1
      have halternative : Parse.alternative nested inner ⟨first ++ (more ++ rest), x⟩ =
          .ok () ⟨more ++ rest, x.tell (.alternative :: a.events)⟩ := by
        refine alternative hnested ha (nextKind_moreAlternatives has hnext) ?_ (by omega)
        simp only [List.length_append]
        omega
      have hread : Parse.nextAlternative nested inner
          ⟨comma :: (blank ++ (first ++ (more ++ rest))), x⟩ =
            .ok true ⟨more ++ rest, x.tell (.alternative :: a.events)⟩ :=
        (bind_ok (skip_cons hcomma)).trans ((bind_ok hskip).trans (bind_ok halternative))
      obtain _ | bound := bound
      · omega
      refine (bind_ok hread).trans ((ih (x := x.tell _) has ?_ ?_ bound ?_).trans ?_)
      · simp only [List.length_append]
        omega
      · omega
      · omega
      · simp [AlternativeTree.listEvents]

theorem alternatives (hnested : NestedGroups n nested) {a : AlternativeTree}
    {as : List AlternativeTree} {first more : List Token} (ha : a.Written x.signature? first)
    (has : MoreAlternativesWritten x.signature? as more) (hnext : nextKind rest ∈ afterGroup)
    (hn : (first ++ (more ++ rest)).length ≤ n) {bound : Nat}
    (hbound : first.length + more.length < bound) :
    Parse.alternatives nested bound ⟨first ++ (more ++ rest), x⟩ =
      .ok () ⟨rest, x.tell (AlternativeTree.listEvents (a :: as))⟩ := by
  have hmore := nextKind_moreAlternatives has hnext
  refine (bind_ok (alternative hnested ha hmore hn (by omega))).trans ?_
  simp only [List.length_append] at hn
  refine (repeatAlternatives (x := x.tell _) hnested has hnext ?_ (by omega) (by omega)).trans ?_
  · simp only [List.length_append]
    omega
  · simp [AlternativeTree.listEvents]

theorem openGroup_plain (anchored : Bool) (hslash : nextKind ts ≠ .slash) :
    Parse.openGroup anchored ⟨ts, x⟩ =
      .ok () ⟨ts, x.tell (.init :: if anchored then [.anchor] else [])⟩ := by
  refine (bind_ok (emit_eq _)).trans ?_
  cases anchored with
  | false => exact bind_ok (skip_none hslash)
  | true =>
    refine (bind_ok (emit_eq _)).trans ((bind_ok (skip_none hslash)).trans ?_)
    simp
    rfl

theorem openGroup_slashed (anchored : Bool) {slash : Token} {blank : List Token}
    (hslash : slash.kind = .slash) (hblank : Blank blank) (hnext : nextKind ts ≠ .whiteSpace) :
    Parse.openGroup anchored ⟨slash :: (blank ++ ts), x⟩ =
      .ok () ⟨ts, x.tell (.init :: ((if anchored then [.anchor] else []) ++ [.anchor]))⟩ := by
  refine (bind_ok (emit_eq _)).trans ?_
  cases anchored with
  | false =>
    obtain ⟨b, hskip⟩ := skip_optional (x := (x.tell [.init]).tell [.anchor]) hblank hnext
    refine (bind_ok (skip_cons hslash)).trans ((bind_ok (emit_eq _)).trans ?_)
    refine (bind_ok hskip).trans ?_
    simp
    rfl
  | true =>
    obtain ⟨b, hskip⟩ :=
      skip_optional (x := ((x.tell [.init]).tell [.anchor]).tell [.anchor]) hblank hnext
    refine (bind_ok (emit_eq _)).trans ?_
    refine (bind_ok (skip_cons hslash)).trans ((bind_ok (emit_eq _)).trans ?_)
    refine (bind_ok hskip).trans ?_
    simp
    rfl

/-- All of a group but its end. -/
theorem groupBody (hnested : NestedGroups n nested) {g : GroupTree} {used : List Token}
    (h : g.Written x.signature? used) (hnext : nextKind rest ∈ afterGroup)
    (hn : (used ++ rest).length ≤ n) {bound : Nat} (hbound : used.length < bound)
    (outermost anchored : Bool) :
    ∃ y, y.tell [.close] = x.tell (g.events anchored) ∧
      Parse.groupBody nested bound outermost anchored ⟨used ++ rest, x⟩ =
        Parse.closeGroup outermost ⟨rest, y⟩ := by
  cases h with
  | @plain a as first more ha has =>
    simp only [List.append_assoc, List.length_append] at hn hbound ⊢
    refine ⟨_, ?_, (bind_ok (openGroup_plain anchored (nextKind_alternative ha).2)).trans
      (bind_ok (alternatives (x := x.tell _) hnested ha has hnext ?_ hbound))⟩
    · simp [GroupTree.events]
    · simp only [List.length_append]
      omega
  | @slashed a as slash blank first more hslash hblank ha has =>
    simp only [List.cons_append, List.append_assoc, List.length_cons, List.length_append]
      at hn hbound ⊢
    refine ⟨_, ?_, (bind_ok (openGroup_slashed anchored hslash hblank
      (nextKind_alternative ha).1)).trans
      (bind_ok (alternatives (x := x.tell _) hnested ha has hnext ?_ (by omega)))⟩
    · simp [GroupTree.events]
    · simp only [List.length_append]
      omega

end Nested

theorem nestedGroup {bound depth : Nat} (hdepth : depth ≤ bound) :
    NestedGroups depth (Parse.nestedGroup bound depth) := by
  induction depth with
  | zero =>
    intro anchored g used rest x _ _ hn
    omega
  | succ depth ih =>
    intro anchored g used rest x h hnext hn
    have hused : used.length < bound := by
      simp only [List.length_append] at hn
      omega
    obtain ⟨y, hy, hbody⟩ := groupBody (x := x.tell [.nest]) (ih (by omega)) h hnext
      (by omega) hused false anchored
    refine (bind_ok (emit_eq _)).trans (hbody.trans ((emit_eq _).trans ?_))
    rw [hy, Transcript.tell_tell]
    rfl

theorem group {bound : Nat} {g : GroupTree} {used : List Token}
    (h : g.Written x.signature? used) (hend : nextKind rest = .endOfInput)
    (hbound : (used ++ rest).length < bound) :
    ∃ s, Parse.group bound ⟨used ++ rest, x⟩ = .ok () s ∧ s.sink = x.tell (g.events false) := by
  have hnext : nextKind rest ∈ afterGroup := by
    rw [hend]
    decide
  have hused : used.length < bound := by
    simp only [List.length_append] at hbound
    omega
  obtain ⟨y, hy, hbody⟩ := groupBody (nestedGroup (Nat.le_refl bound)) h hnext
    (Nat.le_of_lt hbound) hused true false
  have hread : Parse.tryKinds [.endOfInput] ⟨rest, y⟩ =
      .ok (some (TokenSource.peek rest)) ⟨rest.tail, y⟩ :=
    tryRead_some rfl (by simpa [TokenSpec.accepts] using hend) y
  have hexpect : Parse.expectKinds [.endOfInput] ⟨rest, y⟩ =
      .ok (TokenSource.peek rest) ⟨rest.tail, y⟩ :=
    bind_ok hread
  have hclose : Parse.closeGroup true ⟨rest, y⟩ = .ok () ⟨rest.tail, y.tell [.close]⟩ :=
    (bind_ok hexpect).trans (emit_eq _)
  exact ⟨_, hbody.trans hclose, hy⟩

end TreeQuery.Parse.Complete
