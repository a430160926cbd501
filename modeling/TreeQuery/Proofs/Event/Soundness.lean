import TreeQuery.Proofs.Event.Replay
import TreeQuery.Proofs.Event.Grammar

/-!
# What is read is written by a tree

Where plain reading succeeds, the tokens that it has used are those of a tree, and it has told the
events of that tree.
-/

set_option autoImplicit false

namespace TreeQuery.Parse

theorem bind_eq_ok {S α β : Type} {p : EStateM SelectorError S α}
    {f : α → EStateM SelectorError S β} {s s'' : S} {b : β} (h : (p >>= f) s = .ok b s'') :
    ∃ a s', p s = .ok a s' ∧ f a s' = .ok b s'' := by
  cases hp : p s with
  | ok a s' => exact ⟨a, s', rfl, (bind_ok hp).symm.trans h⟩
  | error e s' =>
    rw [bind_error hp] at h
    contradiction

namespace Sound

variable {ts : List Token} {x : Transcript} {s : ParseState (List Token) Transcript}

/-! ## Single tokens -/

theorem emit {e : Event} (h : Parse.emit e ⟨ts, x⟩ = .ok () s) : s = ⟨ts, x.tell [e]⟩ := by
  cases h
  rfl

theorem tryKinds {kinds : List Token.Kind} {t? : Option Token} (hend : .endOfInput ∉ kinds)
    (h : Parse.tryKinds kinds ⟨ts, x⟩ = .ok t? s) :
    (t? = none ∧ s = ⟨ts, x⟩) ∨
      ∃ t rest, ts = t :: rest ∧ t.kind ∈ kinds ∧ t? = some t ∧ s = ⟨rest, x⟩ := by
  by_cases hkind : (TokenSource.peek ts).kind ∈ kinds
  · have hread : Parse.tryKinds kinds ⟨ts, x⟩ = .ok (some (TokenSource.peek ts)) ⟨ts.tail, x⟩ :=
      tryRead_some rfl (by simpa [TokenSpec.accepts] using hkind) x
    obtain ⟨rfl, rfl⟩ := EStateM.Result.ok.inj (hread.symm.trans h)
    cases ts with
    | nil => exact absurd hkind hend
    | cons t rest => exact .inr ⟨t, rest, rfl, hkind, rfl, rfl⟩
  · have hread : Parse.tryKinds kinds ⟨ts, x⟩ = .ok none ⟨ts, x⟩ :=
      tryRead_none rfl (by simpa [TokenSpec.accepts] using hkind) x
    obtain ⟨rfl, rfl⟩ := EStateM.Result.ok.inj (hread.symm.trans h)
    exact .inl ⟨rfl, rfl⟩

theorem expectKinds {kinds : List Token.Kind} {t : Token} (hend : .endOfInput ∉ kinds)
    (h : Parse.expectKinds kinds ⟨ts, x⟩ = .ok t s) :
    ∃ rest, ts = t :: rest ∧ t.kind ∈ kinds ∧ s = ⟨rest, x⟩ := by
  obtain ⟨t?, s₁, htry, h⟩ := bind_eq_ok h
  rcases tryKinds hend htry with ⟨rfl, rfl⟩ | ⟨t, rest, rfl, hkind, rfl, rfl⟩
  · cases h
  · cases h
    exact ⟨rest, rfl, hkind, rfl⟩

theorem skip {k : Token.Kind} {b : Bool} (hend : k ≠ .endOfInput)
    (h : Parse.skip k ⟨ts, x⟩ = .ok b s) :
    ∃ used rest, ts = used ++ rest ∧ Optional k used ∧ (b = true ↔ used ≠ []) ∧
      s = ⟨rest, x⟩ := by
  obtain ⟨t?, s₁, htry, h⟩ := bind_eq_ok h
  rcases tryKinds (by simpa using hend.symm) htry with
    ⟨rfl, rfl⟩ | ⟨t, rest, rfl, hkind, rfl, rfl⟩
  · cases h
    exact ⟨[], ts, rfl, .absent, by simp, rfl⟩
  · cases h
    exact ⟨[t], rest, rfl, .present (by simpa using hkind), by simp, rfl⟩

theorem skip_true {k : Token.Kind} (hend : k ≠ .endOfInput)
    (h : Parse.skip k ⟨ts, x⟩ = .ok true s) :
    ∃ t rest, ts = t :: rest ∧ t.kind = k ∧ s = ⟨rest, x⟩ := by
  obtain ⟨used, rest, rfl, hused, hb, rfl⟩ := skip hend h
  cases hused with
  | absent => simp at hb
  | present hkind => exact ⟨_, rest, rfl, hkind, rfl⟩

theorem skip_false {k : Token.Kind} (hend : k ≠ .endOfInput)
    (h : Parse.skip k ⟨ts, x⟩ = .ok false s) : s = ⟨ts, x⟩ := by
  obtain ⟨used, rest, rfl, hused, hb, rfl⟩ := skip hend h
  cases hused with
  | absent => rfl
  | present hkind => simp at hb

/-! ## Parts without nested groups -/

theorem combinator {b : Bool} (h : Parse.combinator ⟨ts, x⟩ = .ok b s) :
    (b = false ∧ s = ⟨ts, x⟩) ∨ ∃ (k : Combinator) (used rest : List Token), b = true ∧
      ts = used ++ rest ∧ k.Written used ∧ s = ⟨rest, x.tell [.combinator k]⟩ := by
  obtain ⟨t?, s₁, htry, h⟩ := bind_eq_ok h
  rcases tryKinds (by decide) htry with ⟨rfl, rfl⟩ | ⟨t, rest, rfl, hkind, rfl, rfl⟩
  · cases h
    exact .inl ⟨rfl, rfl⟩
  have htail {k : Combinator} (hwritten : ∀ {blank}, Blank blank → k.Written (t :: blank))
      (h : (do
        Parse.emit (.combinator k)
        let _ ← Parse.skip .whiteSpace
        return true : Parse (List Token) Transcript Bool) ⟨rest, x⟩ = .ok b s) :
      b = true ∧ ∃ used rest', rest = used ++ rest' ∧ k.Written (t :: used) ∧
        s = ⟨rest', x.tell [.combinator k]⟩ := by
    obtain ⟨_, s₂, htold, h⟩ := bind_eq_ok h
    obtain rfl := emit htold
    obtain ⟨b', s₃, hskip, h⟩ := bind_eq_ok h
    obtain ⟨used, rest, rfl, hused, -, rfl⟩ := skip (by decide) hskip
    cases h
    exact ⟨rfl, used, rest, rfl, hwritten hused, rfl⟩
  right
  simp only [List.mem_cons, List.not_mem_nil, or_false] at hkind
  dsimp only at h
  rcases hkind with hkind | hkind | hkind | hkind <;> rw [hkind] at h
  · obtain ⟨rfl, used, rest', rfl, hwritten, rfl⟩ := htail (.adjacent hkind) h
    exact ⟨.adjacent, t :: used, rest', rfl, rfl, hwritten, rfl⟩
  · obtain ⟨rfl, used, rest', rfl, hwritten, rfl⟩ := htail (.child hkind) h
    exact ⟨.child, t :: used, rest', rfl, rfl, hwritten, rfl⟩
  · obtain ⟨rfl, used, rest', rfl, hwritten, rfl⟩ := htail (.sibling hkind) h
    exact ⟨.sibling, t :: used, rest', rfl, rfl, hwritten, rfl⟩
  · cases h
    exact ⟨.descendant, [t], rest, rfl, rfl, .blank hkind, rfl⟩

theorem namespacePart {ns : Namespace} (h : Parse.namespacePart ⟨ts, x⟩ = .ok ns s) :
    ∃ used rest, ts = used ++ rest ∧ ns.Written used ∧ s = ⟨rest, x⟩ := by
  obtain ⟨t?, s₁, htry, h⟩ := bind_eq_ok h
  rcases tryKinds (by decide) htry with ⟨rfl, rfl⟩ | ⟨t, rest, rfl, hkind, rfl, rfl⟩
  · cases h
    exact ⟨[], ts, rfl, .unstated, rfl⟩
  dsimp only at h
  by_cases hpipe : t.kind = .pipe
  · rw [if_pos hpipe] at h
    cases h
    exact ⟨[t], rest, rfl, .empty hpipe, rfl⟩
  rw [if_neg hpipe] at h
  obtain ⟨b, s₂, hskip, h⟩ := bind_eq_ok h
  cases b with
  | false =>
    obtain rfl := skip_false (by decide) hskip
    cases h
    exact ⟨[], t :: rest, rfl, .unstated, rfl⟩
  | true =>
    obtain ⟨bar, rest, rfl, hbar, rfl⟩ := skip_true (by decide) hskip
    simp only [if_true] at h
    cases h
    refine ⟨[t, bar], rest, rfl, ?_, rfl⟩
    split
    · next hident => exact .named hident hbar
    · next hident =>
      have hstar : t.kind = .star := by grind
      exact .any hstar hbar

theorem typeOrUniversal (h : Parse.typeOrUniversal ⟨ts, x⟩ = .ok () s) :
    ∃ (head : CompoundHead) (used rest : List Token), ts = used ++ rest ∧ head.Written used ∧
      head ≠ .implied ∧ s = ⟨rest, x.tell [head.event]⟩ := by
  obtain ⟨ns, s₁, hns, h⟩ := bind_eq_ok h
  obtain ⟨part, rest, rfl, hpart, rfl⟩ := namespacePart hns
  obtain ⟨t, s₂, ht, h⟩ := bind_eq_ok h
  obtain ⟨rest, rfl, hkind, rfl⟩ := expectKinds (by decide) ht
  split at h
  · next hident =>
    obtain rfl := emit h
    exact ⟨.type ns t.text, part ++ [t], rest, by simp, .type hpart hident, by simp, rfl⟩
  · next hident =>
    obtain rfl := emit h
    have hstar : t.kind = .star := by grind
    exact ⟨.universal ns, part ++ [t], rest, by simp, .universal hpart hstar, by simp, rfl⟩

theorem attributeTest (h : Parse.attributeTest ⟨ts, x⟩ = .ok () s) :
    ∃ (test : SimpleTest) (used rest : List Token), ts = used ++ rest ∧
      AttributeWritten test used ∧ s = ⟨rest, x.tell [test.event]⟩ := by
  obtain ⟨_, s₁, hskip, h⟩ := bind_eq_ok h
  obtain ⟨blank₁, rest, rfl, hblank₁, -, rfl⟩ := skip (by decide) hskip
  obtain ⟨ns, s₁, hns, h⟩ := bind_eq_ok h
  obtain ⟨part, rest, rfl, hpart, rfl⟩ := namespacePart hns
  obtain ⟨name, s₂, hname, h⟩ := bind_eq_ok h
  obtain ⟨rest, rfl, hnameKind, rfl⟩ := expectKinds (by decide) hname
  obtain ⟨_, s₁, hskip, h⟩ := bind_eq_ok h
  obtain ⟨blank₂, rest, rfl, hblank₂, -, rfl⟩ := skip (by decide) hskip
  obtain ⟨sign?, s₁, hsign, h⟩ := bind_eq_ok h
  dsimp only at h
  rcases tryKinds (by decide) hsign with ⟨rfl, rfl⟩ | ⟨sign, rest, rfl, hkind, rfl, rfl⟩
  · obtain ⟨_, s₂, htold, h⟩ := bind_eq_ok h
    obtain rfl := emit htold
    obtain ⟨close, s₃, hclose, h⟩ := bind_eq_ok h
    obtain ⟨rest, rfl, hcloseKind, rfl⟩ := expectKinds (by decide) hclose
    cases h
    refine ⟨.hasAttribute ns name.text, _, rest, ?_, .has hblank₁ hpart
      (by simpa using hnameKind) hblank₂ (by simpa using hcloseKind), rfl⟩
    simp
  obtain ⟨comparison, -, hcomparison⟩ := List.mem_map.1 hkind
  have hof : (some sign).bind (Comparison.ofKind? ·.kind) = some comparison := by
    simp [← hcomparison, Comparison.ofKind?_kind]
  rw [hof] at h
  obtain ⟨_, s₁, hskip, h⟩ := bind_eq_ok h
  obtain ⟨blank₃, rest, rfl, hblank₃, -, rfl⟩ := skip (by decide) hskip
  obtain ⟨value, s₂, hvalue, h⟩ := bind_eq_ok h
  obtain ⟨rest, rfl, hvalueKind, rfl⟩ := expectKinds (by decide) hvalue
  obtain ⟨_, s₁, hskip, h⟩ := bind_eq_ok h
  obtain ⟨blank₄, rest, rfl, hblank₄, -, rfl⟩ := skip (by decide) hskip
  obtain ⟨_, s₂, htold, h⟩ := bind_eq_ok h
  obtain rfl := emit htold
  obtain ⟨close, s₃, hclose, h⟩ := bind_eq_ok h
  obtain ⟨rest, rfl, hcloseKind, rfl⟩ := expectKinds (by decide) hclose
  cases h
  refine ⟨.compareAttribute ns name.text comparison value.text, _, rest, ?_, .compare hblank₁
    hpart (by simpa using hnameKind) hblank₂ hcomparison.symm hblank₃ (by simpa using hvalueKind)
    hblank₄ (by simpa using hcloseKind), rfl⟩
  simp

theorem integerOf {t : Token} {n : Int} (h : Parse.integerOf t ⟨ts, x⟩ = .ok n s) :
    int32OfText? t.text = some n ∧ s = ⟨ts, x⟩ := by
  unfold Parse.integerOf at h
  cases hn : int32OfText? t.text <;> rw [hn] at h <;> cases h
  exact ⟨rfl, rfl⟩

theorem integer {n : Int} (h : Parse.integer ⟨ts, x⟩ = .ok n s) :
    ∃ used rest, ts = used ++ rest ∧ IntegerWritten n used ∧ s = ⟨rest, x⟩ := by
  obtain ⟨t, s₁, ht, h⟩ := bind_eq_ok h
  obtain ⟨rest, rfl, hkind, rfl⟩ := expectKinds (by decide) ht
  obtain ⟨hn, rfl⟩ := integerOf h
  exact ⟨[t], rest, rfl, .mk (by simpa using hkind) hn, rfl⟩

theorem string {t : Token} (h : Parse.expectKinds [.string] ⟨ts, x⟩ = .ok t s) :
    ∃ rest, ts = [t] ++ rest ∧ StringWritten t.text [t] ∧ s = ⟨rest, x⟩ := by
  obtain ⟨rest, rfl, hkind, rfl⟩ := expectKinds (by decide) h
  exact ⟨rest, rfl, .mk (by simpa using hkind) rfl, rfl⟩

theorem position {function : String} {n : Int}
    (h : Parse.position function ⟨ts, x⟩ = .ok n s) :
    ∃ sign digits rest, ts = sign ++ digits ++ rest ∧ Optional .plus sign ∧
      IntegerWritten n digits ∧ s = ⟨rest, x⟩ := by
  obtain ⟨b, s₁, hskip, h⟩ := bind_eq_ok h
  obtain ⟨sign, rest, rfl, hsign, -, rfl⟩ := skip (by decide) hskip
  obtain ⟨t, s₂, ht, h⟩ := bind_eq_ok h
  obtain ⟨rest, rfl, hkind, rfl⟩ := expectKinds (by decide) ht
  dsimp only at h
  by_cases hident : t.kind = .ident
  · rw [if_pos hident] at h
    split at h <;> cases h
  rw [if_neg hident] at h
  obtain ⟨next, s₃, hnext, h⟩ := bind_eq_ok h
  cases hnext
  dsimp only at h
  split at h
  · cases h
  obtain ⟨hn, rfl⟩ := integerOf h
  have hinteger : t.kind = .integer := by grind
  exact ⟨sign, [t], rest, by simp, hsign, .mk hinteger hn, rfl⟩

theorem separator (h : Parse.separator ⟨ts, x⟩ = .ok () s) :
    ∃ used rest, ts = used ++ rest ∧ Separator used ∧ s = ⟨rest, x⟩ := by
  obtain ⟨semicolon, s₁, hsemicolon, h⟩ := bind_eq_ok h
  obtain ⟨rest, rfl, hkind, rfl⟩ := expectKinds (by decide) hsemicolon
  obtain ⟨blank, s₁, hblank, h⟩ := bind_eq_ok h
  obtain ⟨rest, rfl, hkind', rfl⟩ := expectKinds (by decide) hblank
  cases h
  exact ⟨[semicolon, blank], rest, rfl, .mk (by simpa using hkind) (by simpa using hkind'), rfl⟩

/-! ## Parts over nested groups -/

/-- Nested groups are read as trees where fewer than `n` tokens are left. -/
def NestedGroups (n : Nat) (nested : Bool → Parse (List Token) Transcript Unit) : Prop :=
  ∀ {anchored : Bool} {ts : List Token} {x : Transcript} {s : ParseState (List Token) Transcript},
    ts.length < n → nested anchored ⟨ts, x⟩ = .ok () s →
      ∃ (g : GroupTree) (used rest : List Token), ts = used ++ rest ∧
        g.Written x.signature? used ∧ s = ⟨rest, x.tell (.nest :: g.events anchored)⟩

section Nested

variable {n : Nat} {nested : Bool → Parse (List Token) Transcript Unit}

theorem customArgument (hnested : NestedGroups n nested) (hn : ts.length < n)
    {type : ArgumentType} {a : EventArgument}
    (h : Parse.customArgument nested type ⟨ts, x⟩ = .ok a s) :
    ∃ (tree : ArgumentTree) (used rest : List Token), ts = used ++ rest ∧
      tree.Written x.signature? type used ∧ a = tree.argument ∧
      s = ⟨rest, x.tell tree.events⟩ := by
  cases type with
  | string =>
    obtain ⟨t, s₁, ht, h⟩ := bind_eq_ok h
    obtain ⟨rest, rfl, hwritten, rfl⟩ := string ht
    cases h
    refine ⟨.string t.text, [t], rest, rfl, .string hwritten, rfl, ?_⟩
    simp [ArgumentTree.events]
  | integer =>
    obtain ⟨k, s₁, hk, h⟩ := bind_eq_ok h
    obtain ⟨used, rest, rfl, hused, rfl⟩ := integer hk
    cases h
    refine ⟨.integer k, used, rest, rfl, .integer hused, rfl, ?_⟩
    simp [ArgumentTree.events]
  | subSelector =>
    obtain ⟨_, s₁, hgroup, h⟩ := bind_eq_ok h
    obtain ⟨g, used, rest, rfl, hused, rfl⟩ := hnested hn hgroup
    cases h
    exact ⟨.group g, used, rest, rfl, .group hused, rfl, rfl⟩

theorem moreCustomArguments (hnested : NestedGroups n nested) (hn : ts.length < n)
    {types : List ArgumentType} {as : List EventArgument}
    (h : Parse.moreCustomArguments nested types ⟨ts, x⟩ = .ok as s) :
    ∃ (trees : List ArgumentTree) (used rest : List Token), ts = used ++ rest ∧
      MoreArgumentsWritten x.signature? types trees used ∧ as = trees.map ArgumentTree.argument ∧
      s = ⟨rest, x.tell (ArgumentTree.listEvents trees)⟩ := by
  induction types generalizing ts x as s with
  | nil =>
    cases h
    refine ⟨[], [], ts, rfl, .nil, rfl, ?_⟩
    simp [ArgumentTree.listEvents]
  | cons type types ih =>
    obtain ⟨_, s₁, hseparator, h⟩ := bind_eq_ok h
    obtain ⟨between, rest, rfl, hbetween, rfl⟩ := separator hseparator
    obtain ⟨a, s₂, ha, h⟩ := bind_eq_ok h
    simp only [List.length_append] at hn
    obtain ⟨tree, used, rest, rfl, hused, rfl, rfl⟩ := customArgument hnested (by omega) ha
    obtain ⟨as, s₃, has, h⟩ := bind_eq_ok h
    simp only [List.length_append] at hn
    obtain ⟨trees, used', rest, rfl, hused', rfl, rfl⟩ := ih (by omega) has
    cases h
    refine ⟨tree :: trees, _, rest, ?_, .cons hbetween hused hused', rfl, ?_⟩
    · simp
    · simp [ArgumentTree.listEvents]

theorem customArguments (hnested : NestedGroups n nested) (hn : ts.length < n)
    {types : List ArgumentType} {as : List EventArgument}
    (h : Parse.customArguments nested types ⟨ts, x⟩ = .ok as s) :
    ∃ (trees : List ArgumentTree) (used rest : List Token), ts = used ++ rest ∧
      ArgumentsWritten x.signature? types trees used ∧ as = trees.map ArgumentTree.argument ∧
      s = ⟨rest, x.tell (ArgumentTree.listEvents trees)⟩ := by
  cases types with
  | nil =>
    cases h
    refine ⟨[], [], ts, rfl, .nil, rfl, ?_⟩
    simp [ArgumentTree.listEvents]
  | cons type types =>
    obtain ⟨a, s₁, ha, h⟩ := bind_eq_ok h
    obtain ⟨tree, used, rest, rfl, hused, rfl, rfl⟩ := customArgument hnested hn ha
    obtain ⟨as, s₂, has, h⟩ := bind_eq_ok h
    simp only [List.length_append] at hn
    obtain ⟨trees, used', rest, rfl, hused', rfl, rfl⟩ :=
      moreCustomArguments hnested (by omega) has
    cases h
    refine ⟨tree :: trees, _, rest, ?_, .cons hused hused', rfl, ?_⟩
    · simp
    · simp [ArgumentTree.listEvents]

theorem custom (hnested : NestedGroups n nested) (hn : ts.length < n) {name : String}
    {functional : Bool} (h : Parse.custom nested name functional ⟨ts, x⟩ = .ok () s) :
    ∃ (types : List ArgumentType) (trees : List ArgumentTree) (used rest : List Token),
      ts = used ++ rest ∧ x.signature? name = some types ∧ (functional = true ∨ types = []) ∧
      ArgumentsWritten x.signature? types trees used ∧
      s = ⟨rest, x.tell (ModifierTree.custom name trees).events⟩ := by
  obtain ⟨types?, s₁, htypes, h⟩ := bind_eq_ok h
  cases htypes
  cases htypes : EventSink.signature? x name with
  | none =>
    simp only [htypes] at h
    cases h
  | some types =>
    simp only [htypes] at h
    by_cases hmissing : (!functional && !types.isEmpty) = true
    · rw [if_pos hmissing] at h
      cases h
    rw [if_neg hmissing] at h
    obtain ⟨as, s₂, has, h⟩ := bind_eq_ok h
    obtain ⟨trees, used, rest, rfl, hused, rfl, rfl⟩ := customArguments hnested hn has
    obtain rfl := emit h
    refine ⟨types, trees, used, rest, rfl, htypes, ?_, hused, ?_⟩
    · cases functional <;> simp_all
    · simp [ModifierTree.events]

theorem groupPseudo (hnested : NestedGroups n nested) (hn : ts.length < n)
    {pseudo : GroupPseudo} (h : Parse.groupPseudo nested pseudo ⟨ts, x⟩ = .ok () s) :
    ∃ (m : ModifierTree) (body rest : List Token), ts = body ++ rest ∧
      (∀ {call}, FunctionCall pseudo.name body call → m.Written x.signature? call) ∧
      s = ⟨rest, x.tell m.events⟩ := by
  obtain ⟨_, s₁, hgroup, h⟩ := bind_eq_ok h
  obtain ⟨g, used, rest, rfl, hused, rfl⟩ := hnested hn hgroup
  by_cases hpseudo : pseudo = .between
  · subst hpseudo
    rw [if_pos rfl] at h
    obtain ⟨_, s₂, hseparator, h⟩ := bind_eq_ok h
    obtain ⟨between, rest, rfl, hbetween, rfl⟩ := separator hseparator
    obtain ⟨_, s₃, hgroup', h⟩ := bind_eq_ok h
    simp only [List.length_append] at hn
    obtain ⟨g', used', rest, rfl, hused', rfl⟩ := hnested (by omega) hgroup'
    obtain rfl := emit h
    refine ⟨.between g g', used ++ between ++ used', rest, by simp,
      fun hcall => .between hused hbetween hused' hcall, ?_⟩
    simp [ModifierTree.events, GroupPseudo.anchorsArgument]
  · rw [if_neg hpseudo] at h
    obtain rfl := emit h
    refine ⟨.grouped pseudo hpseudo g, used, rest, rfl, fun hcall => .grouped hused hcall, ?_⟩
    simp [ModifierTree.events]

theorem groupPseudo_name {name : String} {pseudo : GroupPseudo}
    (h : GroupPseudo.ofName? name = some pseudo) : pseudo.name = name := by
  simpa using List.find?_some h

theorem functionArguments (hnested : NestedGroups n nested) (hn : ts.length < n) {name : String}
    (h : Parse.functionArguments nested name ⟨ts, x⟩ = .ok () s) :
    ∃ (m : ModifierTree) (body rest : List Token), ts = body ++ rest ∧
      (∀ {call}, FunctionCall name body call → m.Written x.signature? call) ∧
      s = ⟨rest, x.tell m.events⟩ := by
  unfold Parse.functionArguments at h
  by_cases hindex : name = "eq"
  · rw [if_pos hindex] at h
    obtain ⟨k, s₁, hk, h⟩ := bind_eq_ok h
    obtain ⟨used, rest, rfl, hused, rfl⟩ := integer hk
    obtain rfl := emit h
    subst hindex
    exact ⟨.test (.index k), used, rest, rfl, fun hcall => .test (.index hused hcall), rfl⟩
  rw [if_neg hindex] at h
  by_cases hnth : name = "nth-child"
  · rw [if_pos hnth] at h
    obtain ⟨k, s₁, hk, h⟩ := bind_eq_ok h
    obtain ⟨sign, used, rest, rfl, hsign, hused, rfl⟩ := position hk
    obtain rfl := emit h
    subst hnth
    exact ⟨.test (.nthChild k), sign ++ used, rest, rfl,
      fun hcall => .test (.nthChild hsign hused hcall), rfl⟩
  rw [if_neg hnth] at h
  by_cases hnthLast : name = "nth-last-child"
  · rw [if_pos hnthLast] at h
    obtain ⟨k, s₁, hk, h⟩ := bind_eq_ok h
    obtain ⟨sign, used, rest, rfl, hsign, hused, rfl⟩ := position hk
    obtain rfl := emit h
    subst hnthLast
    exact ⟨.test (.nthLastChild k), sign ++ used, rest, rfl,
      fun hcall => .test (.nthLastChild hsign hused hcall), rfl⟩
  rw [if_neg hnthLast] at h
  by_cases hcontains : name = "contains"
  · rw [if_pos hcontains] at h
    obtain ⟨t, s₁, ht, h⟩ := bind_eq_ok h
    obtain ⟨rest, rfl, hwritten, rfl⟩ := string ht
    obtain rfl := emit h
    subst hcontains
    exact ⟨.test (.containsText t.text), [t], rest, rfl,
      fun hcall => .test (.containsText hwritten hcall), rfl⟩
  rw [if_neg hcontains] at h
  by_cases hmatches : name = "matches"
  · rw [if_pos hmatches] at h
    obtain ⟨t, s₁, ht, h⟩ := bind_eq_ok h
    obtain ⟨rest, rfl, hwritten, rfl⟩ := string ht
    obtain rfl := emit h
    subst hmatches
    exact ⟨.test (.matchesText t.text), [t], rest, rfl,
      fun hcall => .test (.matchesText hwritten hcall), rfl⟩
  rw [if_neg hmatches] at h
  cases hpseudo : GroupPseudo.ofName? name with
  | some pseudo =>
    rw [hpseudo] at h
    obtain rfl := groupPseudo_name hpseudo
    exact groupPseudo hnested hn h
  | none =>
    rw [hpseudo] at h
    obtain ⟨types, trees, used, rest, rfl, htypes, -, hused, rfl⟩ := custom hnested hn h
    have hbuiltin : name ∉ builtinFunctions := by
      simp only [builtinFunctions, List.mem_append, List.mem_map, not_or]
      refine ⟨by simp [hindex, hnth, hnthLast, hcontains, hmatches], ?_⟩
      rintro ⟨pseudo, hmem, rfl⟩
      simpa using List.find?_eq_none.1 hpseudo pseudo hmem
    exact ⟨.custom name trees, used, rest, rfl,
      fun hcall => .function hbuiltin htypes hused hcall, rfl⟩

theorem pseudoClass (hnested : NestedGroups n nested) (hn : ts.length < n) {colon : Token}
    (hcolon : colon.kind = .colon) (h : Parse.pseudoClass nested ⟨ts, x⟩ = .ok () s) :
    ∃ (m : ModifierTree) (used rest : List Token), ts = used ++ rest ∧
      m.Written x.signature? (colon :: used) ∧ s = ⟨rest, x.tell m.events⟩ := by
  obtain ⟨t?, s₁, htry, h⟩ := bind_eq_ok h
  rcases tryKinds (by decide) htry with ⟨rfl, rfl⟩ | ⟨function, rest, rfl, hkind, rfl, rfl⟩
  · obtain ⟨name, s₁, hname, h⟩ := bind_eq_ok h
    obtain ⟨rest, rfl, hident, rfl⟩ := expectKinds (by decide) hname
    cases hpseudo : PlainPseudo.ofName? name.text with
    | some pseudo =>
      rw [hpseudo] at h
      obtain rfl := emit h
      exact ⟨.test (.plain pseudo), [name], rest, rfl,
        .test (.plain hcolon (by simpa using hident) hpseudo), rfl⟩
    | none =>
      rw [hpseudo] at h
      simp only [List.length_cons] at hn
      obtain ⟨types, trees, used, rest, rfl, htypes, hdeclared, hused, rfl⟩ :=
        custom hnested (by omega) h
      have hnone : types = [] := by simpa using hdeclared
      subst hnone
      cases hused
      exact ⟨.custom name.text [], [name], rest, rfl,
        .name hcolon (by simpa using hident) hpseudo htypes, rfl⟩
  · obtain ⟨_, s₁, hskip, h⟩ := bind_eq_ok h
    obtain ⟨blank, rest, rfl, hblank, -, rfl⟩ := skip (by decide) hskip
    obtain ⟨_, s₂, hbody, h⟩ := bind_eq_ok h
    simp only [List.length_cons, List.length_append] at hn
    obtain ⟨m, body, rest, rfl, hm, rfl⟩ := functionArguments hnested (by omega) hbody
    obtain ⟨close, s₃, hclose, h⟩ := bind_eq_ok h
    obtain ⟨rest, rfl, hcloseKind, rfl⟩ := expectKinds (by decide) hclose
    cases h
    refine ⟨m, _, rest, ?_, hm (.mk hcolon (by simpa using hkind) rfl hblank
      (by simpa using hcloseKind)), rfl⟩
    simp

theorem modifier (hnested : NestedGroups n nested) (hn : ts.length < n) {t : Token}
    (hkind : t.kind ∈ [Token.Kind.hash, .dot, .leftBracket, .colon])
    (h : Parse.modifier nested t ⟨ts, x⟩ = .ok () s) :
    ∃ (m : ModifierTree) (used rest : List Token), ts = used ++ rest ∧
      m.Written x.signature? (t :: used) ∧ s = ⟨rest, x.tell m.events⟩ := by
  simp only [List.mem_cons, List.not_mem_nil, or_false] at hkind
  unfold Parse.modifier at h
  rcases hkind with hkind | hkind | hkind | hkind <;> rw [hkind] at h
  · obtain rfl := emit h
    exact ⟨.test (.id t.text), [], ts, rfl, .test (.id hkind), rfl⟩
  · obtain ⟨name, s₁, hname, h⟩ := bind_eq_ok h
    obtain ⟨rest, rfl, hident, rfl⟩ := expectKinds (by decide) hname
    obtain rfl := emit h
    exact ⟨.test (.className name.text), [name], rest, rfl,
      .test (.className hkind (by simpa using hident)), rfl⟩
  · obtain ⟨test, used, rest, rfl, hused, rfl⟩ := attributeTest h
    exact ⟨.test test, used, rest, rfl, .test (.bracketed hkind hused), rfl⟩
  · exact pseudoClass hnested hn hkind h

theorem repeatModifiers (hnested : NestedGroups n nested) (hn : ts.length ≤ n) {bound : Nat}
    (h : Parse.repeatWhile (Parse.tryModifier nested) bound ⟨ts, x⟩ = .ok () s) :
    ∃ (ms : List ModifierTree) (used rest : List Token), ts = used ++ rest ∧
      ModifiersWritten x.signature? ms used ∧ s = ⟨rest, x.tell (ModifierTree.listEvents ms)⟩ := by
  induction bound generalizing ts x with
  | zero =>
    cases h
    refine ⟨[], [], ts, rfl, .nil, ?_⟩
    simp [ModifierTree.listEvents]
  | succ bound ih =>
    obtain ⟨again, s₁, hbody, h⟩ := bind_eq_ok h
    obtain ⟨t?, s₂, htry, hbody⟩ := bind_eq_ok hbody
    rcases tryKinds (by decide) htry with ⟨rfl, rfl⟩ | ⟨t, rest, rfl, hkind, rfl, rfl⟩
    · cases hbody
      cases h
      refine ⟨[], [], ts, rfl, .nil, ?_⟩
      simp [ModifierTree.listEvents]
    · obtain ⟨_, s₂, hm, hbody⟩ := bind_eq_ok hbody
      simp only [List.length_cons] at hn
      obtain ⟨m, used, rest, rfl, hused, rfl⟩ := modifier hnested (by omega) hkind hm
      cases hbody
      simp only [List.length_append] at hn
      obtain ⟨ms, used', rest, rfl, hused', rfl⟩ := ih (by omega) h
      refine ⟨m :: ms, _, rest, ?_, .cons hused hused', ?_⟩
      · simp
      · simp [ModifierTree.listEvents]

theorem compound (hnested : NestedGroups n nested) (hn : ts.length ≤ n) {bound : Nat}
    (h : Parse.compound nested bound ⟨ts, x⟩ = .ok () s) :
    ∃ (c : CompoundTree) (used rest : List Token), ts = used ++ rest ∧
      c.Written x.signature? used ∧ s = ⟨rest, x.tell c.events⟩ := by
  obtain ⟨t?, s₁, htry, h⟩ := bind_eq_ok h
  rcases tryKinds (by decide) htry with ⟨rfl, rfl⟩ | ⟨t, rest, rfl, hkind, rfl, rfl⟩
  · obtain ⟨_, s₁, hhead, h⟩ := bind_eq_ok h
    obtain ⟨head, used, rest, rfl, hused, hstated, rfl⟩ := typeOrUniversal hhead
    simp only [List.length_append] at hn
    obtain ⟨ms, used', rest, rfl, hused', rfl⟩ := repeatModifiers hnested (by omega) h
    refine ⟨.mk head ms, _, rest, ?_, .mk hused hused' fun h => absurd h hstated, ?_⟩
    · simp
    · simp [CompoundTree.events]
  · obtain ⟨_, s₁, htold, h⟩ := bind_eq_ok h
    obtain rfl := emit htold
    obtain ⟨_, s₂, hm, h⟩ := bind_eq_ok h
    simp only [List.length_cons] at hn
    obtain ⟨m, used, rest, rfl, hused, rfl⟩ := modifier hnested (by omega) hkind hm
    simp only [List.length_append] at hn
    obtain ⟨ms, used', rest, rfl, hused', rfl⟩ := repeatModifiers hnested (by omega) h
    refine ⟨.mk .implied (m :: ms), _, rest, ?_, .mk .implied (.cons hused hused') (by simp), ?_⟩
    · simp
    · simp [CompoundTree.events, ModifierTree.listEvents, CompoundHead.event]

theorem repeatLinks (hnested : NestedGroups n nested) (hn : ts.length ≤ n) {inner bound : Nat}
    (h : Parse.repeatWhile (Parse.link nested inner) bound ⟨ts, x⟩ = .ok () s) :
    ∃ (es : List Event) (used rest : List Token), ts = used ++ rest ∧ s = ⟨rest, x.tell es⟩ ∧
      ∀ {c : CompoundTree} {first : List Token}, c.Written x.signature? first →
        ∃ a : AlternativeTree, a.Written x.signature? (first ++ used) ∧
          a.events = c.events ++ es := by
  induction bound generalizing ts x with
  | zero =>
    cases h
    refine ⟨[], [], ts, rfl, by simp, fun {c first} hc => ⟨.last c, ?_, ?_⟩⟩
    · simpa using AlternativeTree.Written.last hc
    · simp [AlternativeTree.events]
  | succ bound ih =>
    obtain ⟨again, s₁, hbody, h⟩ := bind_eq_ok h
    obtain ⟨linked, s₂, hcombinator, hbody⟩ := bind_eq_ok hbody
    rcases combinator hcombinator with ⟨rfl, rfl⟩ | ⟨k, sign, rest, rfl, rfl, hsign, rfl⟩
    · cases hbody
      cases h
      refine ⟨[], [], ts, rfl, by simp, fun {c first} hc => ⟨.last c, ?_, ?_⟩⟩
      · simpa using AlternativeTree.Written.last hc
      · simp [AlternativeTree.events]
    · obtain ⟨_, s₂, hcompound, hbody⟩ := bind_eq_ok hbody
      simp only [List.length_append] at hn
      obtain ⟨c', used, rest, rfl, hused, rfl⟩ := compound hnested (by omega) hcompound
      cases hbody
      simp only [List.length_append] at hn
      obtain ⟨es, used', rest, rfl, rfl, hrest⟩ := ih (by omega) h
      obtain ⟨a, ha, hevents⟩ := hrest hused
      refine ⟨.combinator k :: a.events, sign ++ used ++ used', rest, by simp, by simp [hevents],
        fun {c first} hc => ⟨.link c k a, ?_, ?_⟩⟩
      · simpa using AlternativeTree.Written.link hc hsign ha
      · simp [AlternativeTree.events]

theorem alternative (hnested : NestedGroups n nested) (hn : ts.length ≤ n) {bound : Nat}
    (h : Parse.alternative nested bound ⟨ts, x⟩ = .ok () s) :
    ∃ (a : AlternativeTree) (used rest : List Token), ts = used ++ rest ∧
      a.Written x.signature? used ∧ s = ⟨rest, x.tell (.alternative :: a.events)⟩ := by
  obtain ⟨_, s₁, htold, h⟩ := bind_eq_ok h
  obtain rfl := emit htold
  obtain ⟨_, s₂, hcompound, h⟩ := bind_eq_ok h
  obtain ⟨c, used, rest, rfl, hused, rfl⟩ := compound hnested hn hcompound
  simp only [List.length_append] at hn
  obtain ⟨es, used', rest, rfl, rfl, hrest⟩ := repeatLinks hnested (by omega) h
  obtain ⟨a, ha, hevents⟩ := hrest hused
  exact ⟨a, used ++ used', rest, by simp, ha, by simp [hevents]⟩

theorem repeatAlternatives (hnested : NestedGroups n nested) (hn : ts.length ≤ n)
    {inner bound : Nat}
    (h : Parse.repeatWhile (Parse.nextAlternative nested inner) bound ⟨ts, x⟩ = .ok () s) :
    ∃ (as : List AlternativeTree) (used rest : List Token), ts = used ++ rest ∧
      MoreAlternativesWritten x.signature? as used ∧
      s = ⟨rest, x.tell (AlternativeTree.listEvents as)⟩ := by
  induction bound generalizing ts x with
  | zero =>
    cases h
    refine ⟨[], [], ts, rfl, .nil, ?_⟩
    simp [AlternativeTree.listEvents]
  | succ bound ih =>
    obtain ⟨again, s₁, hbody, h⟩ := bind_eq_ok h
    obtain ⟨more, s₂, hcomma, hbody⟩ := bind_eq_ok hbody
    cases more with
    | false =>
      obtain rfl := skip_false (by decide) hcomma
      cases hbody
      cases h
      refine ⟨[], [], ts, rfl, .nil, ?_⟩
      simp [AlternativeTree.listEvents]
    | true =>
      obtain ⟨comma, rest, rfl, hkind, rfl⟩ := skip_true (by decide) hcomma
      simp only [if_true] at hbody
      obtain ⟨_, s₂, hskip, hbody⟩ := bind_eq_ok hbody
      obtain ⟨blank, rest, rfl, hblank, -, rfl⟩ := skip (by decide) hskip
      obtain ⟨_, s₃, halternative, hbody⟩ := bind_eq_ok hbody
      simp only [List.length_cons, List.length_append] at hn
      obtain ⟨a, used, rest, rfl, hused, rfl⟩ := alternative hnested (by omega) halternative
      cases hbody
      simp only [List.length_append] at hn
      obtain ⟨as, used', rest, rfl, hused', rfl⟩ := ih (by omega) h
      refine ⟨a :: as, _, rest, ?_, .cons hkind hblank hused hused', ?_⟩
      · simp
      · simp [AlternativeTree.listEvents]

theorem alternatives (hnested : NestedGroups n nested) (hn : ts.length ≤ n) {bound : Nat}
    (h : Parse.alternatives nested bound ⟨ts, x⟩ = .ok () s) :
    ∃ (a : AlternativeTree) (as : List AlternativeTree) (used more rest : List Token),
      ts = used ++ more ++ rest ∧ a.Written x.signature? used ∧
      MoreAlternativesWritten x.signature? as more ∧
      s = ⟨rest, x.tell (AlternativeTree.listEvents (a :: as))⟩ := by
  obtain ⟨_, s₁, halternative, h⟩ := bind_eq_ok h
  obtain ⟨a, used, rest, rfl, hused, rfl⟩ := alternative hnested hn halternative
  simp only [List.length_append] at hn
  obtain ⟨as, more, rest, rfl, hmore, rfl⟩ := repeatAlternatives hnested (by omega) h
  refine ⟨a, as, used, more, rest, by simp, hused, hmore, ?_⟩
  simp [AlternativeTree.listEvents]

/-- Where a group ends: an outermost one at the end of input. -/
def Ended (outermost : Bool) (rest : List Token) (s : ParseState (List Token) Transcript) : Prop :=
  if outermost then (TokenSource.peek rest).kind = .endOfInput else s.source = rest

theorem openGroup {anchored : Bool} (h : Parse.openGroup anchored ⟨ts, x⟩ = .ok () s) :
    ∃ (slashed : Bool) (used rest : List Token), ts = used ++ rest ∧
      (slashed = false ∧ used = [] ∨ slashed = true ∧ ∃ slash blank, used = slash :: blank ∧
        slash.kind = .slash ∧ Blank blank) ∧
      s = ⟨rest, x.tell (.init :: ((if anchored then [.anchor] else []) ++
        if slashed then [.anchor] else []))⟩ := by
  obtain ⟨_, s₁, htold, h⟩ := bind_eq_ok h
  obtain rfl := emit htold
  have hslash {x : Transcript} (h : (do
        if ← Parse.skip .slash then
          Parse.emit .anchor
          let _ ← Parse.skip .whiteSpace : Parse (List Token) Transcript Unit) ⟨ts, x⟩ =
        .ok () s) :
      ∃ (slashed : Bool) (used rest : List Token), ts = used ++ rest ∧
        (slashed = false ∧ used = [] ∨ slashed = true ∧ ∃ slash blank, used = slash :: blank ∧
          slash.kind = .slash ∧ Blank blank) ∧
        s = ⟨rest, x.tell (if slashed then [.anchor] else [])⟩ := by
    obtain ⟨slashed, s₂, hskip, h⟩ := bind_eq_ok h
    cases slashed with
    | false =>
      obtain rfl := skip_false (by decide) hskip
      cases h
      exact ⟨false, [], ts, rfl, .inl ⟨rfl, rfl⟩, by simp⟩
    | true =>
      obtain ⟨slash, rest, rfl, hkind, rfl⟩ := skip_true (by decide) hskip
      simp only [if_true] at h
      obtain ⟨_, s₂, htold, h⟩ := bind_eq_ok h
      obtain rfl := emit htold
      obtain ⟨_, s₂, hskip, h⟩ := bind_eq_ok h
      obtain ⟨blank, rest, rfl, hblank, -, rfl⟩ := skip (by decide) hskip
      cases h
      exact ⟨true, slash :: blank, rest, by simp, .inr ⟨rfl, slash, blank, rfl, hkind, hblank⟩,
        by simp⟩
  cases anchored with
  | false =>
    obtain ⟨slashed, used, rest, rfl, hused, rfl⟩ := hslash h
    exact ⟨slashed, used, rest, rfl, hused, by simp⟩
  | true =>
    obtain ⟨_, s₂, htold, h⟩ := bind_eq_ok h
    obtain rfl := emit htold
    obtain ⟨slashed, used, rest, rfl, hused, rfl⟩ := hslash h
    exact ⟨slashed, used, rest, rfl, hused, by simp⟩

theorem closeGroup {outermost : Bool} (h : Parse.closeGroup outermost ⟨ts, x⟩ = .ok () s) :
    s.sink = x.tell [.close] ∧ Ended outermost ts s := by
  cases outermost with
  | false =>
    obtain rfl := emit h
    exact ⟨rfl, rfl⟩
  | true =>
    obtain ⟨t, s₁, hend, h⟩ := bind_eq_ok h
    by_cases hkind : (TokenSource.peek ts).kind = .endOfInput
    · have hread : Parse.tryKinds [.endOfInput] ⟨ts, x⟩ =
          .ok (some (TokenSource.peek ts)) ⟨ts.tail, x⟩ :=
        tryRead_some rfl (by simpa [TokenSpec.accepts] using hkind) x
      obtain ⟨t?, s₂, htry, hend⟩ := bind_eq_ok hend
      obtain ⟨rfl, rfl⟩ := EStateM.Result.ok.inj (hread.symm.trans htry)
      cases hend
      obtain rfl := emit h
      exact ⟨rfl, hkind⟩
    · have hread : Parse.tryKinds [.endOfInput] ⟨ts, x⟩ = .ok none ⟨ts, x⟩ :=
        tryRead_none rfl (by simpa [TokenSpec.accepts] using hkind) x
      obtain ⟨t?, s₂, htry, hend⟩ := bind_eq_ok hend
      obtain ⟨rfl, rfl⟩ := EStateM.Result.ok.inj (hread.symm.trans htry)
      cases hend

theorem groupBody (hnested : NestedGroups n nested) (hn : ts.length ≤ n) {bound : Nat}
    {outermost anchored : Bool}
    (h : Parse.groupBody nested bound outermost anchored ⟨ts, x⟩ = .ok () s) :
    ∃ (g : GroupTree) (used rest : List Token), ts = used ++ rest ∧
      g.Written x.signature? used ∧ s.sink = x.tell (g.events anchored) ∧
      Ended outermost rest s := by
  obtain ⟨_, s₁, hopen, h⟩ := bind_eq_ok h
  obtain ⟨slashed, opening, rest, rfl, hopening, rfl⟩ := openGroup hopen
  obtain ⟨_, s₂, halternatives, h⟩ := bind_eq_ok h
  simp only [List.length_append] at hn
  obtain ⟨a, as, used, more, rest, rfl, hused, hmore, rfl⟩ :=
    alternatives hnested (by omega) halternatives
  obtain ⟨hsink, hended⟩ := closeGroup h
  refine ⟨.mk slashed (a :: as), opening ++ used ++ more, rest, by simp, ?_, ?_, hended⟩
  · rcases hopening with ⟨rfl, rfl⟩ | ⟨rfl, slash, blank, rfl, hkind, hblank⟩
    · simpa using GroupTree.Written.plain hused hmore
    · simpa using GroupTree.Written.slashed hkind hblank hused hmore
  · rw [hsink]
    simp [GroupTree.events]

end Nested

theorem nestedGroup (bound depth : Nat) : NestedGroups depth (Parse.nestedGroup bound depth) := by
  induction depth with
  | zero =>
    intro anchored ts x s hn
    omega
  | succ depth ih =>
    intro anchored ts x s hn h
    obtain ⟨_, s₁, htold, h⟩ := bind_eq_ok h
    obtain rfl := emit htold
    obtain ⟨g, used, rest, rfl, hused, hsink, hended⟩ := groupBody ih (by omega) h
    obtain ⟨source, sink⟩ := s
    obtain rfl : source = rest := hended
    obtain rfl : sink = _ := hsink
    exact ⟨g, used, source, rfl, hused, by simp⟩

theorem group {bound : Nat} (hn : ts.length ≤ bound)
    (h : Parse.group bound ⟨ts, x⟩ = .ok () s) :
    ∃ (g : GroupTree) (used rest : List Token), ts = used ++ rest ∧
      g.Written x.signature? used ∧ s.sink = x.tell (g.events false) ∧
      (TokenSource.peek rest).kind = .endOfInput :=
  groupBody (nestedGroup bound bound) hn h

end Sound

end TreeQuery.Parse
