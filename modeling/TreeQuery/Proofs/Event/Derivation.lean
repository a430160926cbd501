import TreeQuery.Event.Record
import TreeQuery.Proofs.Event.Soundness
import TreeQuery.Proofs.Event.Completeness

/-!
# Reading is deriving

Tokens are read exactly when those before the end of input are written by a tree, and then the
events of that tree are delivered.
-/

set_option autoImplicit false

namespace TreeQuery

/-! ## Tokens of a tree -/

/-- The end of input is no token of a tree, and an integer among them has a value. -/
def TreeTokens (ts : List Token) : Prop :=
  ∀ t ∈ ts, t.kind ≠ .endOfInput ∧ (t.kind = .integer → ∃ n, int32OfText? t.text = some n)

namespace TreeTokens

theorem nil : TreeTokens [] := by
  simp [TreeTokens]

theorem cons {t : Token} {ts : List Token} {k : Token.Kind} (h : t.kind = k)
    (hk : k ≠ .endOfInput ∧ k ≠ .integer) (hts : TreeTokens ts) : TreeTokens (t :: ts) := by
  simp only [TreeTokens, List.forall_mem_cons]
  subst h
  exact ⟨⟨hk.1, fun hkind => absurd hkind hk.2⟩, hts⟩

theorem append {ts us : List Token} (hts : TreeTokens ts) (hus : TreeTokens us) :
    TreeTokens (ts ++ us) := by
  intro t ht
  rcases List.mem_append.1 ht with ht | ht
  · exact hts t ht
  · exact hus t ht

theorem optional {k : Token.Kind} {ts : List Token} (h : Optional k ts)
    (hk : k ≠ .endOfInput ∧ k ≠ .integer) : TreeTokens ts := by
  cases h with
  | absent => exact nil
  | present hkind => exact cons hkind hk nil

theorem blank {ts : List Token} (h : Blank ts) : TreeTokens ts :=
  optional h (by decide)

theorem separator {ts : List Token} (h : Separator ts) : TreeTokens ts := by
  obtain ⟨hsemicolon, hblank⟩ := h
  exact cons hsemicolon (by decide) (cons hblank (by decide) nil)

theorem integer {n : Int} {ts : List Token} (h : IntegerWritten n ts) : TreeTokens ts := by
  obtain ⟨hkind, hvalue⟩ := h
  simp only [TreeTokens, List.forall_mem_cons]
  exact ⟨⟨by simp [hkind], fun _ => ⟨n, hvalue⟩⟩, nil⟩

theorem string {text : String} {ts : List Token} (h : StringWritten text ts) : TreeTokens ts := by
  obtain ⟨hkind, -⟩ := h
  exact cons hkind (by decide) nil

theorem call {name : String} {body ts : List Token} (h : FunctionCall name body ts)
    (hbody : TreeTokens body) : TreeTokens ts := by
  obtain ⟨hcolon, hfunction, -, hblank, hclose⟩ := h
  exact cons hcolon (by decide) (cons hfunction (by decide)
    (append (append (blank hblank) hbody) (cons hclose (by decide) nil)))

theorem namespacePart {ns : Namespace} {ts : List Token} (h : ns.Written ts) : TreeTokens ts := by
  cases h with
  | unstated => exact nil
  | empty hbar => exact cons hbar (by decide) nil
  | any hstar hbar => exact cons hstar (by decide) (cons hbar (by decide) nil)
  | named hname hbar => exact cons hname (by decide) (cons hbar (by decide) nil)

theorem head {head : CompoundHead} {ts : List Token} (h : head.Written ts) : TreeTokens ts := by
  cases h with
  | type hpart hname => exact append (namespacePart hpart) (cons hname (by decide) nil)
  | universal hpart hstar => exact append (namespacePart hpart) (cons hstar (by decide) nil)
  | implied => exact nil

theorem combinator {k : Combinator} {ts : List Token} (h : k.Written ts) : TreeTokens ts := by
  cases h with
  | blank hkind => exact cons hkind (by decide) nil
  | child hkind hblank => exact cons hkind (by decide) (blank hblank)
  | adjacent hkind hblank => exact cons hkind (by decide) (blank hblank)
  | sibling hkind hblank => exact cons hkind (by decide) (blank hblank)

theorem attributeTest {test : SimpleTest} {ts : List Token} (h : AttributeWritten test ts) :
    TreeTokens ts := by
  cases h with
  | has hblank hpart hname hblank' hclose =>
    exact append (append (blank hblank) (namespacePart hpart)) (cons hname (by decide)
      (append (blank hblank') (cons hclose (by decide) nil)))
  | @compare _ _ _ _ _ _ _ _ value _ comparison hblank₁ hpart hname hblank₂ hsign hblank₃ hvalue
      hblank₄ hclose =>
    have hcomparison : comparison.kind ≠ .endOfInput ∧ comparison.kind ≠ .integer := by
      cases comparison <;> decide
    have hvalueKind : value.kind ≠ .endOfInput ∧ value.kind ≠ .integer := by
      rcases hvalue with hvalue | hvalue <;> simp [hvalue]
    exact append (append (blank hblank₁) (namespacePart hpart)) (cons hname (by decide)
      (append (blank hblank₂) (cons hsign hcomparison (append (blank hblank₃)
        (cons rfl hvalueKind (append (blank hblank₄) (cons hclose (by decide) nil)))))))

theorem simpleTest {test : SimpleTest} {ts : List Token} (h : test.Written ts) :
    TreeTokens ts := by
  cases h with
  | id hkind => exact cons hkind (by decide) nil
  | className hdot hname => exact cons hdot (by decide) (cons hname (by decide) nil)
  | bracketed hopening hrest => exact cons hopening (by decide) (attributeTest hrest)
  | plain hcolon hname _ => exact cons hcolon (by decide) (cons hname (by decide) nil)
  | nthChild hsign hdigits hcall =>
    exact call hcall (append (optional hsign (by decide)) (integer hdigits))
  | nthLastChild hsign hdigits hcall =>
    exact call hcall (append (optional hsign (by decide)) (integer hdigits))
  | index hdigits hcall => exact call hcall (integer hdigits)
  | containsText htext hcall => exact call hcall (string htext)
  | matchesText htext hcall => exact call hcall (string htext)

section Trees

variable {sig : String → Option (List ArgumentType)}

mutual

theorem modifier {m : ModifierTree} {ts : List Token} : m.Written sig ts → TreeTokens ts
  | .test h => simpleTest h
  | .grouped hg hcall => call hcall (group hg)
  | .between hg hseparator hg' hcall =>
    call hcall (append (append (group hg) (separator hseparator)) (group hg'))
  | .function _ _ has hcall => call hcall (arguments has)
  | .name hcolon hname _ _ => cons hcolon (by decide) (cons hname (by decide) nil)

theorem modifiers {ms : List ModifierTree} {ts : List Token} :
    ModifiersWritten sig ms ts → TreeTokens ts
  | .nil => nil
  | .cons hm hms => append (modifier hm) (modifiers hms)

theorem argument {type : ArgumentType} {a : ArgumentTree} {ts : List Token} :
    a.Written sig type ts → TreeTokens ts
  | .string h => string h
  | .integer h => integer h
  | .group h => group h

theorem moreArguments {types : List ArgumentType} {as : List ArgumentTree} {ts : List Token} :
    MoreArgumentsWritten sig types as ts → TreeTokens ts
  | .nil => nil
  | .cons hseparator ha has =>
    append (append (separator hseparator) (argument ha)) (moreArguments has)

theorem arguments {types : List ArgumentType} {as : List ArgumentTree} {ts : List Token} :
    ArgumentsWritten sig types as ts → TreeTokens ts
  | .nil => nil
  | .cons ha has => append (argument ha) (moreArguments has)

theorem compound {c : CompoundTree} {ts : List Token} : c.Written sig ts → TreeTokens ts
  | .mk hhead hms _ => append (head hhead) (modifiers hms)

theorem alternative {a : AlternativeTree} {ts : List Token} : a.Written sig ts → TreeTokens ts
  | .last hc => compound hc
  | .link hc hk ha => append (append (compound hc) (combinator hk)) (alternative ha)

theorem moreAlternatives {as : List AlternativeTree} {ts : List Token} :
    MoreAlternativesWritten sig as ts → TreeTokens ts
  | .nil => nil
  | .cons hcomma hblank ha has =>
    cons hcomma (by decide) (append (append (blank hblank) (alternative ha))
      (moreAlternatives has))

theorem group {g : GroupTree} {ts : List Token} : g.Written sig ts → TreeTokens ts
  | .plain ha has => append (alternative ha) (moreAlternatives has)
  | .slashed hslash hblank ha has =>
    cons hslash (by decide) (append (append (blank hblank) (alternative ha))
      (moreAlternatives has))

end

end Trees

end TreeTokens

def EndFree (ts : List Token) : Prop :=
  ∀ t ∈ ts, t.kind ≠ .endOfInput

namespace EndFree

theorem nil : EndFree [] := by
  simp [EndFree]

theorem cons {t : Token} {ts : List Token} {k : Token.Kind} (h : t.kind = k)
    (hk : k ≠ .endOfInput) (hts : EndFree ts) : EndFree (t :: ts) := by
  simp only [EndFree, List.forall_mem_cons]
  exact ⟨h ▸ hk, hts⟩

theorem append {ts us : List Token} (hts : EndFree ts) (hus : EndFree us) :
    EndFree (ts ++ us) := by
  intro t ht
  rcases List.mem_append.1 ht with ht | ht
  · exact hts t ht
  · exact hus t ht

theorem group {sig : String → Option (List ArgumentType)} {g : GroupTree} {ts : List Token}
    (h : g.Written sig ts) : EndFree ts :=
  fun t ht => (TreeTokens.group h t ht).1

end EndFree

/-! ## The transcript -/

def beforeEnd (tokens : List Token) : List Token :=
  tokens.takeWhile fun t => t.kind ≠ .endOfInput

theorem beforeEnd_append {used rest : List Token} (hused : EndFree used)
    (hrest : (TokenSource.peek rest).kind = .endOfInput) : beforeEnd (used ++ rest) = used := by
  unfold beforeEnd
  rw [List.takeWhile_append_of_pos fun t ht => by simpa using hused t ht]
  cases rest with
  | nil => simp
  | cons t rest =>
    have hkind : t.kind = .endOfInput := hrest
    simp [hkind]

theorem beforeEnd_split (tokens : List Token) : ∃ rest, tokens = beforeEnd tokens ++ rest ∧
    (TokenSource.peek rest).kind = .endOfInput := by
  refine ⟨tokens.dropWhile fun t => t.kind ≠ .endOfInput, List.takeWhile_append_dropWhile.symm, ?_⟩
  cases hrest : tokens.dropWhile fun t => t.kind ≠ .endOfInput with
  | nil => rfl
  | cons t rest =>
    have hhead := List.head?_dropWhile_not (fun t : Token => decide (t.kind ≠ .endOfInput)) tokens
    rw [hrest] at hhead
    simpa using hhead

theorem transcript_ok_iff {sig : String → Option (List ArgumentType)} {tokens : List Token}
    {events : List Event} :
    transcript sig tokens = (events, .ok ()) ↔
      ∃ g : GroupTree, g.Written sig (beforeEnd tokens) ∧ events = g.events false := by
  constructor
  · intro h
    unfold transcript at h
    split at h
    · next s hrun =>
      obtain ⟨g, used, rest, rfl, hused, hsink, hrest⟩ :=
        Parse.Sound.group (Nat.le_succ _) hrun
      refine ⟨g, ?_, ?_⟩
      · rw [beforeEnd_append (EndFree.group hused) hrest]
        exact hused
      · rw [hsink] at h
        simpa [Transcript.tell] using (congrArg Prod.fst h).symm
    · cases h
  · rintro ⟨g, hg, rfl⟩
    obtain ⟨rest, htokens, hrest⟩ := beforeEnd_split tokens
    have hlength : (beforeEnd tokens ++ rest).length < tokens.length + 1 := by
      rw [← htokens]
      exact Nat.lt_succ_self _
    obtain ⟨s, hrun, hsink⟩ :=
      Parse.Complete.group (x := { signature? := sig }) hg hrest hlength
    rw [← htokens] at hrun
    unfold transcript
    rw [hrun]
    simp [hsink, Transcript.tell]

/-! ## Records -/

instance : SteadySink EventRecord where
  signature?_handle e r := by
    obtain ⟨signatures, refused, events⟩ := r
    cases refused with
    | none => rfl
    | some name =>
      have hrun : EventSink.handle e ({ signatures, refused := some name, events } : EventRecord) =
          (if name ∈ e.refusalNames then
            throw (.raised .notSupported ("generator refused " ++ name))
          else pure () : EStateM SelectorError EventRecord Unit)
            { signatures, refused := some name, events := events.push e } := rfl
      rw [hrun]
      split <;> rfl

/-- A record that refuses nothing keeps what it is told. -/
theorem EventRecord.deliver_eq (signatures : List (String × List ArgumentType)) (es : List Event)
    (kept : Array Event) :
    EventSink.deliver es ({ signatures, events := kept } : EventRecord) =
      .ok () { signatures, events := kept ++ es } := by
  induction es generalizing kept with
  | nil => simp [EventSink.deliver, pure, EStateM.pure]
  | cons e es ih =>
    have hstep : EventSink.handle e ({ signatures, events := kept } : EventRecord) =
        .ok () { signatures, events := kept.push e } := rfl
    refine (Parse.bind_ok hstep).trans ((ih _).trans ?_)
    simp

/-- Reading succeeds exactly when the tokens before the end of input derive from the grammar, and
it delivers the events that the derivation spells. -/
theorem parse_iff_derives (signatures : List (String × List ArgumentType)) (tokens : List Token)
    (r : EventRecord) :
    parseTokens tokens ({ signatures } : EventRecord) = .ok () r ↔
      ∃ g : GroupTree, g.Written (signatures.lookup ·) (beforeEnd tokens) ∧
        r = { signatures, events := (g.events false).toArray } := by
  have hdeliver := EventRecord.deliver_eq signatures
    (transcript (signatures.lookup ·) tokens).1 #[]
  have hparse := parseTokens_eq_deliver tokens ({ signatures } : EventRecord)
  have hsig : EventSink.signature? ({ signatures } : EventRecord) = (signatures.lookup ·) := rfl
  rw [hsig, Parse.bind_ok hdeliver] at hparse
  rw [hparse]
  constructor
  · intro h
    cases hend : (transcript (signatures.lookup ·) tokens).2 with
    | error e =>
      rw [hend] at h
      cases h
    | ok u =>
      rw [hend] at h
      obtain ⟨g, hg, hevents⟩ := transcript_ok_iff.1 (Prod.ext rfl hend)
      cases h
      exact ⟨g, hg, by simp [← hevents]⟩
  · rintro ⟨g, hg, rfl⟩
    rw [transcript_ok_iff.2 ⟨g, hg, rfl⟩]
    simp
    rfl

end TreeQuery
