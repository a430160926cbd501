import TreeQuery.Document.Builder
import TreeQuery.Pattern.OfText
import TreeQuery.Proofs.Compile.Nesting
import TreeQuery.Proofs.Selector.Repetition
import TreeQuery.Proofs.Text.Integer

/-!
# Positions at the end of a text

A text with one alternative can be followed by a modifier, which then is the last stage of that
alternative. A choice by position sees what the stages before it give. The result of the text alone
is the same list without repetitions, so that positions in the two agree up to the first repetition.
-/

set_option autoImplicit false

namespace TreeQuery

/-! ## Tokens -/

namespace Token

theorem endsToken_colon (more : List Char) : EndsToken (':' :: more) := by
  intro x hx
  obtain rfl := Option.some.inj hx
  exact ⟨rfl, fun k => by cases k <;> rfl⟩

/-- A colon and a name at the end of a text. -/
theorem SequenceScan.plain {name : List Char} (hstart : name.head?.any isNameStart = true)
    (hchars : name.all isNameChar = true) (started : Bool) :
    SequenceScan started [] (':' :: name)
      [ofKind .colon, ⟨.ident, String.ofList name⟩, endOfInput] := by
  have hname : NameScan (name ++ []) name [] :=
    .of_chars hchars fun x hx => by cases hx
  rw [List.append_nil] at hname
  cases name with
  | nil => cases hstart
  | cons c name =>
    have hstart : isNameStart c = true := hstart
    have hblank : isBlank c = false :=
      isBlank_eq_false (p := isNameStart) (by decide) hstart
    have hident : TokenScan c name ⟨.ident, String.ofList (c :: name)⟩ [] :=
      .ident (startsIdent_of_isNameStart hstart _) hname (by simp)
    have hrun : SequenceScan started [] (':' :: c :: name)
        (withBlanks started [] (ofKind .colon) ++ [⟨.ident, String.ofList (c :: name)⟩, endOfInput]) :=
      .token rfl (.colon _) (.token hblank hident .nil)
    rw [withBlanks_nil] at hrun
    exact hrun

/-- The text of an integer before a parenthesis. -/
theorem SequenceScan.integer {rest : List Char} {ts : List Token} (k : Int)
    (h : SequenceScan true [] (')' :: rest) ts) :
    SequenceScan true [] ((toString k).toList ++ ')' :: rest) (⟨.integer, toString k⟩ :: ts) := by
  obtain ⟨c, cs, htext, hfirst, hdigits⟩ := exists_toList_toString k
  have htake : (cs ++ ')' :: rest).takeWhile Char.isDigit = cs := by
    rw [List.takeWhile_append_of_pos hdigits, List.takeWhile_cons_of_neg (by decide),
      List.append_nil]
  have hdrop : (cs ++ ')' :: rest).dropWhile Char.isDigit = ')' :: rest := by
    rw [List.dropWhile_append_of_pos hdigits, List.dropWhile_cons_of_neg (by decide)]
  have hstart : c.isDigit ∨ c = '-' ∧ (cs ++ ')' :: rest).head?.any Char.isDigit := by
    refine hfirst.imp_right fun h => ⟨h.1, ?_⟩
    cases cs with
    | nil => cases h.2
    | cons x cs => exact h.2
  have hblank : isBlank c = false := by
    rcases hfirst with hdigit | ⟨rfl, -⟩
    · exact isBlank_eq_false (p := Char.isDigit) (by decide) hdigit
    · rfl
  have hscan := TokenScan.integer hstart
  rw [htake, hdrop, ← htext, String.ofList_toList] at hscan
  rw [htext]
  exact .token hblank hscan h

end Token

/-! ## Trees -/

def AlternativeTree.refine (m : ModifierTree) : AlternativeTree → AlternativeTree
  | .last (.mk head modifiers) => .last (.mk head (modifiers ++ [m]))
  | .link c k rest => .link c k (rest.refine m)

section Written

variable {sig : String → Option (List ArgumentType)} {m : ModifierTree} {ts us : List Token}
  {s more : String}

theorem ModifiersWritten.concat {ms : List ModifierTree} (h : ModifiersWritten sig ms ts)
    (hm : m.Written sig us) : ModifiersWritten sig (ms ++ [m]) (ts ++ us) := by
  induction ms generalizing ts with
  | nil =>
    cases h
    have hone := ModifiersWritten.cons hm .nil
    rw [List.append_nil] at hone
    exact hone
  | cons first ms ih =>
    cases h with
    | cons hfirst hms =>
      rw [List.append_assoc]
      exact .cons hfirst (ih hms)

theorem AlternativeTree.Written.refine (hm : m.Written sig us) :
    ∀ {a : AlternativeTree} {ts : List Token}, a.Written sig ts →
      (a.refine m).Written sig (ts ++ us)
  | .last _, _, .last (.mk hhead hms hne) => by
    rw [List.append_assoc]
    exact .last (.mk hhead (hms.concat hm) fun _ => by simp)
  | .link _ _ _, _, .link hc hk ha => by
    rw [List.append_assoc]
    exact .link hc hk (ha.refine hm)

theorem GroupTree.Written.refine {slashed : Bool} {a : AlternativeTree}
    (h : (GroupTree.mk slashed [a]).Written sig ts) (hm : m.Written sig us) :
    (GroupTree.mk slashed [a.refine m]).Written sig (ts ++ us) := by
  cases h with
  | plain ha hmore =>
    cases hmore
    have hgroup := GroupTree.Written.plain (ha.refine hm) .nil
    simpa using hgroup
  | slashed hslash hblank ha hmore =>
    cases hmore
    have hgroup := GroupTree.Written.slashed hslash hblank (ha.refine hm) .nil
    simpa using hgroup

theorem GroupTree.Spells.ne_empty {g : GroupTree} (h : g.Spells sig s) : s.toList ≠ [] := by
  obtain ⟨tokens, htokens, hg⟩ := h
  intro hnil
  have hscan := tokenize_iff.mp htokens
  rw [hnil] at hscan
  cases hscan with
  | nil => exact GroupTree.not_written_endOfInput hg

/-- What follows a text of one alternative is read after its tokens. -/
theorem GroupTree.Spells.continued {g : GroupTree} (h : g.Spells sig s)
    (hlast : ∀ x ∈ s.toList.getLast?, isBlank x = false) (hends : Token.EndsToken more.toList)
    (hscan : Token.SequenceScan true [] more.toList (us ++ [.endOfInput])) :
    ∃ body, g.Written sig body ∧
      Token.SequenceScan false [] (s ++ more).toList (body ++ us ++ [.endOfInput]) := by
  have hne := h.ne_empty
  obtain ⟨tokens, htokens, hg⟩ := h
  have hread := tokenize_iff.mp htokens
  obtain ⟨body, rfl, hrun⟩ := hread.resume hne hlast hends hscan
  obtain ⟨body', hbody, hfree⟩ := hread.endFree
  obtain rfl := List.append_cancel_right hbody
  rw [beforeEnd_append hfree rfl] at hg
  refine ⟨body, hg, ?_⟩
  rw [String.toList_append, List.append_assoc]
  exact hrun

theorem GroupTree.Spells.refine {slashed : Bool} {a : AlternativeTree}
    (h : (GroupTree.mk slashed [a]).Spells sig s)
    (hlast : ∀ x ∈ s.toList.getLast?, isBlank x = false) (hends : Token.EndsToken more.toList)
    (hscan : Token.SequenceScan true [] more.toList (us ++ [.endOfInput]))
    (hm : m.Written sig us) : (GroupTree.mk slashed [a.refine m]).Spells sig (s ++ more) := by
  obtain ⟨body, hg, hrun⟩ := h.continued hlast hends hscan
  exact .of_scan hrun (hg.refine hm)

end Written

def indexTokens (k : Int) : List Token :=
  [.ofKind .colon, ⟨.function, "eq"⟩, ⟨.integer, toString k⟩, .ofKind .rightParen]

theorem scan_indexTokens (k : Int) :
    Token.SequenceScan true [] (":eq(" ++ (toString k ++ ")")).toList
      (indexTokens k ++ [.endOfInput]) := by
  have hend : Token.SequenceScan true [] [] [.endOfInput] := .nil
  have hclose := Token.SequenceScan.closing (k := .rightParen) (by decide) (x := ')') rfl hend
  have hcall : Token.SequenceScan true []
      (':' :: ("eq".toList ++ '(' :: ((toString k).toList ++ [')'])))
      (indexTokens k ++ [.endOfInput]) :=
    (Token.SequenceScan.integer k (hclose true [])).call (by decide) (by decide) true
  simpa using hcall

theorem written_indexTokens {sig : String → Option (List ArgumentType)} {k : Int} (hk : Int32 k) :
    (ModifierTree.test (.index k)).Written sig (indexTokens k) := by
  have hdigits : IntegerWritten k [⟨.integer, toString k⟩] :=
    .mk rfl ((int32OfText?_toString k k).mpr ⟨rfl, hk⟩)
  have hcall : FunctionCall "eq" [⟨.integer, toString k⟩] (.ofKind .colon ::
      ⟨.function, "eq"⟩ :: ([] ++ [⟨.integer, toString k⟩] ++ [.ofKind .rightParen])) :=
    .mk rfl rfl rfl .absent rfl
  exact .test (.index hdigits hcall)

theorem eraseDups_toList (x : Option Place) : x.toList.eraseDups = x.toList :=
  eraseDups_of_nodup (by cases x <;> simp)

section Engine

variable [PatternEngine]

/-! ## Stages -/

section Stages

variable {d : Document} {registry : Registry Place}

theorem ModifierTree.listStages_concat (ms : List ModifierTree) (m : ModifierTree) :
    ModifierTree.listStages registry (ms ++ [m]) = (do
      let stages ← ModifierTree.listStages registry ms
      return stages ++ (← m.stages registry)) := by
  induction ms with
  | nil => simp [ModifierTree.listStages]
  | cons first ms ih =>
    rw [List.cons_append, ModifierTree.listStages, ModifierTree.listStages, ih]
    simp only [bind_assoc, pure_bind, List.append_assoc]

theorem AlternativeTree.stages_refine (m : ModifierTree) : ∀ a : AlternativeTree,
    (a.refine m).stages registry = (do
      let stages ← a.stages registry
      return stages ++ (← m.stages registry))
  | .last (.mk head modifiers) => by
    rw [AlternativeTree.refine, AlternativeTree.stages, AlternativeTree.stages,
      CompoundTree.stages, CompoundTree.stages, ModifierTree.listStages_concat]
    simp only [bind_assoc, pure_bind, List.cons_append]
  | .link c k rest => by
    rw [AlternativeTree.refine, AlternativeTree.stages, AlternativeTree.stages,
      stages_refine m rest]
    simp only [bind_assoc, pure_bind, List.append_assoc, List.cons_append]

theorem Selector.chain?_concat {stages : List Selector} {c : Selector}
    (h : Selector.chain? stages = some c) (t : Selector) :
    Selector.chain? (stages ++ [t]) = some (.andThen c t) := by
  cases stages with
  | nil => cases h
  | cons s stages =>
    obtain rfl := Option.some.inj h
    rw [List.cons_append, Selector.chain?, List.foldl_concat]

variable {s : String} {anchored : Bool} {c : Selector}

/-- A text whose group has one alternative is read as one alternative. -/
theorem Document.exists_alternative (h : d.compile registry s = .ok (.group anchored [c])) :
    ∃ a stages, (GroupTree.mk anchored [a]).Spells registry.signature? s ∧
      a.stages registry = .ok stages ∧ Selector.chain? stages = some c := by
  obtain ⟨⟨slashed, as⟩, hspells, hselector⟩ := Document.exists_spells h
  rw [GroupTree.selector] at hselector
  obtain ⟨all, hall, hgroup⟩ := except_bind_ok hselector
  cases as with
  | nil =>
    cases hall
    cases hgroup
  | cons a as =>
    rw [AlternativeTree.listStages] at hall
    obtain ⟨stages, hstages, hall⟩ := except_bind_ok hall
    obtain ⟨more, hmore, hall⟩ := except_bind_ok hall
    cases hall
    obtain ⟨first, hfirst⟩ := a.exists_chain hstages
    have hgroup := Except.ok.inj hgroup
    rw [List.filterMap_cons_some hfirst] at hgroup
    cases as with
    | nil =>
      cases hmore
      cases hgroup
      exact ⟨a, stages, hspells, hstages, hfirst⟩
    | cons b bs =>
      rw [AlternativeTree.listStages] at hmore
      obtain ⟨stages', hstages', hmore⟩ := except_bind_ok hmore
      obtain ⟨rest, hrest, hmore⟩ := except_bind_ok hmore
      cases hmore
      obtain ⟨second, hsecond⟩ := b.exists_chain hstages'
      rw [List.filterMap_cons_some hsecond] at hgroup
      cases hgroup

/-- A modifier after a text of one alternative makes one more stage of it. -/
theorem Document.compile_refined (h : d.compile registry s = .ok (.group anchored [c]))
    (hlast : ∀ x ∈ s.toList.getLast?, isBlank x = false) {more : String} {us : List Token}
    {m : ModifierTree} {t : Selector} (hends : Token.EndsToken more.toList)
    (hscan : Token.SequenceScan true [] more.toList (us ++ [.endOfInput]))
    (hm : m.Written registry.signature? us) (ht : m.stages registry = .ok [t]) :
    d.compile registry (s ++ more) = .ok (.group anchored [.andThen c t]) := by
  obtain ⟨a, stages, hspells, hstages, hchain⟩ := Document.exists_alternative h
  have hrefined : (a.refine m).stages registry = .ok (stages ++ [t]) := by
    rw [AlternativeTree.stages_refine, hstages, ht]
    rfl
  rw [(hspells.refine hlast hends hscan hm).compile_eq, GroupTree.selector,
    AlternativeTree.listStages, hrefined]
  show Except.ok (Selector.group (false || anchored) ([stages ++ [t]].filterMap Selector.chain?)) = _
  rw [List.filterMap_cons_some (Selector.chain?_concat hchain t)]
  rfl

/-- A text with an integer that has more than 32 bits does not compile. -/
theorem Document.not_compile_of_integer {tokens : List Token} (htokens : tokenize s = .ok tokens)
    {k : Int} (hk : ¬ Int32 k) (hmem : ⟨.integer, toString k⟩ ∈ beforeEnd tokens) (v : Selector) :
    d.compile registry s ≠ .ok v := by
  intro hv
  obtain ⟨g, ⟨tokens', htokens', hg⟩, -⟩ := Document.exists_spells hv
  obtain rfl := Except.ok.inj (htokens.symm.trans htokens')
  obtain ⟨n, hn⟩ := (TreeTokens.group hg _ hmem).2 rfl
  exact hk ((int32OfText?_toString k n).mp hn).2

end Stages

/-! ## Positions -/

section Positions

variable {d : Document} {registry : Registry Place} {s : String} {anchored : Bool} {c : Selector}

theorem compile_index (h : d.compile registry s = .ok (.group anchored [c]))
    (hlast : ∀ x ∈ s.toList.getLast?, isBlank x = false) {k : Int} (hk : Int32 k) :
    d.compile registry (s ++ ":eq(" ++ toString k ++ ")") =
      .ok (.group anchored [.andThen c (.step (.index k))]) := by
  rw [String.append_assoc, String.append_assoc]
  exact Document.compile_refined h hlast (by simpa using Token.endsToken_colon _)
    (scan_indexTokens k) (written_indexTokens hk) rfl

theorem not_compile_index (h : d.compile registry s = .ok (.group anchored [c]))
    (hlast : ∀ x ∈ s.toList.getLast?, isBlank x = false) {k : Int} (hk : ¬ Int32 k) (v : Selector) :
    d.compile registry (s ++ ":eq(" ++ toString k ++ ")") ≠ .ok v := by
  rw [String.append_assoc, String.append_assoc]
  obtain ⟨g, hspells, -⟩ := Document.exists_spells h
  obtain ⟨body, hg, hrun⟩ := hspells.continued hlast (by simpa using Token.endsToken_colon _)
    (scan_indexTokens k)
  have hfree : EndFree (body ++ indexTokens k) :=
    .append (EndFree.group hg) (by simp [EndFree, indexTokens, Token.ofKind])
  refine Document.not_compile_of_integer (tokenize_iff.mpr hrun) hk ?_ v
  rw [beforeEnd_append hfree rfl]
  simp [indexTokens]

theorem compile_last (h : d.compile registry s = .ok (.group anchored [c]))
    (hlast : ∀ x ∈ s.toList.getLast?, isBlank x = false) :
    d.compile registry (s ++ ":last") =
      .ok (.group anchored [.andThen c (.step (.plain .last))]) := by
  have hscan : Token.SequenceScan true [] ":last".toList
      ([.ofKind .colon, ⟨.ident, "last"⟩] ++ [.endOfInput]) :=
    @Token.SequenceScan.plain "last".toList (by decide) (by decide) true
  have hwritten : (ModifierTree.test (.plain .last)).Written registry.signature?
      [.ofKind .colon, ⟨.ident, "last"⟩] := .test (.plain rfl rfl (by decide))
  exact Document.compile_refined h hlast (Token.endsToken_colon _) hscan hwritten rfl

/-! ### Evaluation -/

/-- The stages of `c` give `ys`, of which positions choose; the result of `c` alone is `ys` without
repetitions. -/
structure Indexed (d : Document) (anchored : Bool) (c : Selector) (xs ys : List Place) : Prop where
  result : (Selector.group anchored [c]).eval d xs = .ok ys.eraseDups
  index : ∀ k : Int, (Selector.group anchored [.andThen c (.step (.index k))]).eval d xs =
    .ok (if 0 ≤ k then ys[k.toNat]?.toList else [])
  last : (Selector.group anchored [.andThen c (.step (.plain .last))]).eval d xs =
    .ok ys.getLast?.toList
  /-- Indices count the result up to the first repetition, and no further. -/
  index_iff : ∀ n : Nat, (∀ i < n,
    (Selector.group anchored [.andThen c (.step (.index (i : Nat)))]).eval d xs =
      .ok ys.eraseDups[i]?.toList) ↔ (ys.take n).Nodup
  /-- The last place is that of the result when all others occur before it does. -/
  last_iff : (Selector.group anchored [.andThen c (.step (.plain .last))]).eval d xs =
    .ok ys.eraseDups.getLast?.toList ↔
      ∀ x ∈ ys.getLast?, ∀ y ∈ ys, y ≠ x → y ∈ ys.takeWhile (· != x)

theorem indexed {d : Document} {xs ys : List Place}
    (h : c.eval d (groupBase d anchored xs) = .ok ys) : Indexed d anchored c xs ys := by
  have hstage : ∀ t : Step, (Selector.group anchored [.andThen c (.step t)]).eval d xs =
      .ok (t.apply d ys).eraseDups := by
    intro t
    rw [Selector.eval_group_single, Selector.eval_andThen, h]
    rfl
  have hindex : ∀ k : Int, (Selector.group anchored [.andThen c (.step (.index k))]).eval d xs =
      .ok (if 0 ≤ k then ys[k.toNat]?.toList else []) := by
    intro k
    rw [hstage, Step.apply]
    split
    · rw [eraseDups_toList]
    · rfl
  have hlast : (Selector.group anchored [.andThen c (.step (.plain .last))]).eval d xs =
      .ok ys.getLast?.toList := by
    rw [hstage, Step.apply, eraseDups_toList]
  refine ⟨?_, hindex, hlast, fun n => ?_, ?_⟩
  · rw [Selector.eval_group_single, h]
    rfl
  · rw [← getElem?_eraseDups_iff]
    refine forall₂_congr fun i _ => ?_
    rw [hindex, if_pos (Int.natCast_nonneg i), Int.toNat_natCast, Except.ok.injEq,
      toList_injective.eq_iff, eq_comm]
  · rw [hlast, Except.ok.injEq, toList_injective.eq_iff, eq_comm, getLast?_eraseDups_iff]

/-- A position after a text of one alternative is counted in the list that the stages of the text
give. The text alone gives the same list without repetitions. -/
theorem compile_positions (hs : d.compile registry s = .ok (.group anchored [c]))
    (hlast : ∀ x ∈ s.toList.getLast?, isBlank x = false) :
    (∀ k : Int, Int32 k → d.compile registry (s ++ ":eq(" ++ toString k ++ ")") =
      .ok (.group anchored [.andThen c (.step (.index k))])) ∧
    (∀ k : Int, ¬ Int32 k → ∀ v, d.compile registry (s ++ ":eq(" ++ toString k ++ ")") ≠ .ok v) ∧
    d.compile registry (s ++ ":last") =
      .ok (.group anchored [.andThen c (.step (.plain .last))]) ∧
    ∀ (d' : Document) (xs : List Place),
      (∀ e, (Selector.group anchored [c]).eval d' xs = .error e →
        ∀ t, (Selector.group anchored [.andThen c (.step t)]).eval d' xs = .error e) ∧
      ∀ zs, (Selector.group anchored [c]).eval d' xs = .ok zs →
        ∃ ys, c.eval d' (groupBase d' anchored xs) = .ok ys ∧ Indexed d' anchored c xs ys := by
  refine ⟨fun k hk => compile_index hs hlast hk, fun k hk => not_compile_index hs hlast hk,
    compile_last hs hlast, fun d' xs => ⟨fun e he t => ?_, fun zs hzs => ?_⟩⟩
  · rw [Selector.eval_group_single] at he ⊢
    rw [Selector.eval_andThen]
    cases hrun : c.eval d' (groupBase d' anchored xs) with
    | error e' =>
      rw [hrun] at he
      exact he
    | ok ys =>
      rw [hrun] at he
      cases he
  · rw [Selector.eval_group_single] at hzs
    cases hrun : c.eval d' (groupBase d' anchored xs) with
    | error e =>
      rw [hrun] at hzs
      cases hzs
    | ok ys => exact ⟨ys, rfl, indexed hrun⟩

end Positions

def nestedChain : Selector :=
  .andThen (.andThen (.step (.type .unstated "div")) (.step (.combinator .descendant)))
    (.step (.type .unstated "p"))

/-- A paragraph below two divisions, and one below the outer division alone. -/
def nestedPlaces : Document :=
  .build [.element "div", .element "div", .leaf "p", .close, .leaf "p"]

theorem compile_nestedChain : nestedPlaces.compile {} "div p" =
    .ok (.group false [nestedChain]) := by
  have htokens : tokenize "div p" = .ok [⟨.ident, "div"⟩, ⟨.whiteSpace, " "⟩, ⟨.ident, "p"⟩,
      .endOfInput] := tokenize_of_scanWithin (by cbv)
  rw [Document.compile, Compiler.compile_of_tokenize (by decide) htokens]
  rfl

end Engine

/-- The place below two matches is given twice, so that the third index and the last position see
it again. -/
theorem compile_positions_nested :
    nestedPlaces.compile {} "div p" = .ok (.group false [nestedChain]) ∧
      Indexed nestedPlaces false nestedChain [.node 0] [.node 3, .node 4, .node 3] := by
  have hlast : ∀ x ∈ "div p".toList.getLast?, isBlank x = false := by simp [isBlank]
  obtain ⟨-, -, -, hpositions⟩ := compile_positions compile_nestedChain hlast
  refine ⟨compile_nestedChain, ?_⟩
  obtain ⟨ys, hys, hindexed⟩ := (hpositions nestedPlaces [.node 0]).2 [.node 3, .node 4] (by cbv)
  have hgiven : (.ok ys : Except SelectorError _) = .ok [.node 3, .node 4, .node 3] := by
    rw [← hys]
    cbv
  cases hgiven
  exact hindexed

/-- A place that comes again in the working set is chosen, though the result has it once and ends
with another place, and a number of more than 32 bits is no index. -/
theorem positions_of_repeated_place :
    (∃ u v w, nestedPlaces.compile {} "div p" = .ok u ∧
      nestedPlaces.compile {} "div p:last" = .ok v ∧
      nestedPlaces.compile {} "div p:eq(2)" = .ok w ∧
      u.eval nestedPlaces [.node 0] = .ok [.node 3, .node 4] ∧
      v.eval nestedPlaces [.node 0] = .ok [.node 3] ∧
      w.eval nestedPlaces [.node 0] = .ok [.node 3]) ∧
    nestedPlaces.compile {} "*:eq(2147483648)" = .error (.integerOutOfRange "2147483648") := by
  have hlast : tokenize "div p:last" = .ok [⟨.ident, "div"⟩, ⟨.whiteSpace, " "⟩, ⟨.ident, "p"⟩,
      .ofKind .colon, ⟨.ident, "last"⟩, .endOfInput] := tokenize_of_scanWithin (by cbv)
  have hindex : tokenize "div p:eq(2)" = .ok [⟨.ident, "div"⟩, ⟨.whiteSpace, " "⟩, ⟨.ident, "p"⟩,
      .ofKind .colon, ⟨.function, "eq"⟩, ⟨.integer, "2"⟩, .ofKind .rightParen, .endOfInput] :=
    tokenize_of_scanWithin (by cbv)
  have hrange : tokenize "*:eq(2147483648)" = .ok [.ofKind .star, .ofKind .colon,
      ⟨.function, "eq"⟩, ⟨.integer, "2147483648"⟩, .ofKind .rightParen, .endOfInput] :=
    tokenize_of_scanWithin (by cbv)
  refine ⟨⟨.group false [nestedChain], .group false [.andThen nestedChain (.step (.plain .last))],
    .group false [.andThen nestedChain (.step (.index 2))], compile_nestedChain, ?_, ?_,
    by cbv, by cbv, by cbv⟩, ?_⟩
  · rw [Document.compile, Compiler.compile_of_tokenize (by decide) hlast]
    rfl
  · rw [Document.compile, Compiler.compile_of_tokenize (by decide) hindex]
    rfl
  · rw [Document.compile, Compiler.compile_of_tokenize (by decide) hrange]
    rfl

end TreeQuery
