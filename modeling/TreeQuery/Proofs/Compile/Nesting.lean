import TreeQuery.Pattern.OfText
import TreeQuery.Proofs.Compile.OnePass
import TreeQuery.Proofs.Event.Shown
import TreeQuery.Proofs.Token.Render

/-!
# Nesting texts

A text that compiles can stand as the argument of a pseudo-class. Its tokens and its tree are the
same there as alone, whatever blanks it starts or ends with.
-/

set_option autoImplicit false

namespace TreeQuery

/-! ## Tokens of a nested text -/

namespace Token

theorem withBlanks_eq (blanks : List Char) (t : Token) : ∃ blank, Blank blank ∧
    withBlanks true blanks t = blank ++ [t] ∧
      (blanks ≠ [] → t.kind.absorbsBlank = false → ∃ b : Token, b.kind = .whiteSpace ∧
        blank = [b]) := by
  cases habsorbs : t.kind.absorbsBlank with
  | true =>
    refine ⟨[], .absent, withBlanks_absorbed habsorbs _ _, ?_⟩
    intro _ hkept
    cases hkept
  | false =>
    cases blanks with
    | nil => exact ⟨[], .absent, withBlanks_nil _ _, fun h => absurd rfl h⟩
    | cons b blanks =>
      have hkept := withBlanks_kept habsorbs (List.cons_ne_nil b blanks)
      exact ⟨_, .present rfl, hkept, fun _ _ => ⟨_, rfl, rfl⟩⟩

section Scan

variable {started : Bool} {blanks cs more : List Char} {ts us : List Token}

theorem SequenceScan.endFree (h : SequenceScan started blanks cs ts) : ∃ body,
    ts = body ++ [endOfInput] ∧ EndFree body := by
  induction h with
  | nil => exact ⟨[], withBlanks_absorbed rfl _ _, .nil⟩
  | blank _ _ ih => exact ih
  | @token started blanks _ _ _ t _ _ ht _ ih =>
    obtain ⟨body, rfl, hbody⟩ := ih
    have hkind : t.kind ≠ .endOfInput := ht.visible.not_end
    refine ⟨withBlanks started blanks t ++ body, by simp, .append ?_ hbody⟩
    rw [withBlanks]
    split
    · exact .cons (k := .whiteSpace) rfl (by decide) (.cons rfl hkind .nil)
    · exact .cons rfl hkind .nil

/-- A text between an opening sign and a closing one is read as it is alone, after a blank if it
starts with one that is not absorbed. -/
theorem SequenceScan.nested (h : SequenceScan false [] cs ts) {k : Kind} (hk : k ∈ closingKinds)
    {x : Char} (hx : k.written = [x]) (hmore : SequenceScan true [] more us) :
    ∃ blank, Blank blank ∧
      SequenceScan true [] (cs ++ x :: more) (blank ++ beforeEnd ts ++ ofKind k :: us) ∧
      (cs.head?.any isBlank = true → (TokenSource.peek (beforeEnd ts)).kind.absorbsBlank = false →
        ∃ b : Token, b.kind = .whiteSpace ∧ blank = [b]) := by
  obtain ⟨t, rest, rfl, hrun⟩ := h.restart
  obtain ⟨body', hbody', hrun'⟩ := hrun.append hk hx hmore
  obtain ⟨body, hts, hfree⟩ := h.endFree
  obtain ⟨blank, hblank, hwith, hsome⟩ := withBlanks_eq (cs.takeWhile isBlank) t
  have hbefore : beforeEnd (t :: rest) = body := by
    rw [hts]
    exact beforeEnd_append hfree rfl
  have hsame : body' ++ [endOfInput] = blank ++ body ++ [endOfInput] := by
    rw [← hbody', hwith, List.append_assoc, List.singleton_append, hts, List.append_assoc]
  rw [List.append_cancel_right hsame] at hrun'
  rw [hbefore]
  refine ⟨blank, hblank, hrun', fun hhead habsorbs => hsome ?_ ?_⟩
  · cases cs with
    | nil => cases hhead
    | cons c cs =>
      have hc : isBlank c = true := hhead
      rw [List.takeWhile_cons_of_pos hc]
      exact List.cons_ne_nil _ _
  · cases body with
    | nil => cases habsorbs
    | cons u body =>
      obtain ⟨rfl, -⟩ := List.cons.inj hts
      exact habsorbs

end Scan

theorem NameScan.of_chars {name rest : List Char} (h : name.all isNameChar = true)
    (hrest : EndsName rest) : NameScan (name ++ rest) name rest := by
  induction name with
  | nil => exact .stop hrest
  | cons c name ih =>
    rw [List.all_cons, Bool.and_eq_true] at h
    exact .char h.1 (ih h.2)

theorem startsIdent_of_isNameStart {c : Char} (h : isNameStart c = true) (cs : List Char) :
    startsIdent c cs = true := by
  unfold startsIdent
  split
  · next hc =>
    subst hc
    exact absurd h (by decide)
  · simp [h]

theorem TokenScan.colon (rest : List Char) : TokenScan ':' rest (ofKind .colon) rest :=
  @TokenScan.fixed .colon ':' [] _ rfl fun _ _ => rfl

/-- A colon and a name before a parenthesis. -/
theorem SequenceScan.call {name rest : List Char} {ts : List Token}
    (hstart : name.head?.any isNameStart = true) (hchars : name.all isNameChar = true)
    (h : SequenceScan true [] rest ts) (started : Bool) :
    SequenceScan started [] (':' :: (name ++ '(' :: rest))
      (ofKind .colon :: ⟨.function, String.ofList name⟩ :: ts) := by
  have hparen : EndsName ('(' :: rest) := by
    intro x hx
    obtain rfl := Option.some.inj hx
    exact ⟨by decide, by decide⟩
  have hname := NameScan.of_chars hchars hparen
  cases name with
  | nil => cases hstart
  | cons c name =>
    have hstart : isNameStart c = true := hstart
    have hblank : isBlank c = false :=
      isBlank_eq_false (p := isNameStart) (by decide) hstart
    have hfunction :
        TokenScan c (name ++ '(' :: rest) ⟨.function, String.ofList (c :: name)⟩ rest :=
      .function (startsIdent_of_isNameStart hstart _) hname
    have hrun : SequenceScan started [] (':' :: (c :: name ++ '(' :: rest))
        (withBlanks started [] (ofKind .colon) ++ ⟨.function, String.ofList (c :: name)⟩ :: ts) :=
      .token rfl (.colon _) (.token hblank hfunction h)
    rw [withBlanks_nil] at hrun
    exact hrun

theorem SequenceScan.function {name rest : List Char} {ts : List Token}
    (hstart : name.head?.any isNameStart = true) (hchars : name.all isNameChar = true)
    (h : SequenceScan true [] rest ts) :
    SequenceScan false [] ('*' :: ':' :: (name ++ '(' :: rest))
      (ofKind .star :: ofKind .colon :: ⟨.function, String.ofList name⟩ :: ts) := by
  have hstar : TokenScan '*' (':' :: (name ++ '(' :: rest)) (ofKind .star)
      (':' :: (name ++ '(' :: rest)) := by
    refine @TokenScan.fixed .star '*' [] _ rfl fun x hx => ?_
    obtain rfl := Option.some.inj hx
    rfl
  exact .token rfl hstar (h.call hstart hchars true)

end Token

theorem GroupPseudo.name_chars (pseudo : GroupPseudo) :
    pseudo.name.toList.head?.any isNameStart = true ∧
      pseudo.name.toList.all isNameChar = true := by
  cases pseudo with
  | split mode => cases mode <;> decide
  | _ => decide

/-! ## Trees of texts -/

def GroupTree.Spells (sig : String → Option (List ArgumentType)) (source : String)
    (g : GroupTree) : Prop :=
  ∃ tokens, tokenize source = .ok tokens ∧ g.Written sig (beforeEnd tokens)

def GroupTree.starred (m : ModifierTree) : GroupTree :=
  .mk false [.last (.mk (.universal .unstated) [m])]

section Spells

variable {sig : String → Option (List ArgumentType)}

theorem GroupTree.written_single {head : CompoundHead} {m : ModifierTree} {us ts : List Token}
    (hhead : head.Written us) (h : m.Written sig ts) :
    (GroupTree.mk false [.last (.mk head [m])]).Written sig (us ++ ts) := by
  have hcompound := CompoundTree.Written.mk hhead (ModifiersWritten.cons h .nil) (by simp)
  have hgroup := GroupTree.Written.plain (.last hcompound) .nil
  rw [List.append_nil, List.append_nil] at hgroup
  exact hgroup

theorem GroupTree.written_starred {m : ModifierTree} {ts : List Token} (h : m.Written sig ts) :
    (GroupTree.starred m).Written sig (.ofKind .star :: ts) := by
  have hhead : CompoundHead.Written (.universal .unstated) ([] ++ [Token.ofKind .star]) :=
    .universal .unstated rfl
  exact GroupTree.written_single hhead h

theorem GroupTree.Spells.of_scan {g : GroupTree} {ts : List Token} {source : String}
    (hscan : Token.SequenceScan false [] source.toList (ts ++ [.endOfInput]))
    (hg : g.Written sig ts) : g.Spells sig source := by
  refine ⟨_, tokenize_iff.mpr hscan, ?_⟩
  rw [beforeEnd_append (EndFree.group hg) rfl]
  exact hg

/-- What is read after the name of a function as its arguments makes a tree. -/
theorem GroupTree.spells_function {m : ModifierTree} {name : String} {body blank : List Token}
    {rest : List Char} (hname : name.toList.head?.any isNameStart = true ∧
      name.toList.all isNameChar = true) (hblank : Blank blank)
    (hscan : Token.SequenceScan true [] rest
      (blank ++ body ++ [.ofKind .rightParen, .endOfInput]))
    (hm : ∀ ts, FunctionCall name body ts → m.Written sig ts) {source : String}
    (hsource : source.toList = '*' :: ':' :: (name.toList ++ '(' :: rest)) :
    (GroupTree.starred m).Spells sig source := by
  have hrun := hscan.function hname.1 hname.2
  rw [← hsource, String.ofList_toList] at hrun
  have hcall : FunctionCall name body (.ofKind .colon :: ⟨.function, name⟩ ::
      (blank ++ body ++ [.ofKind .rightParen])) := .mk rfl rfl rfl hblank rfl
  exact .of_scan (by simpa using hrun) (GroupTree.written_starred (hm _ hcall))

theorem GroupTree.Spells.pseudo {g : GroupTree} {s : String} (h : g.Spells sig s)
    {pseudo : GroupPseudo} (single : pseudo ≠ .between) :
    (GroupTree.starred (.grouped pseudo single g)).Spells sig
      ("*:" ++ pseudo.name ++ "(" ++ s ++ ")") := by
  obtain ⟨tokens, htokens, hg⟩ := h
  have hend : Token.SequenceScan true [] [] [.endOfInput] := .nil
  obtain ⟨blank, hblank, hscan, -⟩ := (tokenize_iff.mp htokens).nested (k := .rightParen)
    (by decide) (x := ')') rfl hend
  refine GroupTree.spells_function pseudo.name_chars hblank hscan ?_ (by simp)
  exact fun ts hcall => .grouped hg hcall

theorem GroupTree.Spells.between {g h : GroupTree} {s t : String} (hs : g.Spells sig s)
    (ht : h.Spells sig t) :
    (GroupTree.starred (.between g h)).Spells sig ("*:between(" ++ s ++ "; " ++ t ++ ")") := by
  obtain ⟨tokens, htokens, hg⟩ := hs
  obtain ⟨tokens', htokens', hh⟩ := ht
  have hend : Token.SequenceScan true [] [] [.endOfInput] := .nil
  have hstop := (tokenize_iff.mp htokens').cons_blank (c := ' ') rfl
  obtain ⟨blank', -, hscan', hsome⟩ := hstop.nested (k := .rightParen) (by decide) (x := ')') rfl
    hend
  have habsorbs : (TokenSource.peek (beforeEnd tokens')).kind.absorbsBlank = false := by
    obtain ⟨u, tail, hu, hkind⟩ := Parse.Complete.group_start hh
    rw [hu]
    have hall : ∀ k ∈ Token.Kind.slash :: Parse.Complete.compoundStarts,
        k.absorbsBlank = false := by decide
    exact hall u.kind hkind
  obtain ⟨b, hb, rfl⟩ := hsome rfl habsorbs
  obtain ⟨blank, hblank, hscan, -⟩ := (tokenize_iff.mp htokens).nested (k := .semicolon)
    (by decide) (x := ';') rfl hscan'
  have hm : ∀ ts, FunctionCall "between"
      (beforeEnd tokens ++ [.ofKind .semicolon, b] ++ beforeEnd tokens') ts →
      (ModifierTree.between g h).Written sig ts :=
    fun ts hcall => .between hg (.mk rfl hb) hh hcall
  refine GroupTree.spells_function GroupPseudo.between.name_chars hblank ?_ hm (by simp; rfl)
  simpa using hscan

end Spells

/-! ## Compiling and recording -/

def recorded (registry : Registry Place) (source : String) :
    Except SelectorError (List String) := do
  let tokens ← tokenize source
  eventTexts { signatures := registry.entries.map fun (name, c) => (name, c.types) } tokens

theorem signature?_record (registry : Registry Place) :
    EventSink.signature? ({ signatures := registry.entries.map fun (name, c) => (name, c.types) } :
      EventRecord) = registry.signature? := by
  funext name
  show (registry.entries.map fun (name, c) => (name, c.types)).lookup name =
    (registry.entries.lookup name).map (·.types)
  induction registry.entries with
  | nil => rfl
  | cons entry entries ih =>
    rw [List.map_cons, List.lookup_cons, List.lookup_cons]
    cases name == entry.1 with
    | true => rfl
    | false => exact ih

theorem GroupTree.Spells.recorded_eq {registry : Registry Place} {g : GroupTree} {source : String}
    (h : g.Spells registry.signature? source) :
    recorded registry source = .ok (showEvents [[]] (g.events false)) := by
  obtain ⟨tokens, htokens, hg⟩ := h
  have hparse := parseTokens_eq_deliver tokens
    ({ signatures := registry.entries.map fun (name, c) => (name, c.types) } : EventRecord)
  rw [signature?_record, transcript_ok_iff.mpr ⟨g, hg, rfl⟩,
    Parse.bind_ok (EventRecord.deliver_eq _ _ #[])] at hparse
  rw [recorded, htokens]
  show eventTexts _ tokens = _
  rw [eventTexts, hparse]
  simp
  rfl

theorem Shows.starred {m : ModifierTree} {texts : List String} (h : Shows m.events texts) :
    Shows ((GroupTree.starred m).events false)
      ("init" :: "selector" :: "universal()" :: (texts ++ ["close"])) := by
  have hclose : Shows [.close] ["close"] := ShowsNested.nil.event (by simp) rfl
  have hstar := (h.append hclose).cons (e := .universal .unstated) (by simp) rfl
  have hstart := (hstar.cons (e := .alternative) (by simp) rfl).cons (e := .init) (by simp) rfl
  simpa [GroupTree.starred, GroupTree.events, AlternativeTree.listEvents, AlternativeTree.events,
    CompoundTree.events, ModifierTree.listEvents, CompoundHead.event, Event.texts,
    Namespace.written] using hstart

theorem texts_grouped {pseudo : GroupPseudo} (single : pseudo ≠ .between) (group : List String) :
    (Event.grouped pseudo).texts [group] =
      [pseudo.name ++ "[" ++ " ".intercalate group ++ "]"] := by
  cases pseudo with
  | between => exact absurd rfl single
  | _ => rfl

section Engine

variable [PatternEngine]

section Texts

variable {d : Document} {registry : Registry Place} {g : GroupTree} {source : String}

theorem GroupTree.Spells.compile_eq (h : g.Spells registry.signature? source) :
    d.compile registry source = g.selector registry false := by
  obtain ⟨tokens, htokens, hg⟩ := h
  exact d.compile_eq registry htokens hg

/-- A text that compiles is read as a tree. -/
theorem Document.exists_spells {s : Selector} (h : d.compile registry source = .ok s) :
    ∃ g : GroupTree, g.Spells registry.signature? source ∧ g.selector registry false = .ok s := by
  have hsource : source ≠ "" := by
    rintro rfl
    rw [Document.compile, Compiler.compile, if_pos rfl] at h
    cases h
  cases htokens : tokenize source with
  | error e =>
    rw [Document.compile, Compiler.compile, if_neg hsource, htokens] at h
    cases h
  | ok tokens =>
    have hparse : ∃ c, parseTokens tokens ({ document := d, registry } : Compiler) = .ok () c := by
      rw [Document.compile, Compiler.compile_of_tokenize hsource htokens, Compiler.compileTokens]
        at h
      cases hrun : parseTokens tokens ({ document := d, registry } : Compiler) with
      | ok u c => exact ⟨c, rfl⟩
      | error e c =>
        simp only [Bind.bind, EStateM.bind, Compiler.readTokens, hrun] at h
        cases h
    obtain ⟨c, hparse⟩ := hparse
    obtain ⟨es, htold⟩ := transcript_ok_of_parse hparse
    obtain ⟨g, hg, -⟩ := transcript_ok_iff.mp htold
    have hspells : g.Spells registry.signature? source := ⟨tokens, htokens, hg⟩
    exact ⟨g, hspells, (hspells.compile_eq).symm.trans h⟩

end Texts

/-! ## A star with one modifier -/

theorem GroupTree.selector_single {registry : Registry Place} {head : CompoundHead}
    {m : ModifierTree} {s : Selector} (h : m.stages registry = .ok [s]) (anchored : Bool) :
    (GroupTree.mk false [.last (.mk head [m])]).selector registry anchored =
      .ok (.group anchored [.andThen (.step head.step) s]) := by
  rw [GroupTree.selector, AlternativeTree.listStages, AlternativeTree.stages,
    CompoundTree.stages, ModifierTree.listStages, h]
  simp [AlternativeTree.listStages, ModifierTree.listStages, Selector.chain?]

theorem GroupTree.selector_starred {registry : Registry Place} {m : ModifierTree} {s : Selector}
    (h : m.stages registry = .ok [s]) : (GroupTree.starred m).selector registry false =
      .ok (.group false [.andThen (.step (.universal .unstated)) s]) :=
  GroupTree.selector_single h false

/-- Whether a group is anchored from around does not matter for its patterns. -/
theorem GroupTree.selector_anchored {registry : Registry Place} {g : GroupTree} {s : Selector}
    (h : g.selector registry false = .ok s) (anchored : Bool) :
    ∃ s', g.selector registry anchored = .ok s' := by
  cases g with
  | mk slashed alternatives =>
    rw [GroupTree.selector] at h ⊢
    obtain ⟨stages, hstages, -⟩ := except_bind_ok h
    rw [hstages]
    exact ⟨_, rfl⟩

theorem GroupTree.Spells.compile_pseudo {d : Document} {registry : Registry Place} {g : GroupTree}
    {source : String} (h : g.Spells registry.signature? source) {pseudo : GroupPseudo}
    (single : pseudo ≠ .between) {s t : Selector}
    (hs : g.selector registry pseudo.anchorsArgument = .ok s)
    (ht : Compiler.groupedSelector pseudo [s] = some t) :
    d.compile registry ("*:" ++ pseudo.name ++ "(" ++ source ++ ")") =
      .ok (.group false [.andThen (.step (.universal .unstated)) t]) := by
  rw [(h.pseudo single).compile_eq]
  apply GroupTree.selector_starred
  rw [ModifierTree.stages, hs]
  show Except.ok (Compiler.groupedSelector pseudo [s]).toList = _
  rw [ht]
  rfl

/-- A text that compiles is told and evaluated as the argument of a pseudo-class as it is alone. -/
theorem compile_nested (d : Document) (registry : Registry Place) {s t : String}
    {sel sel' : Selector} (hs : d.compile registry s = .ok sel)
    (ht : d.compile registry t = .ok sel') :
    ∃ rest rest' : List String,
      recorded registry s = .ok ("init" :: rest) ∧ recorded registry t = .ok ("init" :: rest') ∧
      (∀ pseudo : GroupPseudo, pseudo ≠ .between →
        (∃ u, d.compile registry ("*:" ++ pseudo.name ++ "(" ++ s ++ ")") = .ok u) ∧
        recorded registry ("*:" ++ pseudo.name ++ "(" ++ s ++ ")") =
          .ok ["init", "selector", "universal()", pseudo.name ++ "[" ++ " ".intercalate
            ("init" :: if pseudo = .not then "anchor" :: rest else rest) ++ "]", "close"]) ∧
      (∃ u, d.compile registry ("*:between(" ++ s ++ "; " ++ t ++ ")") = .ok u) ∧
      recorded registry ("*:between(" ++ s ++ "; " ++ t ++ ")") =
        .ok ["init", "selector", "universal()",
          "between-start[" ++ " ".intercalate ("init" :: rest) ++ "]",
          "between-end[" ++ " ".intercalate ("init" :: rest') ++ "]", "close"] ∧
      d.compile registry ("*:has(" ++ s ++ ")") =
        .ok (.group false [.andThen (.step (.universal .unstated)) (.has sel)]) ∧
      ∀ (d' : Document) (xs : List Place) (answer : Place → List Place),
        (∀ x ∈ xs, sel.eval d' [x] = .ok (answer x)) →
          (Selector.has sel).eval d' xs = .ok (xs.filter fun x => answer x ≠ []) := by
  obtain ⟨g, hg, hsel⟩ := Document.exists_spells hs
  obtain ⟨h, hh, hsel'⟩ := Document.exists_spells ht
  obtain ⟨rest, hrest⟩ := group_shows g
  obtain ⟨rest', hrest'⟩ := group_shows h
  refine ⟨rest, rest', ?_, ?_, fun pseudo single => ⟨?_, ?_⟩, ?_, ?_, ?_, ?_⟩
  · rw [hg.recorded_eq, (hrest false).showEvents_eq]
    rfl
  · rw [hh.recorded_eq, (hrest' false).showEvents_eq]
    rfl
  · obtain ⟨u, hu⟩ := GroupTree.selector_anchored hsel pseudo.anchorsArgument
    obtain ⟨v, hv, -⟩ := eval_groupedSelector d single u
    exact ⟨_, hg.compile_pseudo single hu hv⟩
  · have hcount : (Event.grouped pseudo).groupCount = 1 := Compiler.groupCount_of_single single
    have hmodifier : Shows (ModifierTree.grouped pseudo single g).events _ :=
      (ShowsNested.nest (hrest pseudo.anchorsArgument)).event (by simp) hcount
    have hanchor : (if pseudo.anchorsArgument then ["anchor"] else []) ++ rest =
        if pseudo = .not then "anchor" :: rest else rest := by
      cases pseudo <;> rfl
    rw [(hg.pseudo single).recorded_eq, hmodifier.starred.showEvents_eq, texts_grouped single,
      hanchor]
    rfl
  · have hstages : (ModifierTree.between g h).stages registry = .ok [.between sel sel'] := by
      rw [ModifierTree.stages, hsel, hsel']
      rfl
    exact ⟨_, (hg.between hh).compile_eq.trans (GroupTree.selector_starred hstages)⟩
  · have hmodifier : Shows (ModifierTree.between g h).events _ :=
      ((ShowsNested.nest (hrest false)).append (.nest (hrest' false))).event (by simp) rfl
    rw [(hg.between hh).recorded_eq, hmodifier.starred.showEvents_eq]
    rfl
  · have single : GroupPseudo.has ≠ .between := by decide
    exact hg.compile_pseudo single hsel rfl
  · intro d' xs answer hanswer
    have htest : ∀ x ∈ xs, (do return !(← sel.eval d' [x]).isEmpty : Except SelectorError Bool) =
        .ok (!(answer x).isEmpty) := by
      intro x hx
      rw [hanswer x hx]
      rfl
    rw [Selector.eval_has, filterM_ok htest]
    congr 1
    refine List.filter_congr fun x _ => ?_
    cases answer x <;> simp

end Engine

theorem compile_nested_blanks :
    recorded {} "*:not( a, b )" =
        .ok ["init", "selector", "universal()",
          "not[init anchor selector type(a) selector type(b) close]", "close"] ∧
      recorded {} "*:between( a, b ; /c)" =
        .ok ["init", "selector", "universal()",
          "between-start[init selector type(a) selector type(b) close]",
          "between-end[init anchor selector type(c) close]", "close"] := by
  have htokens : tokenize " a, b " = .ok [⟨.ident, "a"⟩, .ofKind .comma, ⟨.whiteSpace, " "⟩,
      ⟨.ident, "b"⟩, .endOfInput] := tokenize_of_scanWithin (by cbv)
  have htokens' : tokenize "/c" = .ok [.ofKind .slash, ⟨.ident, "c"⟩, .endOfInput] :=
    tokenize_of_scanWithin (by cbv)
  have hs : Document.empty.compile {} " a, b " = .ok (.group false
      [.step (.type .unstated "a"), .step (.type .unstated "b")]) := by
    rw [Document.compile, Compiler.compile_of_tokenize (by decide) htokens]
    rfl
  have ht : Document.empty.compile {} "/c" =
      .ok (.group true [.step (.type .unstated "c")]) := by
    rw [Document.compile, Compiler.compile_of_tokenize (by decide) htokens']
    rfl
  obtain ⟨rest, rest', hrest, hrest', hpseudo, -, hbetween, -⟩ := compile_nested _ {} hs ht
  have hplain : recorded {} " a, b " =
      .ok ["init", "selector", "type(a)", "selector", "type(b)", "close"] := by
    rw [recorded, htokens]
    rfl
  have hplain' : recorded {} "/c" = .ok ["init", "anchor", "selector", "type(c)", "close"] := by
    rw [recorded, htokens']
    rfl
  cases hplain.symm.trans hrest
  cases hplain'.symm.trans hrest'
  exact ⟨(hpseudo .not (by decide)).2, hbetween⟩

end TreeQuery
