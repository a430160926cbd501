import TreeQuery.Document.Builder
import TreeQuery.Pattern.OfText
import TreeQuery.Proofs.Compile.Nesting
import TreeQuery.Proofs.Selector.Repetition

/-!
# Texts joined by commas

Texts that compile can be joined by commas, unless one starts with a slash. The result is that of
the first text, followed by what each later text adds to it.
-/

set_option autoImplicit false

namespace TreeQuery

/-- The first character of a text after its blanks, if there is one, is no slash. -/
def Unslashed (source : String) : Prop :=
  (source.toList.dropWhile isBlank).head? ≠ some '/'

theorem Unslashed.indent {s : String} (hs : Unslashed s) : Unslashed (" " ++ s) := by
  have hdrop : (" " ++ s).toList.dropWhile isBlank = s.toList.dropWhile isBlank := by
    rw [String.toList_append]
    exact List.dropWhile_cons_of_pos rfl
  rw [Unslashed, hdrop]
  exact hs

/-! ## Tokens -/

namespace Token

section Scan

variable {cs more rest : List Char} {ts us : List Token}

theorem TokenScan.eq_slash {c : Char} {t : Token} (h : TokenScan c cs t rest)
    (ht : t.kind = .slash) : c = '/' := by
  cases h with
  | @fixed k _ _ _ hwritten _ =>
    obtain rfl : k = .slash := ht
    exact (List.cons.inj hwritten).1.symm
  | _ => cases ht

theorem SequenceScan.head_slash {t : Token} (h : SequenceScan false [] cs (t :: ts))
    (ht : t.kind = .slash) : (cs.dropWhile isBlank).head? = some '/' := by
  obtain ⟨u, us, hu, hrun⟩ := h.first
  obtain ⟨rfl, rfl⟩ := List.cons.inj hu
  have hrun := hrun false []
  have hstop := List.head?_dropWhile_not isBlank cs
  generalize cs.dropWhile isBlank = left at hrun hstop ⊢
  rw [show withBlanks false [] t = [t] from rfl] at hrun
  generalize hall : [t] ++ ts = all at hrun
  cases hrun with
  | nil =>
    obtain ⟨rfl, -⟩ := List.cons.inj hall
    cases ht
  | blank hblank _ =>
    exact absurd hblank (by simpa using hstop)
  | token _ hscan _ =>
    obtain ⟨rfl, -⟩ := List.cons.inj hall
    rw [hscan.eq_slash ht]
    rfl

/-- Two texts with a comma between them are read as they are alone, the second one after a blank if
it starts with one. -/
theorem SequenceScan.comma (h : SequenceScan false [] cs ts) (h' : SequenceScan false [] more us) :
    ∃ blank, Blank blank ∧ SequenceScan false [] (cs ++ ',' :: more)
      (beforeEnd ts ++ ofKind .comma :: (blank ++ us)) := by
  obtain ⟨u, tail, rfl, hmore⟩ := h'.restart
  obtain ⟨blank, hblank, hwith, -⟩ := withBlanks_eq (more.takeWhile isBlank) u
  rw [hwith, List.append_assoc, List.singleton_append] at hmore
  obtain ⟨body, hbody, hrun⟩ := h.append (k := .comma) (by decide) (x := ',') rfl hmore
  obtain ⟨body', hbody', hfree⟩ := h.endFree
  obtain rfl : body = body' := List.append_cancel_right (hbody.symm.trans hbody')
  refine ⟨blank, hblank, ?_⟩
  rw [hbody, beforeEnd_append hfree rfl]
  exact hrun

end Scan

end Token

/-! ## Trees -/

section Trees

variable {sig : String → Option (List ArgumentType)} {as bs : List AlternativeTree}
  {ts us : List Token} {s t : String}

theorem MoreAlternativesWritten.append (h : MoreAlternativesWritten sig as ts)
    (h' : MoreAlternativesWritten sig bs us) :
    MoreAlternativesWritten sig (as ++ bs) (ts ++ us) := by
  induction as generalizing ts with
  | nil =>
    cases h
    exact h'
  | cons a as ih =>
    cases h with
    | cons hcomma hblank ha has =>
      have hall := MoreAlternativesWritten.cons hcomma hblank ha (ih has)
      simpa using hall

theorem GroupTree.Written.comma (h : (GroupTree.mk false as).Written sig ts)
    (h' : (GroupTree.mk false bs).Written sig us) {comma : Token} (hcomma : comma.kind = .comma)
    {blank : List Token} (hblank : Blank blank) :
    (GroupTree.mk false (as ++ bs)).Written sig (ts ++ comma :: (blank ++ us)) := by
  cases h with
  | plain ha has =>
    cases h' with
    | plain hb hbs =>
      have hmore := MoreAlternativesWritten.cons hcomma hblank hb hbs
      have hall := GroupTree.Written.plain ha (has.append hmore)
      simpa using hall

theorem GroupTree.Spells.unslashed {slashed : Bool}
    (h : (GroupTree.mk slashed as).Spells sig s) (hs : Unslashed s) : slashed = false := by
  obtain ⟨tokens, htokens, hg⟩ := h
  obtain ⟨rest, hsplit, -⟩ := beforeEnd_split tokens
  generalize beforeEnd tokens = used at hg hsplit
  cases hg with
  | plain _ _ => rfl
  | slashed hslash _ _ _ =>
    have hscan := tokenize_iff.mp htokens
    rw [hsplit, List.cons_append] at hscan
    exact absurd (hscan.head_slash hslash) hs

theorem GroupTree.Spells.indent {g : GroupTree} (h : g.Spells sig s) : g.Spells sig (" " ++ s) := by
  obtain ⟨tokens, htokens, hg⟩ := h
  have hscan := (tokenize_iff.mp htokens).cons_blank (c := ' ') rfl
  exact ⟨tokens, tokenize_iff.mpr (by simpa using hscan), hg⟩

theorem GroupTree.Spells.comma (h : (GroupTree.mk false as).Spells sig s)
    (h' : (GroupTree.mk false bs).Spells sig t) :
    (GroupTree.mk false (as ++ bs)).Spells sig (s ++ "," ++ t) := by
  obtain ⟨tokens, htokens, hg⟩ := h
  obtain ⟨tokens', htokens', hg'⟩ := h'
  obtain ⟨blank, hblank, hrun⟩ := (tokenize_iff.mp htokens).comma (tokenize_iff.mp htokens')
  have hkind : (Token.ofKind .comma).kind = .comma := rfl
  have hwritten := hg.comma hg' hkind hblank
  refine ⟨_, tokenize_iff.mpr (by simpa using hrun), ?_⟩
  obtain ⟨rest, hsplit, hend⟩ := beforeEnd_split tokens'
  have hbefore := beforeEnd_append (EndFree.group hwritten) hend
  rw [List.append_assoc, List.cons_append, List.append_assoc, ← hsplit] at hbefore
  rw [hbefore]
  exact hwritten

/-- Texts with commas between them are read as the alternatives of all of them. -/
theorem GroupTree.spells_intercalate {trees : String → List AlternativeTree} {texts : List String}
    (hne : texts ≠ []) (h : ∀ text ∈ texts, (GroupTree.mk false (trees text)).Spells sig text) :
    (GroupTree.mk false (texts.flatMap trees)).Spells sig (",".intercalate texts) := by
  induction texts with
  | nil => exact absurd rfl hne
  | cons text texts ih =>
    have htext := h text List.mem_cons_self
    cases texts with
    | nil => simpa using htext
    | cons next texts =>
      have hrest := ih (List.cons_ne_nil _ _) fun text' hmem =>
        h text' (List.mem_cons_of_mem _ hmem)
      rw [String.intercalate_cons_cons, List.flatMap_cons]
      exact htext.comma hrest

end Trees

section Engine

variable [PatternEngine]

/-! ## Evaluation -/

section Evaluation

variable {d : Document} {registry : Registry Place}

theorem AlternativeTree.listStages_append (as bs : List AlternativeTree) :
    AlternativeTree.listStages registry (as ++ bs) = (do
      let stages ← AlternativeTree.listStages registry as
      return stages ++ (← AlternativeTree.listStages registry bs)) := by
  induction as with
  | nil => simp [AlternativeTree.listStages]
  | cons a as ih => simp [AlternativeTree.listStages, ih]

theorem AlternativeTree.listEval_append (as bs : List AlternativeTree) (xs : List Place) :
    AlternativeTree.listEval d registry (as ++ bs) xs = (do
      let ys ← AlternativeTree.listEval d registry as xs
      return ys ++ (← AlternativeTree.listEval d registry bs xs)) := by
  induction as with
  | nil => simp [AlternativeTree.listEval]
  | cons a as ih =>
    rw [List.cons_append, AlternativeTree.listEval, AlternativeTree.listEval, ih]
    simp only [bind_assoc, pure_bind, List.append_assoc]

theorem GroupTree.eval_unslashed (as : List AlternativeTree) (xs : List Place) :
    (GroupTree.mk false as).eval d registry false xs =
      List.eraseDups <$> AlternativeTree.listEval d registry as
        (xs.flatMap (Place.descendants d)) := by
  rw [GroupTree.eval, map_eq_pure_bind]
  rfl

theorem GroupTree.eval_comma (as bs : List AlternativeTree) (xs : List Place) :
    (GroupTree.mk false (as ++ bs)).eval d registry false xs = (do
      let ys ← (GroupTree.mk false as).eval d registry false xs
      let zs ← (GroupTree.mk false bs).eval d registry false xs
      return ys ++ zs.filter fun z => z ∉ ys) := by
  rw [eval_unslashed, eval_unslashed, eval_unslashed, AlternativeTree.listEval_append]
  generalize xs.flatMap (Place.descendants d) = base
  cases AlternativeTree.listEval d registry as base with
  | error e => rfl
  | ok ys =>
    cases AlternativeTree.listEval d registry bs base with
    | error e => rfl
    | ok zs =>
      show Except.ok (ys ++ zs).eraseDups =
        .ok (ys.eraseDups ++ zs.eraseDups.filter fun z => z ∉ ys.eraseDups)
      rw [eraseDups_append]
      simp

/-- The alternatives of several texts, of which none fails. -/
theorem AlternativeTree.listEval_flatMap {trees : String → List AlternativeTree}
    {answers : String → List Place} {texts : List String} {base : List Place}
    (h : ∀ text ∈ texts, AlternativeTree.listEval d registry (trees text) base =
      .ok (answers text)) :
    AlternativeTree.listEval d registry (texts.flatMap trees) base =
      .ok (texts.flatMap answers) := by
  induction texts with
  | nil => rfl
  | cons text texts ih =>
    have hrest := ih fun text' hmem => h text' (List.mem_cons_of_mem _ hmem)
    rw [List.flatMap_cons, AlternativeTree.listEval_append, h text List.mem_cons_self, hrest]
    rfl

theorem AlternativeTree.listStages_flatMap {trees : String → List AlternativeTree}
    {texts : List String} (h : ∀ text ∈ texts, ∃ stages,
      AlternativeTree.listStages registry (trees text) = .ok stages) :
    ∃ stages, AlternativeTree.listStages registry (texts.flatMap trees) = .ok stages := by
  induction texts with
  | nil => exact ⟨[], rfl⟩
  | cons text texts ih =>
    obtain ⟨stages, hstages⟩ := h text List.mem_cons_self
    obtain ⟨more, hmore⟩ := ih fun text' hmem => h text' (List.mem_cons_of_mem _ hmem)
    refine ⟨stages ++ more, ?_⟩
    rw [List.flatMap_cons, AlternativeTree.listStages_append, hstages, hmore]
    rfl

end Evaluation

/-! ## Texts -/

section Texts

variable {d : Document} {registry : Registry Place} {s t : String} {u v : Selector}

/-- What a text without a slash in front is read as, and what its selector has to do with it. -/
theorem Document.exists_alternatives (h : d.compile registry s = .ok u) (hs : Unslashed s) :
    ∃ as : List AlternativeTree, (GroupTree.mk false as).Spells registry.signature? s ∧
      (GroupTree.mk false as).selector registry false = .ok u ∧
      ∀ xs, u.eval d xs = (GroupTree.mk false as).eval d registry false xs := by
  obtain ⟨⟨slashed, as⟩, hspells, hselector⟩ := Document.exists_spells h
  obtain rfl := hspells.unslashed hs
  exact ⟨as, hspells, hselector, group_eval _ hselector⟩

theorem GroupTree.listStages_of_selector {as : List AlternativeTree}
    (h : (GroupTree.mk false as).selector registry false = .ok u) :
    ∃ stages, AlternativeTree.listStages registry as = .ok stages := by
  rw [GroupTree.selector] at h
  obtain ⟨stages, hstages, -⟩ := except_bind_ok h
  exact ⟨stages, hstages⟩

theorem GroupTree.Spells.exists_compile {as : List AlternativeTree}
    (h : (GroupTree.mk false as).Spells registry.signature? s)
    {stages : List (List Selector)}
    (hstages : AlternativeTree.listStages registry as = .ok stages) :
    ∃ w, d.compile registry s = .ok w ∧
      ∀ xs, w.eval d xs = (GroupTree.mk false as).eval d registry false xs := by
  have hselector : (GroupTree.mk false as).selector registry false =
      .ok (.group false (stages.filterMap Selector.chain?)) := by
    rw [GroupTree.selector, hstages]
    rfl
  exact ⟨_, h.compile_eq.trans hselector, group_eval _ hselector⟩

theorem compile_pair (hs : d.compile registry s = .ok u) (ht : d.compile registry t = .ok v)
    (hs' : Unslashed s) (ht' : Unslashed t) :
    ∃ w, d.compile registry (s ++ "," ++ t) = .ok w ∧ ∀ xs, w.eval d xs = (do
      let ys ← u.eval d xs
      let zs ← v.eval d xs
      return ys ++ zs.filter fun z => z ∉ ys) := by
  obtain ⟨as, hspells, hu, hueval⟩ := Document.exists_alternatives hs hs'
  obtain ⟨bs, hspells', hv, hveval⟩ := Document.exists_alternatives ht ht'
  obtain ⟨stages, hstages⟩ := GroupTree.listStages_of_selector hu
  obtain ⟨more, hmore⟩ := GroupTree.listStages_of_selector hv
  have hall : AlternativeTree.listStages registry (as ++ bs) = .ok (stages ++ more) := by
    rw [AlternativeTree.listStages_append, hstages, hmore]
    rfl
  obtain ⟨w, hw, hweval⟩ := (hspells.comma hspells').exists_compile (d := d) hall
  refine ⟨w, hw, fun xs => ?_⟩
  rw [hweval, GroupTree.eval_comma, hueval, hveval]

/-- A text after a blank is the same text. -/
theorem compile_indent (hs : d.compile registry s = .ok u) :
    d.compile registry (" " ++ s) = .ok u := by
  obtain ⟨g, hspells, hu⟩ := Document.exists_spells hs
  exact hspells.indent.compile_eq.trans hu

theorem compile_repeated (hs : d.compile registry s = .ok u) (hs' : Unslashed s) :
    ∃ w, d.compile registry (s ++ ", " ++ s) = .ok w ∧ ∀ xs, w.eval d xs = u.eval d xs := by
  obtain ⟨w, hw, heval⟩ := compile_pair hs (compile_indent hs) hs' hs'.indent
  refine ⟨w, ?_, fun xs => ?_⟩
  · have htext : s ++ ", " ++ s = s ++ "," ++ (" " ++ s) := by
      apply String.ext
      simp
    rw [htext]
    exact hw
  · rw [heval]
    cases u.eval d xs with
    | error e => rfl
    | ok ys =>
      have hnone : (ys.filter fun z => z ∉ ys) = [] := by
        rw [List.filter_eq_nil_iff]
        intro z hz
        simpa using hz
      show Except.ok (ys ++ ys.filter fun z => z ∉ ys) = _
      rw [hnone, List.append_nil]

theorem AlternativeTree.exists_listEval {as : List AlternativeTree} {xs ys : List Place}
    (h : (GroupTree.mk false as).eval d registry false xs = .ok ys) :
    ∃ zs, AlternativeTree.listEval d registry as (xs.flatMap (Place.descendants d)) =
      .ok zs := by
  rw [GroupTree.eval_unslashed] at h
  cases hrun : AlternativeTree.listEval d registry as (xs.flatMap (Place.descendants d)) with
  | error e =>
    rw [hrun] at h
    cases h
  | ok zs => exact ⟨zs, rfl⟩

/-- The order of texts decides only the order of the result. -/
theorem compile_reordered {texts reordered : List String} (hperm : texts.Perm reordered)
    (hne : texts ≠ [])
    (h : ∀ text ∈ texts, Unslashed text ∧ ∃ w, d.compile registry text = .ok w) :
    ∃ w w', d.compile registry (",".intercalate texts) = .ok w ∧
      d.compile registry (",".intercalate reordered) = .ok w' ∧
      ∀ xs, (∀ text ∈ texts, ∀ r, d.compile registry text = .ok r → ∃ ys, r.eval d xs = .ok ys) →
        ∃ ys zs, w.eval d xs = .ok ys ∧ w'.eval d xs = .ok zs ∧ ys.Perm zs := by
  have htrees : ∀ text ∈ texts, ∃ as u, d.compile registry text = .ok u ∧
      (GroupTree.mk false as).Spells registry.signature? text ∧
      (GroupTree.mk false as).selector registry false = .ok u ∧
      ∀ xs, u.eval d xs = (GroupTree.mk false as).eval d registry false xs := by
    intro text hmem
    obtain ⟨hslash, u, hu⟩ := h text hmem
    obtain ⟨as, hall⟩ := Document.exists_alternatives hu hslash
    exact ⟨as, u, hu, hall⟩
  choose! trees sel hsel using htrees
  have hstages : ∀ text ∈ texts, ∃ stages,
      AlternativeTree.listStages registry (trees text) = .ok stages :=
    fun text hmem => GroupTree.listStages_of_selector (hsel text hmem).2.2.1
  have hjoin : ∀ order : List String, order.Perm texts →
      ∃ w, d.compile registry (",".intercalate order) = .ok w ∧ ∀ xs, w.eval d xs =
        (GroupTree.mk false (order.flatMap trees)).eval d registry false xs := by
    intro order horder
    have horder_ne : order ≠ [] := fun hnil => hne (by simpa [hnil] using horder.symm)
    have hspells := GroupTree.spells_intercalate horder_ne fun text hmem =>
      (hsel text (horder.mem_iff.mp hmem)).2.1
    obtain ⟨stages, hall⟩ := AlternativeTree.listStages_flatMap fun text hmem =>
      hstages text (horder.mem_iff.mp hmem)
    exact hspells.exists_compile hall
  obtain ⟨w, hw, hweval⟩ := hjoin texts (List.Perm.refl _)
  obtain ⟨w', hw', hweval'⟩ := hjoin reordered hperm.symm
  refine ⟨w, w', hw, hw', fun xs hxs => ?_⟩
  have hanswers : ∀ text ∈ texts, ∃ ys, AlternativeTree.listEval d registry (trees text)
      (xs.flatMap (Place.descendants d)) = .ok ys := by
    intro text hmem
    obtain ⟨hcompile, -, -, heval⟩ := hsel text hmem
    obtain ⟨ys, hys⟩ := hxs text hmem _ hcompile
    rw [heval] at hys
    exact AlternativeTree.exists_listEval hys
  choose! answers hanswers using hanswers
  refine ⟨_, _, ?_, ?_, perm_eraseDups (hperm.flatMap_right answers)⟩
  · rw [hweval, GroupTree.eval_unslashed, AlternativeTree.listEval_flatMap hanswers]
    rfl
  · rw [hweval', GroupTree.eval_unslashed, AlternativeTree.listEval_flatMap fun text hmem =>
      hanswers text (hperm.mem_iff.mpr hmem)]
    rfl

/-- A comma is the union of results in order: what the second text adds comes after the result of
the first, and the first text that fails is the error. Hence a text joined with itself is that text,
and texts in another order give the same places in another order. -/
theorem compile_comma (hs : d.compile registry s = .ok u) (ht : d.compile registry t = .ok v)
    (hs' : Unslashed s) (ht' : Unslashed t) :
    (∃ w, d.compile registry (s ++ "," ++ t) = .ok w ∧ ∀ xs, w.eval d xs = (do
      let ys ← u.eval d xs
      let zs ← v.eval d xs
      return ys ++ zs.filter fun z => z ∉ ys)) ∧
    (∃ w, d.compile registry (s ++ ", " ++ s) = .ok w ∧ ∀ xs, w.eval d xs = u.eval d xs) ∧
    ∀ texts reordered : List String, texts.Perm reordered → texts ≠ [] →
      (∀ text ∈ texts, Unslashed text ∧ ∃ w, d.compile registry text = .ok w) →
        ∃ w w', d.compile registry (",".intercalate texts) = .ok w ∧
          d.compile registry (",".intercalate reordered) = .ok w' ∧
          ∀ xs, (∀ text ∈ texts, ∀ r, d.compile registry text = .ok r →
              ∃ ys, r.eval d xs = .ok ys) →
            ∃ ys zs, w.eval d xs = .ok ys ∧ w'.eval d xs = .ok zs ∧ ys.Perm zs :=
  ⟨compile_pair hs ht hs' ht', compile_repeated hs hs', fun _ _ => compile_reordered⟩

end Texts

end Engine

/-- The place that both texts give comes first, and is given once. -/
theorem compile_comma_overlap :
    Document.compile (.build [.leaf "b", .leaf "a"]) {} "a" =
        .ok (.group false [.step (.type .unstated "a")]) ∧
      Document.compile (.build [.leaf "b", .leaf "a"]) {} " *" =
        .ok (.group false [.step (.universal .unstated)]) ∧
      Unslashed "a" ∧ Unslashed " *" ∧
      ∃ w, Document.compile (.build [.leaf "b", .leaf "a"]) {} "a, *" = .ok w ∧
        w.eval (.build [.leaf "b", .leaf "a"]) [.node 0] = .ok [.node 2, .node 1] := by
  have htokens : tokenize "a" = .ok [⟨.ident, "a"⟩, .endOfInput] :=
    tokenize_of_scanWithin (by cbv)
  have htokens' : tokenize " *" = .ok [.ofKind .star, .endOfInput] :=
    tokenize_of_scanWithin (by cbv)
  have hs : Document.compile (.build [.leaf "b", .leaf "a"]) {} "a" =
      .ok (.group false [.step (.type .unstated "a")]) := by
    rw [Document.compile, Compiler.compile_of_tokenize (by decide) htokens]
    rfl
  have ht : Document.compile (.build [.leaf "b", .leaf "a"]) {} " *" =
      .ok (.group false [.step (.universal .unstated)]) := by
    rw [Document.compile, Compiler.compile_of_tokenize (by decide) htokens']
    rfl
  have hs' : Unslashed "a" := by simp [Unslashed, isBlank]
  have ht' : Unslashed " *" := by simp [Unslashed, isBlank]
  obtain ⟨⟨w, hw, heval⟩, -⟩ := compile_comma hs ht hs' ht'
  refine ⟨hs, ht, hs', ht', w, hw, ?_⟩
  rw [heval]
  cbv

end TreeQuery
