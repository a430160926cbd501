import TreeQuery.Proofs.Document.Building
import TreeQuery.Proofs.Selector.Repetition

/-!
# Documents as trees

What lies below the root of a document is an ordered tree of elements, texts and comments. The steps
that open, fill and close its elements one after another build a document with just this tree.
-/

set_option autoImplicit false

namespace TreeQuery

/-- A tree of what can lie in a document. -/
inductive Content where
  | element (tag : String) (attributes : Attributes) (contents : List Content)
  | text (text : String)
  | comment (text : String)

namespace Content

mutual

def steps : Content → List BuildStep
  | element tag attributes contents =>
    .element tag :: (attributes.entries.map fun e => .setAttribute e.1 e.2) ++ listSteps contents ++
      [.close]
  | text s => [.text s]
  | comment s => [.comment s]

def listSteps : List Content → List BuildStep
  | [] => []
  | c :: cs => c.steps ++ listSteps cs

end

mutual

def lower : Content → Content
  | element tag attributes contents => element tag.toLower attributes (listLower contents)
  | text s => text s
  | comment s => comment s

def listLower : List Content → List Content
  | [] => []
  | c :: cs => c.lower :: listLower cs

end

end Content

namespace Document

/-- The tree of a node, which the root has none of. -/
def content? (d : Document) (i : Nat) : Option Content :=
  match d.kind? i with
  | some (.element tag) =>
    some (.element tag (d.attributes i)
      ((d.children i).attach.filterMap fun ⟨child, _⟩ => d.content? child))
  | some (.text s) => some (.text s)
  | some (.comment s) => some (.comment s)
  | _ => none
termination_by d.size - i
decreasing_by
  have hlt := lt_of_mem_children ‹_›
  have hsize := lt_size_of_mem_children ‹_›
  omega

def contents (d : Document) : List Content :=
  (d.children root).filterMap d.content?

theorem content?_eq (d : Document) (i : Nat) : d.content? i =
    match d.kind? i with
    | some (.element tag) =>
      some (.element tag (d.attributes i) ((d.children i).filterMap d.content?))
    | some (.text s) => some (.text s)
    | some (.comment s) => some (.comment s)
    | _ => none := by
  rw [content?]
  simp [List.filterMap_subtype]

theorem filterMap_of_map_eq {α β : Type} {f : α → Option β} {xs : List α} {ys : List β}
    (h : xs.map f = ys.map some) : xs.filterMap f = ys := by
  have hid : xs.filterMap f = (xs.map f).filterMap id := by
    rw [List.filterMap_map]
    rfl
  rw [hid, h, List.filterMap_map]
  exact List.filterMap_some

/-- The tree of a node depends on nodes that are not older alone. -/
theorem content?_congr {d d' : Document} {i : Nat} (hi : i < d.size)
    (h : ∀ j, i ≤ j → j < d.size → d'.kind? j = d.kind? j ∧ d'.attributes j = d.attributes j ∧
      d'.children j = d.children j) : d'.content? i = d.content? i := by
  induction i using subtree.induct d with
  | case1 i ih =>
    obtain ⟨hkind, hattributes, hchildren⟩ := h i (Nat.le_refl i) hi
    have hbelow : (d.children i).filterMap d'.content? = (d.children i).filterMap d.content? := by
      refine List.filterMap_congr fun c hc => ih c hc (lt_size_of_mem_children hc) fun j hj => ?_
      exact h j (Nat.le_of_lt (Nat.lt_of_lt_of_le (lt_of_mem_children hc) hj))
    rw [content?_eq, content?_eq d, hkind, hattributes, hchildren, hbelow]

end Document

/-! ## Attributes one after another -/

namespace Attributes

theorem entries_set_of_not_mem {a : Attributes} {name : String} (h : name.toLower ∉ a.names)
    (value : String) : (a.set name value).entries = a.entries ++ [(name.toLower, value)] := by
  rw [set, dif_neg h]

theorem names_set (a : Attributes) (name value : String) : (a.set name value).names =
    if name.toLower ∈ a.names then a.names else a.names ++ [name.toLower] := by
  by_cases hmem : name.toLower ∈ a.names
  · have hsame : (Prod.fst ∘ fun e : String × String =>
        if e.1 = name.toLower then (e.1, value) else e) = Prod.fst := by
      funext e
      simp only [Function.comp]
      split <;> rfl
    rw [if_pos hmem, names, set, dif_pos hmem]
    show (a.entries.map _).map Prod.fst = _
    rw [List.map_map, hsame, names]
  · rw [if_neg hmem, names, entries_set_of_not_mem hmem, List.map_append]
    rfl

/-- Names stand in the order in which they were set first. -/
theorem names_foldl_set (settings : List (String × String)) (a : Attributes) :
    (settings.foldl (fun a s => a.set s.1 s.2) a).names =
      (a.names ++ settings.map fun s => s.1.toLower).eraseDups := by
  induction settings using List.reverseRecOn with
  | nil =>
    rw [List.map_nil, List.append_nil, eraseDups_of_nodup (show a.names.Nodup from a.nodup)]
    rfl
  | append_singleton settings s ih =>
    rw [List.foldl_append, List.foldl_cons, List.foldl_nil, names_set, ih, List.map_append,
      List.map_singleton, ← List.append_assoc, eraseDups_concat]
    simp only [List.mem_eraseDups]

/-- Setting attributes whose names are new and in lower case puts them at the end. -/
theorem entries_foldl_set {entries : List (String × String)} {a : Attributes}
    (hlower : ∀ e ∈ entries, e.1.toLower = e.1)
    (hnodup : (a.names ++ entries.map Prod.fst).Nodup) :
    (entries.foldl (fun a e => a.set e.1 e.2) a).entries = a.entries ++ entries := by
  induction entries generalizing a with
  | nil => exact (List.append_nil _).symm
  | cons e entries ih =>
    obtain ⟨he, hentries⟩ := List.forall_mem_cons.mp hlower
    have hnew : e.1.toLower ∉ a.names := by
      rw [he]
      intro hmem
      exact (List.nodup_append.mp hnodup).2.2 e.1 hmem e.1 (by simp) rfl
    have hset : (a.set e.1 e.2).entries = a.entries ++ [e] := by
      rw [entries_set_of_not_mem hnew, he]
    have hnames : (a.set e.1 e.2).names = a.names ++ [e.1] := by
      rw [names_set, if_neg hnew, he]
    rw [List.foldl_cons, ih hentries (by rw [hnames, List.append_assoc]; exact hnodup), hset,
      List.append_assoc]
    rfl

theorem foldl_set_entries (a : Attributes) :
    a.entries.foldl (fun a e => a.set e.1 e.2) .empty = a := by
  have hentries := entries_foldl_set (a := .empty) a.lower a.nodup
  cases hset : a.entries.foldl (fun a e => a.set e.1 e.2) empty with
  | mk entries lower nodup =>
    rw [hset] at hentries
    cases a
    cases hentries
    rfl

end Attributes

/-! ## Building a tree -/

namespace DocumentBuilder

open Document

theorem run_append (b : DocumentBuilder) (xs ys : List BuildStep) :
    b.run (xs ++ ys) = (b.run xs).run ys := by
  induction xs generalizing b with
  | nil => rfl
  | cons x xs ih => exact ih (b.step x)

/-- The builder `b'` has the trees `cs` at the end of the current element of `b`, and is otherwise
the same. -/
structure Gains (b b' : DocumentBuilder) (cs : List Content) : Prop where
  openElements : b'.openElements = b.openElements
  extendedBy : b.document.ExtendedBy b'.document
  attributes : ∀ i < b.document.size, b'.document.attributes i = b.document.attributes i
  children : ∀ i < b.document.size, i ≠ b.current →
    b'.document.children i = b.document.children i
  contents : ∃ ns, b'.document.children b.current = b.document.children b.current ++ ns ∧
    (∀ n ∈ ns, b.document.size ≤ n) ∧ ns.map b'.document.content? = cs.map some

variable {b b' b'' : DocumentBuilder} {cs cs' : List Content}

namespace Gains

theorem refl (b : DocumentBuilder) : Gains b b [] where
  openElements := rfl
  extendedBy := .refl _
  attributes _ _ := rfl
  children _ _ _ := rfl
  contents := ⟨[], (List.append_nil _).symm, by simp, rfl⟩

theorem current (h : Gains b b' cs) : b'.current = b.current :=
  congrArg (List.headD · root) h.openElements

theorem trans (hb : b.current < b.document.size) (h : Gains b b' cs) (h' : Gains b' b'' cs') :
    Gains b b'' (cs ++ cs') where
  openElements := h'.openElements.trans h.openElements
  extendedBy := h.extendedBy.trans h'.extendedBy
  attributes i hi :=
    (h'.attributes i (Nat.lt_of_lt_of_le hi h.extendedBy.size_le)).trans (h.attributes i hi)
  children i hi hne :=
    (h'.children i (Nat.lt_of_lt_of_le hi h.extendedBy.size_le) (h.current ▸ hne)).trans
      (h.children i hi hne)
  contents := by
    obtain ⟨ns, hchildren, hnew, hcontents⟩ := h.contents
    obtain ⟨ns', hchildren', hnew', hcontents'⟩ := h'.contents
    rw [h.current, hchildren, List.append_assoc] at hchildren'
    refine ⟨ns ++ ns', hchildren', fun n hn => ?_, ?_⟩
    · rcases List.mem_append.mp hn with hn | hn
      · exact hnew n hn
      · exact Nat.le_trans h.extendedBy.size_le (hnew' n hn)
    · have hkept : ns.map b''.document.content? = ns.map b'.document.content? := by
        refine List.map_congr_left fun n hn => ?_
        have hn' : n ∈ b'.document.children b.current := by
          rw [hchildren]
          exact List.mem_append_right _ hn
        refine content?_congr (lt_size_of_mem_children hn') fun j hnj hj => ?_
        have hne : j ≠ b'.current := by
          have := hnew n hn
          rw [h.current]
          omega
        exact ⟨h'.extendedBy.kind? hj, h'.attributes j hj, h'.children j hj hne⟩
      rw [List.map_append, List.map_append, hkept, hcontents, hcontents']

end Gains

/-- One node that is not opened and has no attributes. -/
theorem gains_grow (hb : b.current < b.document.size) {kind : NodeKind} {hk : kind ≠ .root}
    {c : Content} (hc : (b.document.grow b.current kind hk).content? b.document.size = some c) :
    Gains b { b with document := b.document.grow b.current kind hk } [c] where
  openElements := rfl
  extendedBy := extendedBy_grow hb
  attributes i _ := attributes_grow hb i
  children i _ hne := by rw [children_grow hb, if_neg hne]
  contents := by
    refine ⟨[b.document.size], ?_, by simp, by simp [hc]⟩
    rw [children_grow hb, if_pos rfl]

/-- Attributes that are set one after another go to the innermost open element. -/
theorem run_setAttributes {n : Nat} (around : List Nat) {d : Document} (hn : n < d.size)
    (entries : List (String × String)) : ∃ d' : Document,
      run ⟨d, n :: around⟩ (entries.map fun e => .setAttribute e.1 e.2) = ⟨d', n :: around⟩ ∧
      d.ExtendedBy d' ∧ d'.size = d.size ∧ (∀ i, d'.children i = d.children i) ∧
      ∀ i, d'.attributes i =
        if n = i then entries.foldl (fun a e => a.set e.1 e.2) (d.attributes i)
        else d.attributes i := by
  induction entries generalizing d with
  | nil => exact ⟨d, rfl, .refl d, rfl, fun _ => rfl, fun i => (ite_self _).symm⟩
  | cons e entries ih =>
    have hkept := d.extendedBy_setAttribute n e.1 e.2
    obtain ⟨d', hrun, hextended, hsize, hchildren, hattributes⟩ :=
      ih (Nat.lt_of_lt_of_le hn hkept.size_le)
    refine ⟨d', hrun, hkept.trans hextended, hsize.trans (size_setAttribute ..), fun i => ?_,
      fun i => ?_⟩
    · rw [hchildren, children_setAttribute]
    · rw [hattributes, attributes_setAttribute _ _ _ hn]
      split <;> rfl

/-- The document `d` has one more element than that of `b`, the last child of the current one. -/
structure Opened (b : DocumentBuilder) (d : Document) (tag : String) (a : Attributes) : Prop where
  size : d.size = b.document.size + 1
  extendedBy : b.document.ExtendedBy d
  kind : d.kind? b.document.size = some (.element tag)
  attributes : ∀ i, d.attributes i = if i = b.document.size then a else b.document.attributes i
  children : ∀ i, d.children i =
    if i = b.current then b.document.children i ++ [b.document.size] else b.document.children i

/-- An element is opened, and its attributes are set. -/
theorem exists_opened (hb : b.current < b.document.size) (tag : String) (a : Attributes) :
    ∃ d, b.run (.element tag :: a.entries.map fun e => .setAttribute e.1 e.2) =
        ⟨d, b.document.size :: b.openElements⟩ ∧ Opened b d tag.toLower a := by
  have hk : NodeKind.element tag.toLower ≠ .root := NodeKind.element_ne_root _
  have hsize : (b.document.grow b.current _ hk).size = b.document.size + 1 := size_grow hb
  have hgrown : b.document.ExtendedBy (b.document.grow b.current _ hk) := extendedBy_grow hb
  have hnew : b.document.size < (b.document.grow b.current _ hk).size := by omega
  obtain ⟨d, hrun, hextended, hsize', hchildren, hattributes⟩ :=
    run_setAttributes b.openElements hnew a.entries
  refine ⟨d, ?run, hsize'.trans hsize, hgrown.trans hextended, ?kind, fun i => ?attributes,
    fun i => ?children⟩
  case run =>
    rw [run, step, element_eq]
    exact hrun
  case kind => rw [hextended.kind? hnew, kind?_grow hb, if_pos rfl]
  case attributes =>
    rw [hattributes, attributes_grow hb]
    by_cases hi : i = b.document.size
    · subst hi
      rw [if_pos rfl, if_pos rfl, attributes_size, Attributes.foldl_set_entries]
    · rw [if_neg (Ne.symm hi), if_neg hi]
  case children => rw [hchildren, children_grow hb]

/-- An element that is filled is one tree more when it is closed. -/
theorem Opened.gains {d : Document} {tag : String} {a : Attributes} (h : Opened b d tag a)
    (hb : b.current < b.document.size)
    (hinner : Gains ⟨d, b.document.size :: b.openElements⟩ b' cs) :
    Gains b b'.close [.element tag a cs] := by
  have hnew : b.document.size < d.size := by
    have := h.size
    omega
  have hold {i : Nat} (hi : i < b.document.size) : i < d.size ∧ i ≠ b.document.size := by
    have := h.size
    omega
  refine ⟨congrArg List.tail hinner.openElements, h.extendedBy.trans hinner.extendedBy,
    fun i hi => ?attributes, fun i hi hne => ?children, [b.document.size], ?last, by simp, ?filled⟩
  case attributes =>
    rw [close, hinner.attributes i (hold hi).1, h.attributes, if_neg (hold hi).2]
  case children =>
    rw [close, hinner.children i (hold hi).1 (hold hi).2, h.children, if_neg hne]
  case last =>
    rw [close, hinner.children _ (hold hb).1 (hold hb).2, h.children, if_pos rfl]
  case filled =>
    obtain ⟨ns, hns, -, hcs⟩ := hinner.contents
    have hempty : d.children b.document.size = [] := by
      rw [h.children, if_neg (hold hb).2.symm, children_size]
    have hbelow : b'.document.children b.document.size = ns := by
      have hns' : b'.document.children b.document.size = d.children b.document.size ++ ns := hns
      rw [hns', hempty, List.nil_append]
    rw [close, List.map_singleton, content?_eq, hinner.extendedBy.kind? hnew, h.kind,
      hinner.attributes _ hnew, h.attributes, if_pos rfl, hbelow]
    exact congrArg (fun cs => [some (Content.element tag a cs)]) (filterMap_of_map_eq hcs)

/-- An element is opened, filled and closed. -/
theorem gains_element (hb : b.current < b.document.size) (tag : String) (a : Attributes)
    {steps : List BuildStep}
    (hcontents : ∀ b : DocumentBuilder, b.current < b.document.size → Gains b (b.run steps) cs) :
    Gains b (b.run (.element tag :: (a.entries.map fun e => .setAttribute e.1 e.2) ++ steps ++
      [.close])) [.element tag.toLower a cs] := by
  obtain ⟨d, hrun, hopened⟩ := exists_opened hb tag a
  rw [run_append, run_append, hrun]
  refine hopened.gains hb (hcontents _ ?_)
  show b.document.size < d.size
  have := hopened.size
  omega

mutual

theorem gains_steps : ∀ (c : Content) (b : DocumentBuilder), b.current < b.document.size →
    Gains b (b.run c.steps) [c.lower]
  | .text s, b, hb => gains_grow hb (by
    rw [content?_eq, kind?_grow hb, if_pos rfl]
    rfl)
  | .comment s, b, hb => gains_grow hb (by
    rw [content?_eq, kind?_grow hb, if_pos rfl]
    rfl)
  | .element tag a cs, b, hb => by
    rw [Content.steps, Content.lower]
    exact gains_element hb tag a (gains_listSteps cs)

theorem gains_listSteps : ∀ (cs : List Content) (b : DocumentBuilder),
    b.current < b.document.size → Gains b (b.run (Content.listSteps cs)) (Content.listLower cs)
  | [], b, _ => .refl b
  | c :: cs, b, hb => by
    have hfirst := gains_steps c b hb
    have hnext : (b.run c.steps).current < (b.run c.steps).document.size := by
      rw [hfirst.current]
      exact Nat.lt_of_lt_of_le hb hfirst.extendedBy.size_le
    rw [Content.listSteps, run_append]
    exact hfirst.trans hb (gains_listSteps cs _ hnext)

end

end DocumentBuilder

namespace Document

theorem contents_build (cs : List Content) :
    (build (Content.listSteps cs)).contents = Content.listLower cs := by
  obtain ⟨ns, hchildren, -, hcontents⟩ :=
    (DocumentBuilder.gains_listSteps cs {} Nat.zero_lt_one).contents
  have hroot : (build (Content.listSteps cs)).children root = ns := hchildren
  rw [contents, hroot]
  exact filterMap_of_map_eq hcontents

open DocumentBuilder (after settings) in
/-- Documents are built in document order: the nodes stand in it as they were made, the open
elements are a chain of last children at every moment, and the innermost one is given what comes
next. Each tree is built from its own steps. -/
theorem build_inOrder :
    (∀ steps : List BuildStep,
      let d := build steps
      let moves := BuildStep.listMoves steps
      d.preorder [root] = List.range d.size ∧
      (d.preorder [root]).map d.kind? =
        some .root :: (moves.filterMap BuildMove.made?).map some ∧
      (∀ before, before <+: moves →
        let b := after before
        (root :: b.openElements.reverse).IsChain
          (fun p c => (b.document.children p).getLast? = some c) ∧
        (root :: b.openElements.reverse).getLast? = some b.current ∧
        ∀ n ∈ b.openElements, (b.document.tag? n).isSome) ∧
      (∀ before m rest kind, moves = before ++ m :: rest → m.made? = some kind →
        let b := after before
        d.kind? b.document.size = some kind ∧ d.parent? b.document.size = some b.current) ∧
      ∀ n, d.attributes n = (settings n {} moves).foldl (fun a e => a.set e.1 e.2) .empty) ∧
    ∀ cs : List Content, (build (Content.listSteps cs)).contents = Content.listLower cs := by
  refine ⟨fun steps => ?_, contents_build⟩
  intro d moves
  have hd : d = (after moves).document := build_eq steps
  have horder : d.preorder [root] = List.range d.size := by
    rw [preorder_singleton, hd]
    exact (DocumentBuilder.InOrder.after moves).order
  refine ⟨horder, ?kinds, ?moments, ?made, ?attributes⟩
  case kinds =>
    rw [horder, hd]
    exact DocumentBuilder.InOrder.init.kinds_foldl moves
  case moments =>
    intro before _ b
    have hspine : root :: b.openElements.reverse = b.spine.reverse := by
      rw [DocumentBuilder.spine, List.reverse_append]
      rfl
    obtain ⟨around, hcurrent⟩ := b.exists_spine_eq
    refine ⟨?_, ?_, (DocumentBuilder.InOrder.after before).elements⟩
    · rw [hspine]
      exact List.isChain_reverse.mpr (DocumentBuilder.InOrder.after before).chain
    · rw [hspine, List.getLast?_reverse, hcurrent]
      rfl
  case made =>
    intro before m rest kind hmoves hm b
    have hb := DocumentBuilder.InOrder.after before
    obtain ⟨hk, hgrow⟩ := DocumentBuilder.exists_grow_of_made hm b
    have hrun : (after moves).document = (rest.foldl DocumentBuilder.move (b.move m)).document := by
      rw [hmoves]
      simp [after, b]
    have hkept := (hb.move m).extendedBy_foldl rest
    have hlt : b.document.size < (b.move m).document.size := by
      rw [hgrow, size_grow hb.current_lt]
      exact Nat.lt_succ_self _
    rw [hd, hrun]
    constructor
    · rw [hkept.kind? hlt, hgrow, kind?_grow hb.current_lt, if_pos rfl]
    · rw [hkept.parent? hlt, hgrow, parent?_grow hb.current_lt, if_pos rfl]
  case attributes =>
    intro n
    rw [hd, after, DocumentBuilder.InOrder.init.attributes_foldl]
    have hempty : Document.empty.attributes n = .empty := by
      cases n <;> rfl
    exact congrArg (List.foldl _ · _) hempty

end Document

end TreeQuery
