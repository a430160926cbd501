import Mathlib
import TreeQuery.Proofs.Document.Contents

/-!
# Attributes over runs of calls

A document is changed by calls on its nodes, which append nodes and set attributes. A call reaches
the attributes of one node only, and the attributes of a node are those that were set on it, one
after another. Hence they are a map from names without case to the values that were set last.
-/

set_option autoImplicit false

namespace TreeQuery

theorem sameName_iff {x y : String} : sameName x y = true ↔ x.toLower = y.toLower :=
  beq_iff_eq

/-! ## One attribute after another -/

namespace Attributes

theorem fst_eq_iff {a : Attributes} {e : String × String} (he : e ∈ a.entries) (name : String) :
    e.1 = name.toLower ↔ sameName e.1 name = true := by
  rw [sameName_iff, a.lower e he]

theorem get?_set_of_mem {a : Attributes} {name : String} (h : name.toLower ∈ a.names)
    (value other : String) : (a.set name value).get? other =
      (a.entries.find? fun e => sameName e.1 other).map
        fun e => if e.1 = name.toLower then value else e.2 := by
  have hname : ((fun e => sameName e.1 other) ∘ fun e : String × String =>
      if e.1 = name.toLower then (e.1, value) else e) = fun e => sameName e.1 other := by
    funext e
    simp only [Function.comp]
    split <;> rfl
  rw [get?, set, dif_pos h]
  show Option.map _ (List.find? _ (a.entries.map _)) = _
  rw [List.find?_map, hname, Option.map_map]
  refine congrArg (Option.map · _) (funext fun e => ?_)
  simp only [Function.comp]
  split <;> rfl

/-- An attribute that is set is found under all names that differ from its own in case only. -/
theorem get?_set (a : Attributes) (name value other : String) : (a.set name value).get? other =
    if sameName name other then some value else a.get? other := by
  by_cases hmem : name.toLower ∈ a.names
  · rw [get?_set_of_mem hmem, get?]
    cases hfind : a.entries.find? fun e => sameName e.1 other with
    | none =>
      obtain ⟨e, he, heq⟩ := List.mem_map.mp hmem
      have hnone := List.find?_eq_none.mp hfind e he
      rw [sameName_iff, heq, toLower_toLower] at hnone
      rw [if_neg (by rwa [sameName_iff])]
      rfl
    | some e =>
      have hfound : sameName e.1 other = true := by simpa using List.find?_some hfind
      have hiff : e.1 = name.toLower ↔ sameName name other = true := by
        rw [fst_eq_iff (List.mem_of_find?_eq_some hfind), sameName_iff, sameName_iff,
          sameName_iff.mp hfound]
        exact eq_comm
      simp only [Option.map_some, hiff]
      split <;> rfl
  · rw [get?, entries_set_of_not_mem hmem, List.find?_append, get?]
    have hlower : sameName name.toLower other = sameName name other := by
      rw [sameName, toLower_toLower, sameName]
    rw [List.find?_singleton, hlower]
    by_cases hsame : sameName name other = true
    · have hnone : a.entries.find? (fun e => sameName e.1 other) = none := by
        rw [List.find?_eq_none]
        intro e he heq
        rw [sameName_iff, ← sameName_iff.mp hsame] at heq
        have hname := (fst_eq_iff he name).mpr (sameName_iff.mpr heq)
        exact hmem (hname ▸ List.mem_map_of_mem he)
      rw [hnone, if_pos hsame, if_pos hsame]
      rfl
    · rw [if_neg hsame, if_neg hsame, Option.or_none]

/-- Of the settings that agree with a name, the last one decides. -/
theorem get?_foldl_set (settings : List (String × String)) (a : Attributes) (name : String) :
    (settings.foldl (fun a s => a.set s.1 s.2) a).get? name =
      ((settings.reverse.find? fun s => sameName s.1 name).map Prod.snd).or (a.get? name) := by
  induction settings using List.reverseRecOn with
  | nil => rfl
  | append_singleton settings s ih =>
    rw [List.foldl_append, List.foldl_cons, List.foldl_nil, get?_set, ih, List.reverse_append,
      List.reverse_singleton, List.singleton_append, List.find?_cons]
    cases sameName s.1 name <;> rfl

end Attributes

/-! ## Calls -/

inductive DocumentCall where
  | appendElement (parent : Nat) (tag : String)
  | appendText (parent : Nat) (text : String)
  | appendComment (parent : Nat) (text : String)
  | setAttribute (node : Nat) (name value : String)

namespace DocumentCall

def node : DocumentCall → Nat
  | appendElement parent _ | appendText parent _ | appendComment parent _ => parent
  | setAttribute node .. => node

def setting? (n : Nat) : DocumentCall → Option (String × String)
  | setAttribute node name value => if node = n then some (name, value) else none
  | _ => none

end DocumentCall

namespace Document

def call (d : Document) : DocumentCall → Document
  | .appendElement parent tag => (d.appendElement parent tag).2
  | .appendText parent text => (d.appendText parent text).2
  | .appendComment parent text => (d.appendComment parent text).2
  | .setAttribute node name value => d.setAttribute node name value

def after (d : Document) (calls : List DocumentCall) : Document :=
  calls.foldl call d

/-- Each call is made on a node that the document has by then. -/
def HasNodesOf (d : Document) : List DocumentCall → Prop
  | [] => True
  | c :: calls => c.node < d.size ∧ (d.call c).HasNodesOf calls

instance decidableHasNodesOf (d : Document) :
    ∀ calls : List DocumentCall, Decidable (d.HasNodesOf calls)
  | [] => inferInstanceAs (Decidable True)
  | c :: calls =>
    have := decidableHasNodesOf (d.call c) calls
    inferInstanceAs (Decidable (c.node < d.size ∧ (d.call c).HasNodesOf calls))

theorem attributes_call {d : Document} {c : DocumentCall} (hc : c.node < d.size) (n : Nat) :
    (d.call c).attributes n =
      (c.setting? n).toList.foldl (fun a s => a.set s.1 s.2) (d.attributes n) := by
  cases c with
  | appendElement parent tag => exact attributes_grow hc n
  | appendText parent text => exact attributes_grow hc n
  | appendComment parent text => exact attributes_grow hc n
  | setAttribute node name value =>
    rw [call, attributes_setAttribute node name value hc, DocumentCall.setting?]
    split <;> rfl

/-- The attributes of a node are those set on it, one after another. -/
theorem attributes_after {d : Document} {calls : List DocumentCall} (h : d.HasNodesOf calls)
    (n : Nat) : (d.after calls).attributes n =
      (calls.filterMap (·.setting? n)).foldl (fun a s => a.set s.1 s.2) (d.attributes n) := by
  induction calls generalizing d with
  | nil => rfl
  | cons c calls ih =>
    obtain ⟨hc, hcalls⟩ := h
    rw [after, List.foldl_cons, ← after, ih hcalls, attributes_call hc]
    cases hs : c.setting? n with
    | none => rw [List.filterMap_cons_none hs]; rfl
    | some s => rw [List.filterMap_cons_some hs]; rfl

theorem grow_eq_self {d : Document} {p : Nat} {kind : NodeKind} {hk : kind ≠ .root}
    (hp : ¬ p < d.size) : d.grow p kind hk = d := by
  have hlt : ¬ p < d.nodes.size := hp
  rw [grow, append, dif_neg hlt]

theorem attributes_call_of_other (d : Document) {c : DocumentCall} {n : Nat}
    (hc : c.setting? n = none) : (d.call c).attributes n = d.attributes n := by
  by_cases hnode : c.node < d.size
  · rw [attributes_call hnode, hc]
    rfl
  · cases c with
    | appendElement parent tag => exact congrArg (attributes · n) (grow_eq_self hnode)
    | appendText parent text => exact congrArg (attributes · n) (grow_eq_self hnode)
    | appendComment parent text => exact congrArg (attributes · n) (grow_eq_self hnode)
    | setAttribute node name value =>
      have hne : node ≠ n := by
        rintro rfl
        rw [DocumentCall.setting?, if_pos rfl] at hc
        cases hc
      rw [call, attributes, getElem?_setAttribute, if_neg hne, attributes]

/-- The same nodes with the same links between them; attributes may differ. -/
structure SameTree (d d' : Document) : Prop where
  size : d'.size = d.size
  kind? : ∀ n, d'.kind? n = d.kind? n
  parent? : ∀ n, d'.parent? n = d.parent? n
  children : ∀ n, d'.children n = d.children n
  nextSibling? : ∀ n, d'.nextSibling? n = d.nextSibling? n
  previousSibling? : ∀ n, d'.previousSibling? n = d.previousSibling? n

theorem sameTree_setAttribute (d : Document) (node : Nat) (name value : String) :
    d.SameTree (d.setAttribute node name value) := by
  have hparent (n : Nat) : (d.setAttribute node name value).parent? n = d.parent? n :=
    parentIn_modifyAttributes ..
  have hchildren := children_setAttribute (d := d) node name value
  have hbrood (n : Nat) : (d.setAttribute node name value).brood n = d.brood n := by
    rw [brood, hparent, brood]
    cases d.parent? n with
    | none => rfl
    | some p => exact hchildren p
  refine ⟨size_setAttribute .., map_setAttribute node name value (fun _ _ => rfl), hparent,
    hchildren, fun n => ?_, fun n => ?_⟩
  · rw [nextSibling?, siblingsAfter, hbrood, nextSibling?, siblingsAfter]
  · rw [previousSibling?, siblingsBefore, hbrood, previousSibling?, siblingsBefore]

/-! ## Main statement -/

/-- The attributes of a node are a map from names without case: their names are those set on the
node, each in lower case where it was set first, and a name has the value that was set last. A call
changes the attributes of no other node, and setting an attribute changes nothing else. -/
theorem attributes_last_set {calls : List DocumentCall} (h : empty.HasNodesOf calls) :
    (∀ n,
      ((empty.after calls).attributes n).names =
        ((calls.filterMap (·.setting? n)).map fun s => s.1.toLower).eraseDups ∧
      ((empty.after calls).attributes n).names.Nodup ∧
      (∀ name ∈ ((empty.after calls).attributes n).names, name.toLower = name) ∧
      ∀ name, (empty.after calls).attribute? n name =
        ((calls.filterMap (·.setting? n)).reverse.find? fun s => sameName s.1 name).map
          Prod.snd) ∧
    (∀ (c : DocumentCall) (n : Nat), c.setting? n = none →
      ((empty.after calls).call c).attributes n = (empty.after calls).attributes n) ∧
    ∀ (node : Nat) (name value : String),
      (empty.after calls).SameTree ((empty.after calls).setAttribute node name value) := by
  have hstart (n : Nat) : empty.attributes n = .empty := by cases n <;> rfl
  refine ⟨fun n => ?_, fun c n hc => attributes_call_of_other _ hc, sameTree_setAttribute _⟩
  have hnames : ((empty.after calls).attributes n).names =
      ((calls.filterMap (·.setting? n)).map fun s => s.1.toLower).eraseDups := by
    rw [attributes_after h, hstart, Attributes.names_foldl_set]
    rfl
  refine ⟨hnames, ?_, ?_, fun name => ?_⟩
  · rw [hnames]
    exact nodup_eraseDups _
  · intro name hname
    rw [hnames, List.mem_eraseDups] at hname
    obtain ⟨s, -, rfl⟩ := List.mem_map.mp hname
    exact toLower_toLower s.1
  · rw [attribute?, attributes_after h, hstart, Attributes.get?_foldl_set]
    exact Option.or_none

/-- Names that differ in the case of ASCII letters are one, and other letters keep their case. -/
theorem attributes_last_set_replaced :
    let calls : List DocumentCall := [.appendElement 0 "DIV", .setAttribute 1 "Class" "a",
      .appendText 1 "x", .setAttribute 1 "É" "b", .setAttribute 0 "class" "c",
      .setAttribute 1 "é" "d", .setAttribute 1 "cLASS" "e"]
    empty.HasNodesOf calls ∧
      ((empty.after calls).attributes 1).names = ["class", "É", "é"] ∧
      (empty.after calls).attribute? 1 "CLASS" = some "e" ∧
      (empty.after calls).attribute? 1 "É" = some "b" ∧
      (empty.after calls).attribute? 2 "class" = none := by
  intro calls
  have hcalls : empty.HasNodesOf calls := by decide
  obtain ⟨hmap, -⟩ := attributes_last_set hcalls
  obtain ⟨hnames, -, -, hvalue⟩ := hmap 1
  refine ⟨hcalls, ?_, ?_, ?_, ?_⟩
  · rw [hnames]
    cbv
  · rw [hvalue]
    cbv
  · rw [hvalue]
    cbv
  · rw [(hmap 2).2.2.2]
    cbv

end Document

end TreeQuery
