import Mathlib
import TreeQuery.Document.Builder
import TreeQuery.Pattern.OfText
import TreeQuery.Proofs.Compile.Memo
import TreeQuery.Proofs.Token.Scan

/-!
# Sessions over one document

A session compiles texts with any number of compilers and evaluates the selectors that it got, in
any order and as often as it likes. All compilers share the memo of the session, if it has one.
-/

set_option autoImplicit false

namespace TreeQuery

/-- What can be asked of a session. Compilers and selectors are counted in the order in which they
were made. -/
inductive SessionStep where
  | prepare (registry : Registry Place)
  | compile (compiler : Nat) (source : String)
  | evaluate (selector : Nat) (input : List Place)
  | clear

section Engine

variable [PatternEngine]

inductive SessionAnswer where
  | done
  | compiled (outcome : Except SelectorError Selector)
  | evaluated (outcome : Except SelectorError (List Place))
  | unknown

/-- A session over a document. The compilers are kept without the memo. -/
structure Session where
  document : Document
  memo : Option (StageMemo Place) := none
  compilers : List Compiler := []
  selectors : List Selector := []

namespace Session

def lend (s : Session) (c : Compiler) : Compiler :=
  { c with memo := s.memo }

def putBack (s : Session) (i : Nat) (c : Compiler) : Session :=
  { s with memo := c.memo, compilers := s.compilers.set i c.bare }

def compile (s : Session) (i : Nat) (c : Compiler) (source : String) : SessionAnswer × Session :=
  match Compiler.compile source (s.lend c) with
  | .ok selector c =>
    (.compiled (.ok selector), { s.putBack i c with selectors := s.selectors ++ [selector] })
  | .error e c => (.compiled (.error e), s.putBack i c)

def evaluate (s : Session) (selector : Selector) (input : List Place) : SessionAnswer × Session :=
  match Compiler.evaluate selector input (s.lend { document := s.document }) with
  | .ok output c => (.evaluated (.ok output), { s with memo := c.memo })
  | .error e c => (.evaluated (.error e), { s with memo := c.memo })

def step (s : Session) : SessionStep → SessionAnswer × Session
  | .prepare registry =>
    (.done, { s with compilers := s.compilers ++ [{ document := s.document, registry }] })
  | .compile i source =>
    match s.compilers[i]? with
    | some c => s.compile i c source
    | none => (.unknown, s)
  | .evaluate i input =>
    match s.selectors[i]? with
    | some selector => s.evaluate selector input
    | none => (.unknown, s)
  | .clear => (.done, { s with memo := s.memo.map StageMemo.clear })

def run (s : Session) : List SessionStep → List SessionAnswer × Session
  | [] => ([], s)
  | x :: steps =>
    let (answer, s) := s.step x
    let (answers, s) := s.run steps
    (answer :: answers, s)

def bare (s : Session) : Session :=
  { s with memo := none }

/-- The compilers are for the document of the session, and so is the memo. -/
structure Shares (s : Session) : Prop where
  documents : ∀ c ∈ s.compilers, c.document = s.document
  serves : ∀ m : StageMemo Place, s.memo = some m → m.Serves s.document

variable {s : Session}

theorem Shares.lend (h : s.Shares) {c : Compiler} (hc : c.document = s.document) :
    (s.lend c).Shares s.document :=
  ⟨hc, h.serves⟩

theorem Shares.putBack (h : s.Shares) (i : Nat) {c : Compiler} (hc : c.Shares s.document) :
    (s.putBack i c).Shares where
  documents := by
    intro c' hc'
    rcases List.mem_or_eq_of_mem_set hc' with hmem | rfl
    · exact h.documents c' hmem
    · exact hc.document
  serves := hc.serves

/-- The memo of `s` changed neither the answer nor anything else of the session. -/
structure Agrees {α : Type} (s : Session) (p q : α × Session) : Prop where
  answer : p.1 = q.1
  session : p.2.bare = q.2
  shares : p.2.Shares
  document : p.2.document = s.document

theorem compile_agrees (h : s.Shares) (i : Nat) {c : Compiler} (hc : c ∈ s.compilers)
    (source : String) : s.Agrees (s.compile i c source) (s.bare.compile i c source) := by
  obtain ⟨outcome, c', hrun, hbare, hc'⟩ :=
    Compiler.compile_transparent s.document source (s.lend c) (h.lend (h.documents c hc))
  have hrun' : Compiler.compile source (s.bare.lend c) = Except.within outcome c'.bare := hbare
  unfold compile
  rw [hrun, hrun']
  have hput := h.putBack i hc'
  cases outcome with
  | ok selector => exact ⟨rfl, rfl, ⟨hput.documents, hput.serves⟩, rfl⟩
  | error e => exact ⟨rfl, rfl, hput, rfl⟩

theorem evaluate_agrees (h : s.Shares) (selector : Selector) (input : List Place) :
    s.Agrees (s.evaluate selector input) (s.bare.evaluate selector input) := by
  obtain ⟨outcome, c', hrun, hbare, hc'⟩ :=
    Compiler.evaluate_transparent s.document selector input (s.lend { document := s.document })
      (h.lend rfl)
  have hrun' : Compiler.evaluate selector input (s.bare.lend { document := s.document }) =
      Except.within outcome c'.bare := hbare
  unfold evaluate
  have hdocument : s.bare.document = s.document := rfl
  rw [hdocument, hrun, hrun']
  cases outcome with
  | ok output => exact ⟨rfl, rfl, ⟨h.documents, hc'.serves⟩, rfl⟩
  | error e => exact ⟨rfl, rfl, ⟨h.documents, hc'.serves⟩, rfl⟩

/-- One step with the memo and without. -/
theorem step_agrees (h : s.Shares) (x : SessionStep) : s.Agrees (s.step x) (s.bare.step x) := by
  cases x with
  | prepare registry =>
    refine ⟨rfl, rfl, ⟨?_, h.serves⟩, rfl⟩
    intro c hc
    rcases List.mem_append.1 hc with hc | hc
    · exact h.documents c hc
    · rw [List.mem_singleton.1 hc]
      rfl
  | compile i source =>
    have hcompilers : s.bare.compilers = s.compilers := rfl
    simp only [step, hcompilers]
    cases hi : s.compilers[i]? with
    | none => exact ⟨rfl, rfl, h, rfl⟩
    | some c => exact compile_agrees h i (List.mem_of_getElem? hi) source
  | evaluate i input =>
    have hselectors : s.bare.selectors = s.selectors := rfl
    simp only [step, hselectors]
    cases s.selectors[i]? with
    | none => exact ⟨rfl, rfl, h, rfl⟩
    | some selector => exact evaluate_agrees h selector input
  | clear =>
    refine ⟨rfl, rfl, ⟨h.documents, ?_⟩, rfl⟩
    intro m hm
    obtain ⟨m', hm', rfl⟩ := Option.map_eq_some_iff.1 hm
    exact (h.serves m' hm').clear

/-- All steps with the memo and without. -/
theorem run_agrees (h : s.Shares) (steps : List SessionStep) :
    s.Agrees (s.run steps) (s.bare.run steps) := by
  induction steps generalizing s with
  | nil => exact ⟨rfl, rfl, h, rfl⟩
  | cons x steps ih =>
    have hstep := step_agrees h x
    have hrun := ih hstep.shares
    rw [hstep.session] at hrun
    refine ⟨?_, hrun.session, hrun.shares, hrun.document.trans hstep.document⟩
    simp only [run, hstep.answer, hrun.answer]

/-- A memo of any positive capacity changes no answer of a session. -/
theorem run_memo (d : Document) (capacity : Nat) (hcapacity : 0 < capacity)
    (steps : List SessionStep) :
    ∃ m : StageMemo Place, StageMemo.ofCapacity capacity = .ok m ∧
      (run { document := d, memo := some m } steps).1 = (run { document := d } steps).1 := by
  have hnew : StageMemo.ofCapacity capacity = .ok ({ capacity } : StageMemo Place) := by
    rw [StageMemo.ofCapacity, if_neg (Nat.ne_of_gt hcapacity)]
  have hshares : Shares { document := d, memo := some { capacity } } := by
    refine ⟨by simp, ?_⟩
    intro m hm
    obtain rfl := Option.some.inj hm
    exact StageMemo.Serves.empty d capacity
  exact ⟨_, hnew, (run_agrees hshares steps).answer⟩

end Session

end Engine

namespace Session

/-- One text compiled twice and evaluated on two inputs, with room for one result. -/
theorem run_memo_repeated :
    0 < 1 ∧ ∃ m : StageMemo Place, StageMemo.ofCapacity 1 = .ok m ∧
      (run { document := .build [.element "ul", .leaf "li", .leaf "li"], memo := some m }
        [.prepare {}, .prepare {}, .compile 0 "li", .compile 1 "li", .evaluate 0 [.node 0],
          .evaluate 1 [.node 2, .node 1], .clear, .evaluate 0 [.node 0]]).1.drop 4 =
      [.evaluated (.ok [.node 2, .node 3]), .evaluated (.ok [.node 2, .node 3]), .done,
        .evaluated (.ok [.node 2, .node 3])] := by
  refine ⟨by decide, ?_⟩
  obtain ⟨m, hm, hrun⟩ := run_memo (.build [.element "ul", .leaf "li", .leaf "li"]) 1 (by decide)
    [.prepare {}, .prepare {}, .compile 0 "li", .compile 1 "li", .evaluate 0 [.node 0],
      .evaluate 1 [.node 2, .node 1], .clear, .evaluate 0 [.node 0]]
  refine ⟨m, hm, ?_⟩
  have htokens : tokenize "li" = .ok [⟨.ident, "li"⟩, Token.endOfInput] :=
    tokenize_of_scanWithin (by cbv)
  rw [hrun]
  simp only [run, step, compile, Compiler.compile_of_tokenize (by decide : "li" ≠ "") htokens]
  cbv

end Session

end TreeQuery
