import TreeQuery.Document.Basic

/-!
# Building documents

A builder opens and closes elements in document order. Content goes into the innermost open
element, or into the root when none is open.
-/

set_option autoImplicit false

namespace TreeQuery

/-- A document under construction, and its open elements, innermost first. -/
structure DocumentBuilder where
  document : Document := .empty
  openElements : List Nat := []

inductive BuildStep where
  | element (tag : String)
  | leaf (tag : String)
  | setAttribute (name value : String)
  | text (text : String)
  | comment (text : String)
  | close
  | repeated (count : Nat) (steps : List BuildStep)

namespace DocumentBuilder

def current (b : DocumentBuilder) : Nat :=
  b.openElements.headD Document.root

def element (b : DocumentBuilder) (tag : String) : DocumentBuilder :=
  let (node, document) := b.document.appendElement b.current tag
  { document, openElements := node :: b.openElements }

def close (b : DocumentBuilder) : DocumentBuilder :=
  { b with openElements := b.openElements.tail }

def leaf (b : DocumentBuilder) (tag : String) : DocumentBuilder :=
  (b.element tag).close

def setAttribute (b : DocumentBuilder) (name value : String) : DocumentBuilder :=
  match b.openElements with
  | node :: _ => { b with document := b.document.setAttribute node name value }
  | [] => b

def text (b : DocumentBuilder) (text : String) : DocumentBuilder :=
  { b with document := (b.document.appendText b.current text).2 }

def comment (b : DocumentBuilder) (text : String) : DocumentBuilder :=
  { b with document := (b.document.appendComment b.current text).2 }

mutual

def step (b : DocumentBuilder) : BuildStep → DocumentBuilder
  | .element tag => b.element tag
  | .leaf tag => b.leaf tag
  | .setAttribute name value => b.setAttribute name value
  | .text text => b.text text
  | .comment text => b.comment text
  | .close => b.close
  | .repeated count steps => count.repeat (fun b => b.run steps) b

def run (b : DocumentBuilder) : List BuildStep → DocumentBuilder
  | [] => b
  | s :: steps => (b.step s).run steps

end

end DocumentBuilder

def Document.build (steps : List BuildStep) : Document :=
  (({} : DocumentBuilder).run steps).document

end TreeQuery
