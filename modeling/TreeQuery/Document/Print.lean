import TreeQuery.Document.Basic

/-!
# Printed documents

A document is printed as an indented tree, one line for the start and one for the end of each
element. Attributes are sorted by name, and texts that are empty or blank are left out.
-/

set_option autoImplicit false

namespace TreeQuery

def escapeChar (c : Char) : List Char :=
  if c = '\x5c' then ['\x5c', '\x5c']
  else if c = '\x22' then ['\x5c', '\x22']
  else if c = '\n' then ['\x5c', 'n']
  else if c = '\r' then ['\x5c', 'r']
  else if c = '\t' then ['\x5c', 't']
  else [c]

def escapeText (text : String) : String :=
  String.ofList (text.toList.flatMap escapeChar)

namespace Document

def indent (depth : Nat) : String :=
  String.ofList (List.replicate (2 * depth) ' ')

def attributeText (a : Attributes) : String :=
  String.join (a.sorted.map fun (name, value) =>
    " " ++ name ++ "=\"" ++ escapeText value ++ "\"")

/-- Print a node at a depth, given how its children are printed. -/
def printNode (node : Node) (depth : Nat) (children : String) : String :=
  match node.kind with
  | .root => indent depth ++ "#document\n" ++ children
  | .element tag =>
    indent depth ++ "<" ++ tag ++ attributeText node.attributes ++ ">\n" ++ children
      ++ indent depth ++ "</" ++ tag ++ ">\n"
  | .text text =>
    if text.toList.all isSpace then "" else indent depth ++ "\"" ++ escapeText text ++ "\"\n"
  | .comment text => indent depth ++ "<!--" ++ text ++ "-->\n"

def printFrom (d : Document) (i depth : Nat) : String :=
  if h : i < d.nodes.size then
    printNode d.nodes[i] depth
      (String.join ((d.children i).attach.map fun ⟨child, _⟩ => d.printFrom child (depth + 1)))
  else ""
termination_by d.nodes.size - i
decreasing_by
  have := lt_of_mem_children ‹_›
  omega

def print (d : Document) : String :=
  d.printFrom root 0

end Document

end TreeQuery
