/-!
# Attributes

The attributes of a node form a map whose names do not depend on case. Names are kept in lower
case and in the order in which they were first set.
-/

set_option autoImplicit false

namespace TreeQuery

theorem toLower_toLower_char (c : Char) : c.toLower.toLower = c.toLower := by
  unfold Char.toLower
  split
  · next h =>
    split
    · next h' =>
      simp only [UInt32.le_iff_toNat_le] at h h'
      have : (c.val + 32).toNat = c.val.toNat + 32 := by
        rw [UInt32.toNat_add]
        have : c.val.toNat ≤ 90 := h.2
        have : (32 : UInt32).toNat = 32 := rfl
        omega
      have h₁ : 65 ≤ c.val.toNat := h.1
      have h₂ : (c.val + 32).toNat ≤ 90 := h'.2
      omega
    · rfl
  · simp_all

theorem toLower_toLower (s : String) : s.toLower.toLower = s.toLower := by
  change (s.map Char.toLower).map Char.toLower = s.map Char.toLower
  rw [String.map_map]
  congr 1
  funext c
  exact toLower_toLower_char c

/-- Whether two names agree up to the case of ASCII letters. -/
def sameName (a b : String) : Bool :=
  a.toLower == b.toLower

structure Attributes where
  entries : List (String × String) := []
  lower : ∀ e ∈ entries, e.1.toLower = e.1 := by simp
  nodup : (entries.map Prod.fst).Nodup := by simp

namespace Attributes

def empty : Attributes := {}

instance : Inhabited Attributes := ⟨empty⟩

/-- The names in the order in which they were first set. -/
def names (a : Attributes) : List String :=
  a.entries.map Prod.fst

def get? (a : Attributes) (name : String) : Option String :=
  (a.entries.find? fun e => sameName e.1 name).map Prod.snd

/-- Set an attribute. A name that is already there keeps its position. -/
def set (a : Attributes) (name value : String) : Attributes :=
  if h : name.toLower ∈ a.names then
    { entries := a.entries.map fun e => if e.1 = name.toLower then (e.1, value) else e
      lower := by
        intro e he
        obtain ⟨d, hd, rfl⟩ := List.mem_map.1 he
        have := a.lower d hd
        split <;> exact this
      nodup := by
        have : ((fun e => e.1) ∘ fun e : String × String =>
            if e.1 = name.toLower then (e.1, value) else e) = Prod.fst := by
          funext e
          simp only [Function.comp]
          split <;> rfl
        rw [List.map_map, this]
        exact a.nodup }
  else
    { entries := a.entries ++ [(name.toLower, value)]
      lower := by
        intro e he
        rcases List.mem_append.1 he with he | he
        · exact a.lower e he
        · obtain rfl := List.mem_singleton.1 he
          exact toLower_toLower name
      nodup := by
        rw [List.map_append, List.map_singleton, List.nodup_append]
        refine ⟨a.nodup, by simp, ?_⟩
        intro x hx y hy
        obtain rfl := List.mem_singleton.1 hy
        rintro rfl
        exact h hx }

def sorted (a : Attributes) : List (String × String) :=
  a.entries.mergeSort fun x y => decide (x.1 ≤ y.1)

end Attributes

end TreeQuery
