import TreeQuery.Proofs.Region.Split

/-!
# Slices of a child list

A region shows a slice of the children of one node, its host. A region over a run of a place's
children has the same host as the place, and shows the run; hence regions of regions show slices
of slices, which are slices again.
-/

set_option autoImplicit false

namespace TreeQuery

namespace Place

def host : Place → Nat
  | node n => n
  | region r => r.parent

/-- The position among the children of the host at which those of the place begin. -/
def offset : Place → Nat
  | node _ => 0
  | region r => r.start

theorem regionOf_eq (p : Place) (r : Run) (direction : Option Direction) :
    p.regionOf r direction =
      .region ⟨p.host, p.offset + r.start, p.offset + r.stop, direction⟩ := by
  cases p with
  | node n => simp [regionOf, regionOfBy, host, offset]
  | region outer => rfl

theorem regionBefore_eq (p : Place) (i : Nat) :
    p.regionBefore i = p.regionOf (Run.before i) (some .left) := rfl

theorem regionAfter_eq (d : Document) (p : Place) (i : Nat) :
    p.regionAfter d i = p.regionOf (Run.after i (p.children d).length) (some .right) := rfl

theorem regionBetween_eq (p : Place) (i j : Nat) :
    p.regionBetween i j = p.regionOf (Run.between i j) none := rfl

/-- The region `g` shows the run `r` of the children of `p`. -/
structure Views (d : Document) (p : Place) (r : Run) (g : Region) : Prop where
  run_ordered : r.start ≤ r.stop
  run_inside : r.stop ≤ (p.children d).length
  parent : g.parent = p.host
  start : g.start = p.offset + r.start
  stop : g.stop = p.offset + r.stop
  ordered : g.start ≤ g.stop
  inside : g.stop ≤ (d.children p.host).length
  children : (Place.region g).children d = ((p.children d).drop r.start).take (r.stop - r.start)

variable {d : Document} {p : Place}

/-- A region may begin past the children of its host or end before it begins. It shows no child
then, so what it shows lies inside in every case. -/
theorem offset_add_lt {i : Nat} (hi : i < (p.children d).length) :
    p.offset + i < (d.children p.host).length := by
  cases p with
  | node n =>
    simpa [Place.children, childIds, offset, host] using hi
  | region r =>
    simp only [Place.children, childIds, Region.children, List.length_map, List.length_take,
      List.length_drop] at hi
    simp only [offset, host]
    omega

theorem children_slice {r : Run} (h : r.stop ≤ (p.children d).length)
    (direction : Option Direction) :
    (p.regionOf r direction).children d =
      ((p.children d).drop r.start).take (r.stop - r.start) := by
  rw [children_regionOf p h, Run.positions, filterMap_getElem?_range']

theorem views_regionOf {r : Run} (hordered : r.start ≤ r.stop)
    (hinside : r.stop ≤ (p.children d).length) (hne : p.children d ≠ [])
    (direction : Option Direction) :
    ∃ g, p.regionOf r direction = .region g ∧ p.Views d r g := by
  refine ⟨_, regionOf_eq p r direction, ?_⟩
  have hlast : p.offset + ((p.children d).length - 1) < (d.children p.host).length := by
    apply offset_add_lt
    have hpos := List.length_pos_iff.mpr hne
    omega
  refine ⟨hordered, hinside, rfl, rfl, rfl, ?_, ?_, ?_⟩
  · exact Nat.add_le_add_left hordered p.offset
  · show p.offset + r.stop ≤ _
    omega
  · rw [← regionOf_eq]
    exact children_slice hinside direction

/-- A run of a run is a run. -/
theorem Views.trans {r s : Run} {g h : Region} (hg : p.Views d r g)
    (hh : (Place.region g).Views d s h) : p.Views d ⟨r.start + s.start, r.start + s.stop⟩ h := by
  have hlength : ((Place.region g).children d).length = r.stop - r.start := by
    have hinside := hg.run_inside
    rw [hg.children, List.length_take, List.length_drop]
    omega
  have hs := hh.run_inside
  have hr := hg.run_ordered
  rw [hlength] at hs
  refine ⟨?_, ?_, ?_, ?_, ?_, hh.ordered, ?_, ?_⟩
  · exact Nat.add_le_add_left hh.run_ordered r.start
  · have hinside := hg.run_inside
    show r.start + s.stop ≤ _
    omega
  · rw [hh.parent]
    exact hg.parent
  · rw [hh.start, show (Place.region g).offset = g.start from rfl, hg.start, Nat.add_assoc]
  · rw [hh.stop, show (Place.region g).offset = g.start from rfl, hg.start, Nat.add_assoc]
  · have hinside := hh.inside
    rwa [show (Place.region g).host = g.parent from rfl, hg.parent] at hinside
  · rw [hh.children, hg.children, List.drop_take, List.take_take, List.drop_drop,
      Nat.min_eq_left (by omega), Nat.add_sub_add_left]

end Place

end TreeQuery
