import Mathlib.Data.List.Sort
import TreeQuery.Region.Runs

/-!
# Cuts of a list

Splitters cut a list into runs. Between the first and the last of its members an ascending list of
cuts leaves no gap, and no cut lies inside a run. Hence what the runs of a mode hold, put together,
is told by the positions of the splitters alone.
-/

set_option autoImplicit false

namespace TreeQuery

namespace Run

def positions (r : Run) : List Nat := List.range' r.start (r.stop - r.start)

theorem mem_positions {r : Run} {i : Nat} : i ∈ r.positions ↔ r.start ≤ i ∧ i < r.stop := by
  rw [positions, List.mem_range'_1]
  omega

end Run

namespace SplitMode

/-- How often the runs of a mode hold the position `i` of a list of length `n` whose splitters are
at the positions that satisfy `P`. -/
def copies (n : Nat) (P : Nat → Prop) [DecidablePred P] (i : Nat) : SplitMode → Nat
  | before | after => 1
  | between => if ¬ P i ∧ (∃ a < i, P a) ∧ ∃ b < n, i < b ∧ P b then 1 else 0
  | all => if P i then 2 else 1

/-- Where the runs of a mode begin and end. -/
def Bounds (n : Nat) (P : Nat → Prop) (runs : List Run) : SplitMode → Prop
  | before => ∀ i, (∃ r ∈ runs, r.start = i) ↔ i < n ∧ (i = 0 ∨ P i)
  | after => ∀ i, (∃ r ∈ runs, r.stop = i + 1) ↔ i < n ∧ (i + 1 = n ∨ P i)
  | between => ∀ r ∈ runs, ∃ a, P a ∧ r.start = a + 1 ∧ P r.stop ∧ ∀ i ∈ r.positions, ¬ P i
  | all => ∀ i, P i ↔ ∃ front r s back,
      runs = front ++ r :: s :: back ∧ r.stop = i + 1 ∧ s.start = i

/-- The runs cut a list of length `n` as the mode says. -/
structure Cuts (mode : SplitMode) (n : Nat) (P : Nat → Prop) [DecidablePred P]
    (runs : List Run) : Prop where
  inside : ∀ r ∈ runs, r.start < r.stop ∧ r.stop ≤ n
  ordered : runs.Pairwise fun r s => r.start ≤ s.start ∧ r.stop ≤ s.stop
  positions : runs.flatMap Run.positions =
    (List.range n).flatMap fun i => List.replicate (mode.copies n P i) i
  bounds : mode.Bounds n P runs

end SplitMode

/-! ## Runs between cuts -/

namespace Run

variable {cuts : List Nat}

theorem mem_of_mem_edges {r : Run} (hr : r ∈ edges cuts) : r.start ∈ cuts ∧ r.stop ∈ cuts := by
  fun_induction edges cuts with
  | case1 a b cuts ih =>
    rcases List.mem_cons.mp hr with rfl | hr
    · simp
    · obtain ⟨hstart, hstop⟩ := ih hr
      exact ⟨List.mem_cons_of_mem a hstart, List.mem_cons_of_mem a hstop⟩
  | case2 => cases hr

/-- No cut lies inside a run. -/
theorem outside_of_mem_edges (hsorted : cuts.Pairwise (· ≤ ·)) {r : Run} (hr : r ∈ edges cuts) :
    ∀ c ∈ cuts, c ≤ r.start ∨ r.stop ≤ c := by
  fun_induction edges cuts with
  | case1 a b cuts ih =>
    obtain ⟨hleast, hsorted⟩ := List.pairwise_cons.mp hsorted
    intro c hc
    rcases List.mem_cons.mp hr with rfl | hrest
    · rcases List.mem_cons.mp hc with rfl | hc
      · exact .inl (Nat.le_refl c)
      · rcases List.mem_cons.mp hc with rfl | hc
        · exact .inr (Nat.le_refl c)
        · exact .inr ((List.pairwise_cons.mp hsorted).1 c hc)
    · rcases List.mem_cons.mp hc with rfl | hc
      · exact .inl (hleast r.start (mem_of_mem_edges hrest).1)
      · exact ih hsorted hrest c hc
  | case2 => cases hr

/-- Between two cuts there is no gap. -/
theorem exists_edge (hsorted : cuts.Pairwise (· ≤ ·)) {a b i : Nat} (ha : a ∈ cuts)
    (hb : b ∈ cuts) (hai : a ≤ i) (hib : i < b) :
    ∃ r ∈ edges cuts, r.start ≤ i ∧ i < r.stop := by
  fun_induction edges cuts generalizing a with
  | case1 x y cuts ih =>
    obtain ⟨hleast, hsorted⟩ := List.pairwise_cons.mp hsorted
    have hxi : x ≤ i := by
      rcases List.mem_cons.mp ha with rfl | ha
      · exact hai
      · exact Nat.le_trans (hleast a ha) hai
    by_cases hiy : i < y
    · exact ⟨⟨x, y⟩, List.mem_cons_self, hxi, hiy⟩
    · have hb' : b ∈ y :: cuts := by
        rcases List.mem_cons.mp hb with rfl | hb
        · omega
        · exact hb
      obtain ⟨r, hr, hholds⟩ := ih hsorted List.mem_cons_self hb' (by omega)
      exact ⟨r, List.mem_cons_of_mem _ hr, hholds⟩
  | case2 cuts hshort =>
    match cuts, hshort with
    | [], _ => cases ha
    | [x], _ =>
      obtain rfl := List.mem_singleton.mp ha
      obtain rfl := List.mem_singleton.mp hb
      omega
    | x :: y :: rest, hshort => exact absurd rfl (hshort x y rest)

theorem pairwise_edges (hsorted : cuts.Pairwise (· ≤ ·)) :
    (edges cuts).Pairwise fun r s => r.stop ≤ s.start := by
  fun_induction edges cuts with
  | case1 a b cuts ih =>
    obtain ⟨-, hsorted⟩ := List.pairwise_cons.mp hsorted
    refine List.pairwise_cons.mpr ⟨?_, ih hsorted⟩
    intro s hs
    rcases List.mem_cons.mp (mem_of_mem_edges hs).1 with heq | hmem
    · exact Nat.le_of_eq heq.symm
    · exact (List.pairwise_cons.mp hsorted).1 s.start hmem
  | case2 => exact List.Pairwise.nil

/-- Runs one after another hold ascending positions. -/
theorem pairwise_flatMap_positions {runs : List Run}
    (h : runs.Pairwise fun r s => r.stop ≤ s.start) :
    (runs.flatMap positions).Pairwise (· < ·) := by
  rw [List.pairwise_flatMap]
  refine ⟨fun r _ => List.pairwise_lt_range', h.imp ?_⟩
  intro r s hrs i hi j hj
  have hi' := mem_positions.mp hi
  have hj' := mem_positions.mp hj
  omega

theorem ordered_of_disjoint {n : Nat} {runs : List Run}
    (hinside : ∀ r ∈ runs, r.start < r.stop ∧ r.stop ≤ n)
    (h : runs.Pairwise fun r s => r.stop ≤ s.start) :
    runs.Pairwise fun r s => r.start ≤ s.start ∧ r.stop ≤ s.stop := by
  apply h.imp_of_mem
  intro r s hr hs hrs
  have hr' := hinside r hr
  have hs' := hinside s hs
  omega

theorem flatMap_replicate_ite (xs : List Nat) (P : Nat → Prop) [DecidablePred P] :
    (xs.flatMap fun i => List.replicate (if P i then 1 else 0) i) = xs.filter P := by
  induction xs with
  | nil => rfl
  | cons x xs ih =>
    rw [List.flatMap_cons, ih]
    by_cases hx : P x <;> simp [hx]

/-- Runs one after another are told by the positions that they hold. -/
theorem flatMap_positions_eq {runs : List Run} (h : runs.Pairwise fun r s => r.stop ≤ s.start)
    {n : Nat} {P : Nat → Prop} [DecidablePred P]
    (hP : ∀ i, (∃ r ∈ runs, r.start ≤ i ∧ i < r.stop) ↔ i < n ∧ P i) :
    runs.flatMap positions =
      (List.range n).flatMap fun i => List.replicate (if P i then 1 else 0) i := by
  rw [flatMap_replicate_ite]
  apply (pairwise_flatMap_positions h).eq_of_mem_iff (List.pairwise_lt_range.filter _)
  intro i
  simp only [List.mem_flatMap, mem_positions, List.mem_filter, List.mem_range, decide_eq_true_eq]
  exact hP i

/-! ## The modes -/

variable {ps : List Nat} {n : Nat}

theorem mem_split {mode : SplitMode} {ps : List Nat} (hne : ps ≠ []) {r : Run} :
    r ∈ split mode ps n ↔ r ∈ cut mode ps n ∧ r.start < r.stop ∧ r.stop ≤ n := by
  rw [split, splitBy, if_neg (by simpa using hne), List.mem_filter]
  simp [cut]

theorem pairwise_split {mode : SplitMode} {R : Run → Run → Prop}
    (h : (cut mode ps n).Pairwise R) : (split mode ps n).Pairwise R := by
  unfold split splitBy
  split
  · exact List.Pairwise.nil
  · exact h.filter _

/-! ### Cuts at both ends -/

section Ends

variable {mode : SplitMode} (hne : ps ≠ []) (hcut : cut mode ps n = edges (0 :: cuts ++ [n]))
  (hsorted : cuts.Pairwise (· ≤ ·)) (hle : ∀ c ∈ cuts, c ≤ n)

theorem mem_ends {c : Nat} : c ∈ 0 :: cuts ++ [n] ↔ c = 0 ∨ c ∈ cuts ∨ c = n := by
  simp

include hsorted hle

theorem pairwise_ends : (0 :: cuts ++ [n]).Pairwise (· ≤ ·) := by
  rw [List.cons_append, List.pairwise_cons, List.pairwise_append]
  refine ⟨fun c _ => Nat.zero_le c, hsorted, List.pairwise_singleton _ _, ?_⟩
  intro p hp c hc
  obtain rfl := List.mem_singleton.mp hc
  exact hle p hp

include hne hcut

theorem exists_run {i : Nat} (hi : i < n) :
    ∃ r ∈ split mode ps n, r.start ≤ i ∧ i < r.stop ∧
      ∀ c, c = 0 ∨ c ∈ cuts ∨ c = n → c ≤ r.start ∨ r.stop ≤ c := by
  have hends := pairwise_ends hsorted hle
  obtain ⟨r, hr, hstart, hstop⟩ := exists_edge hends (mem_ends.mpr (.inl rfl))
    (mem_ends.mpr (.inr (.inr rfl))) (Nat.zero_le i) hi
  have hn : r.stop ≤ n := by
    rcases mem_ends.mp (mem_of_mem_edges hr).2 with hzero | hmem | hn
    · omega
    · exact hle r.stop hmem
    · exact Nat.le_of_eq hn
  refine ⟨r, (mem_split hne).mpr ⟨hcut ▸ hr, by omega, hn⟩, hstart, hstop, ?_⟩
  intro c hc
  exact outside_of_mem_edges hends hr c (mem_ends.mpr hc)

theorem exists_start_iff {i : Nat} :
    (∃ r ∈ split mode ps n, r.start = i) ↔ i < n ∧ (i = 0 ∨ i ∈ cuts) := by
  constructor
  · rintro ⟨r, hr, rfl⟩
    obtain ⟨hmem, hstart, hstop⟩ := (mem_split hne).mp hr
    rcases mem_ends.mp (mem_of_mem_edges (hcut ▸ hmem)).1 with hzero | hcuts | hn
    · exact ⟨by omega, .inl hzero⟩
    · exact ⟨by omega, .inr hcuts⟩
    · omega
  · rintro ⟨hi, hc⟩
    obtain ⟨r, hr, hstart, hstop, houtside⟩ := exists_run hne hcut hsorted hle hi
    have hsides := houtside i (hc.imp_right .inl)
    exact ⟨r, hr, by omega⟩

theorem exists_stop_iff {i : Nat} :
    (∃ r ∈ split mode ps n, r.stop = i + 1) ↔ i < n ∧ (i + 1 = n ∨ i + 1 ∈ cuts) := by
  constructor
  · rintro ⟨r, hr, hri⟩
    obtain ⟨hmem, hstart, hstop⟩ := (mem_split hne).mp hr
    have hends := mem_ends.mp (mem_of_mem_edges (hcut ▸ hmem)).2
    rw [hri] at hends
    rcases hends with hzero | hcuts | hn
    · omega
    · exact ⟨by omega, .inr hcuts⟩
    · exact ⟨by omega, .inl hn⟩
  · rintro ⟨hi, hc⟩
    obtain ⟨r, hr, hstart, hstop, houtside⟩ := exists_run hne hcut hsorted hle hi
    have hsides := houtside (i + 1) (.inr hc.symm)
    exact ⟨r, hr, by omega⟩

/-- Runs from end to end hold every position once. -/
theorem cuts_of_ends (hcopies : ∀ i, mode.copies n (· ∈ ps) i = 1)
    (hbounds : mode.Bounds n (· ∈ ps) (split mode ps n)) :
    mode.Cuts n (· ∈ ps) (split mode ps n) := by
  have hinside : ∀ r ∈ split mode ps n, r.start < r.stop ∧ r.stop ≤ n := by
    intro r hr
    exact ((mem_split hne).mp hr).2
  have hdisjoint : (split mode ps n).Pairwise fun r s => r.stop ≤ s.start := by
    apply pairwise_split
    rw [hcut]
    exact pairwise_edges (pairwise_ends hsorted hle)
  refine ⟨hinside, ordered_of_disjoint hinside hdisjoint, ?_, hbounds⟩
  have hpositions := flatMap_positions_eq hdisjoint (n := n) (P := fun _ => True) (by
    intro i
    constructor
    · rintro ⟨r, hr, -, hstop⟩
      have := hinside r hr
      exact ⟨by omega, trivial⟩
    · rintro ⟨hi, -⟩
      obtain ⟨r, hr, hstart, hstop, -⟩ := exists_run hne hcut hsorted hle hi
      exact ⟨r, hr, hstart, hstop⟩)
  simp only [hcopies]
  simpa using hpositions

end Ends

section Modes

variable (hsorted : ps.Pairwise (· < ·)) (hlt : ∀ p ∈ ps, p < n) (hne : ps ≠ [])

include hsorted hlt hne

theorem cuts_before : SplitMode.before.Cuts n (· ∈ ps) (split .before ps n) := by
  have hcuts : ps.Pairwise (· ≤ ·) := hsorted.imp Nat.le_of_lt
  have hle : ∀ p ∈ ps, p ≤ n := fun p hp => Nat.le_of_lt (hlt p hp)
  refine cuts_of_ends hne rfl hcuts hle (fun i => rfl) ?_
  intro i
  exact exists_start_iff hne rfl hcuts hle

theorem cuts_after : SplitMode.after.Cuts n (· ∈ ps) (split .after ps n) := by
  have hcuts : (ps.map (· + 1)).Pairwise (· ≤ ·) :=
    List.pairwise_map.mpr (hsorted.imp (by omega))
  have hle : ∀ c ∈ ps.map (· + 1), c ≤ n := by
    intro c hc
    obtain ⟨p, hp, rfl⟩ := List.mem_map.mp hc
    exact hlt p hp
  refine cuts_of_ends hne rfl hcuts hle (fun i => rfl) ?_
  intro i
  rw [exists_stop_iff hne rfl hcuts hle]
  simp

end Modes

/-! ### Between splitters -/

theorem mem_split_between (hlt : ∀ p ∈ ps, p < n) (hne : ps ≠ []) {r : Run} :
    r ∈ split .between ps n ↔
    ∃ s ∈ edges ps, r = ⟨s.start + 1, s.stop⟩ ∧ s.start + 1 < s.stop := by
  rw [mem_split hne, cut, cutBy, List.mem_map]
  constructor
  · rintro ⟨⟨s, hs, rfl⟩, hstart, -⟩
    exact ⟨s, hs, rfl, hstart⟩
  · rintro ⟨s, hs, rfl, hstart⟩
    have hstop := hlt s.stop (mem_of_mem_edges hs).2
    exact ⟨⟨s, hs, rfl⟩, hstart, Nat.le_of_lt hstop⟩

theorem cuts_between (hsorted : ps.Pairwise (· < ·)) (hlt : ∀ p ∈ ps, p < n) (hne : ps ≠ []) :
    SplitMode.between.Cuts n (· ∈ ps) (split .between ps n) := by
  have hcuts : ps.Pairwise (· ≤ ·) := hsorted.imp Nat.le_of_lt
  have hmem {r : Run} := mem_split_between hlt hne (r := r)
  have hinside : ∀ r ∈ split .between ps n, r.start < r.stop ∧ r.stop ≤ n := by
    intro r hr
    exact ((mem_split hne).mp hr).2
  have hdisjoint : (split .between ps n).Pairwise fun r s => r.stop ≤ s.start := by
    apply pairwise_split
    rw [cut, cutBy, List.pairwise_map]
    exact (pairwise_edges hcuts).imp fun h => Nat.le_succ_of_le h
  refine ⟨hinside, ordered_of_disjoint hinside hdisjoint, ?_, ?_⟩
  · refine flatMap_positions_eq hdisjoint fun i => ?_
    constructor
    · rintro ⟨r, hr, hstart, hstop⟩
      obtain ⟨s, hs, rfl, hgap⟩ := hmem.mp hr
      obtain ⟨hfirst, hlast⟩ := mem_of_mem_edges hs
      have houtside := outside_of_mem_edges hcuts hs
      have hn := hlt s.stop hlast
      dsimp only at hstart hstop
      refine ⟨by omega, ?_, ⟨s.start, by omega, hfirst⟩, s.stop, hn, hstop, hlast⟩
      intro hi
      have hi' := houtside i hi
      omega
    · rintro ⟨hi, hnot, ⟨a, hai, ha⟩, b, -, hib, hb⟩
      obtain ⟨s, hs, hstart, hstop⟩ := exists_edge hcuts ha hb (Nat.le_of_lt hai) hib
      have hne' : s.start ≠ i := by
        rintro rfl
        exact hnot (mem_of_mem_edges hs).1
      exact ⟨⟨s.start + 1, s.stop⟩, hmem.mpr ⟨s, hs, rfl, by omega⟩, by dsimp only; omega, hstop⟩
  · intro r hr
    obtain ⟨s, hs, rfl, hgap⟩ := hmem.mp hr
    obtain ⟨hfirst, hlast⟩ := mem_of_mem_edges hs
    refine ⟨s.start, hfirst, rfl, hlast, ?_⟩
    intro i hi hp
    have hi' := mem_positions.mp hi
    have houtside := outside_of_mem_edges hcuts hs i hp
    dsimp only at hi'
    omega

/-! ### Overlapping runs -/

/-- Runs from `start` on, each up to and with the next splitter, at which the one after it begins
again. -/
def overlapping (start : Nat) : List Nat → Nat → List Run
  | [], n => [⟨start, n⟩]
  | p :: ps, n => ⟨start, p + 1⟩ :: overlapping p ps n

theorem edges_overlapping (p : Nat) (ps : List Nat) (n : Nat) :
    (edges (p :: ps)).map (fun r => ⟨r.start, r.stop + 1⟩) ++ [⟨(p :: ps).getLastD 0, n⟩] =
      overlapping p ps n := by
  induction ps generalizing p with
  | nil => rfl
  | cons q ps ih => exact congrArg (⟨p, q + 1⟩ :: ·) (ih q)

theorem cut_all (p : Nat) (ps : List Nat) (n : Nat) :
    cut .all (p :: ps) n = overlapping 0 (p :: ps) n :=
  congrArg (Run.mk 0 (p + 1) :: ·) (edges_overlapping p ps n)

theorem overlapping_eq_cons (start : Nat) (ps : List Nat) (n : Nat) :
    ∃ r rest, overlapping start ps n = r :: rest ∧ r.start = start := by
  cases ps with
  | nil => exact ⟨_, _, rfl, rfl⟩
  | cons p ps => exact ⟨_, _, rfl, rfl⟩

section Overlap

variable {start : Nat}

theorem inside_overlapping (hsorted : ps.Pairwise (· < ·)) (hstart : ∀ p ∈ ps, start ≤ p)
    (hlt : ∀ p ∈ ps, p < n) (hn : start < n) :
    ∀ r ∈ overlapping start ps n, start ≤ r.start ∧ r.start < r.stop ∧ r.stop ≤ n := by
  induction ps generalizing start with
  | nil =>
    intro r hr
    obtain rfl := List.mem_singleton.mp hr
    exact ⟨Nat.le_refl start, hn, Nat.le_refl n⟩
  | cons p ps ih =>
    obtain ⟨hleast, hsorted⟩ := List.pairwise_cons.mp hsorted
    have hp := hstart p List.mem_cons_self
    have hpn := hlt p List.mem_cons_self
    intro r hr
    rcases List.mem_cons.mp hr with rfl | hr
    · exact ⟨Nat.le_refl start, Nat.lt_succ_of_le hp, hpn⟩
    · have h := ih hsorted (fun q hq => Nat.le_of_lt (hleast q hq))
        (fun q hq => hlt q (List.mem_cons_of_mem p hq)) hpn r hr
      exact ⟨Nat.le_trans hp h.1, h.2⟩

theorem ordered_overlapping (hsorted : ps.Pairwise (· < ·)) (hstart : ∀ p ∈ ps, start ≤ p)
    (hlt : ∀ p ∈ ps, p < n) :
    (overlapping start ps n).Pairwise fun r s => r.start ≤ s.start ∧ r.stop ≤ s.stop := by
  induction ps generalizing start with
  | nil => exact List.pairwise_singleton _ _
  | cons p ps ih =>
    obtain ⟨hleast, hsorted⟩ := List.pairwise_cons.mp hsorted
    have hp := hstart p List.mem_cons_self
    have hpn := hlt p List.mem_cons_self
    have hlt' : ∀ q ∈ ps, q < n := fun q hq => hlt q (List.mem_cons_of_mem p hq)
    have hleast' : ∀ q ∈ ps, p ≤ q := fun q hq => Nat.le_of_lt (hleast q hq)
    refine List.pairwise_cons.mpr ⟨?_, ih hsorted hleast' hlt'⟩
    intro r hr
    have h := inside_overlapping hsorted hleast' hlt' hpn r hr
    dsimp only
    omega

theorem flatMap_unsplit {xs : List Nat} (h : ∀ i ∈ xs, i ∉ ps) :
    (xs.flatMap fun i => List.replicate (if i ∈ ps then 2 else 1) i) = xs := by
  have hone : (xs.flatMap fun i => List.replicate (if i ∈ ps then 2 else 1) i) =
      xs.flatMap fun i => [i] := by
    apply List.flatMap_congr
    intro i hi
    rw [if_neg (h i hi)]
    rfl
  rw [hone, List.flatMap_singleton']

theorem range'_cut {a b c : Nat} (hab : a ≤ b) (hbc : b ≤ c) :
    List.range' a (c - a) = List.range' a (b - a) ++ List.range' b (c - b) := by
  have happend := List.range'_append_1 (s := a) (m := b - a) (n := c - b)
  rw [Nat.add_sub_cancel' hab] at happend
  rw [happend]
  congr 1
  omega

/-- Each splitter is held twice, once at the end of a run and once at the start of the next. -/
theorem positions_overlapping (hsorted : ps.Pairwise (· < ·)) (hstart : ∀ p ∈ ps, start ≤ p)
    (hlt : ∀ p ∈ ps, p < n) :
    (overlapping start ps n).flatMap positions =
      (List.range' start (n - start)).flatMap fun i =>
        List.replicate (if i ∈ ps then 2 else 1) i := by
  induction ps generalizing start with
  | nil =>
    rw [flatMap_unsplit fun i _ => List.not_mem_nil]
    simp [overlapping, positions]
  | cons p ps ih =>
    obtain ⟨hleast, hsorted⟩ := List.pairwise_cons.mp hsorted
    have hp := hstart p List.mem_cons_self
    have hpn := hlt p List.mem_cons_self
    have hrest := @ih p hsorted (fun q hq => Nat.le_of_lt (hleast q hq))
      fun q hq => hlt q (List.mem_cons_of_mem p hq)
    have hnot : p ∉ ps := fun hmem => Nat.lt_irrefl p (hleast p hmem)
    have hsplit := range'_cut hp (Nat.le_of_lt hpn)
    have htail : List.range' p (n - p) = p :: List.range' (p + 1) (n - (p + 1)) := by
      rw [range'_cut (Nat.le_add_right p 1) hpn, Nat.add_sub_cancel_left]
      rfl
    have hfirst : positions ⟨start, p + 1⟩ = List.range' start (p - start) ++ [p] := by
      rw [positions, range'_cut hp (Nat.le_add_right p 1), Nat.add_sub_cancel_left]
      rfl
    have hbefore : ((List.range' start (p - start)).flatMap fun i =>
        List.replicate (if i ∈ p :: ps then 2 else 1) i) = List.range' start (p - start) := by
      apply flatMap_unsplit
      intro i hi hmem
      rw [List.mem_range'_1] at hi
      rcases List.mem_cons.mp hmem with rfl | hmem
      · omega
      · have := hleast i hmem
        omega
    have hafter : ((List.range' (p + 1) (n - (p + 1))).flatMap fun i =>
          List.replicate (if i ∈ p :: ps then 2 else 1) i) =
        (List.range' (p + 1) (n - (p + 1))).flatMap fun i =>
          List.replicate (if i ∈ ps then 2 else 1) i := by
      apply List.flatMap_congr
      intro i hi
      rw [List.mem_range'_1] at hi
      have hip : i ≠ p := by omega
      simp [hip]
    rw [overlapping, List.flatMap_cons, hrest, hfirst, hsplit, List.flatMap_append, hbefore, htail,
      List.flatMap_cons, List.flatMap_cons, hafter, if_neg hnot, if_pos List.mem_cons_self]
    simp

theorem junction_overlapping {i : Nat} : i ∈ ps ↔ ∃ front r s back,
    overlapping start ps n = front ++ r :: s :: back ∧ r.stop = i + 1 ∧ s.start = i := by
  induction ps generalizing start with
  | nil =>
    constructor
    · intro hi
      cases hi
    · rintro ⟨front, r, s, back, heq, -⟩
      have hlength := congrArg List.length heq
      simp [overlapping] at hlength
      omega
  | cons p ps ih =>
    rw [List.mem_cons, @ih p]
    constructor
    · rintro (rfl | ⟨front, r, s, back, heq, hstop, hstart⟩)
      · obtain ⟨s, back, heq, hs⟩ := overlapping_eq_cons i ps n
        exact ⟨[], ⟨start, i + 1⟩, s, back, congrArg (_ :: ·) heq, rfl, hs⟩
      · exact ⟨⟨start, p + 1⟩ :: front, r, s, back, congrArg (_ :: ·) heq, hstop, hstart⟩
    · rintro ⟨front, r, s, back, heq, hstop, hstart⟩
      cases front with
      | nil =>
        obtain ⟨rfl, -⟩ := List.cons.inj heq
        exact .inl (Nat.succ.inj hstop.symm)
      | cons first front =>
        obtain ⟨-, heq⟩ := List.cons.inj heq
        exact .inr ⟨front, r, s, back, heq, hstop, hstart⟩

end Overlap

/-- The runs of a mode cut the list as it says. -/
theorem cuts_split (mode : SplitMode) (hsorted : ps.Pairwise (· < ·)) (hlt : ∀ p ∈ ps, p < n)
    (hne : ps ≠ []) : mode.Cuts n (· ∈ ps) (split mode ps n) := by
  cases mode with
  | before => exact cuts_before hsorted hlt hne
  | after => exact cuts_after hsorted hlt hne
  | between => exact cuts_between hsorted hlt hne
  | all =>
    obtain ⟨p, rest, rfl⟩ := List.exists_cons_of_ne_nil hne
    have hstart : ∀ q ∈ p :: rest, 0 ≤ q := fun q _ => Nat.zero_le q
    have hn : 0 < n := Nat.zero_lt_of_lt (hlt p List.mem_cons_self)
    have hinside := inside_overlapping hsorted hstart hlt hn
    have hsplit : split .all (p :: rest) n = overlapping 0 (p :: rest) n := by
      rw [← cut_all, split, splitBy, if_neg (by simp), ← cut, List.filter_eq_self, cut_all]
      intro r hr
      simpa using (hinside r hr).2
    rw [hsplit]
    refine ⟨fun r hr => (hinside r hr).2, ordered_overlapping hsorted hstart hlt, ?_, ?_⟩
    · rw [positions_overlapping hsorted hstart hlt, Nat.sub_zero, ← List.range_eq_range']
      rfl
    · exact fun i => junction_overlapping

end Run

end TreeQuery
