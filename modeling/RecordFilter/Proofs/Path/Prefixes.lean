import RecordFilter.Path.Basic

namespace RecordFilter.Path

/-! # Prefixes of paths

The prefixes of a path are the paths that lead to it from below the root, so they are closed upwards.
-/

theorem child_ne_root (p : Path) (s : Segment) : p.child s ≠ root := by
  intro h
  cases h

theorem child_ne_self (p : Path) (s : Segment) : p.child s ≠ p := by
  intro h
  have hdepth := congrArg depth h
  simp [depth] at hdepth

theorem mem_prefixes_child {p q : Path} {s : Segment} :
    q ∈ (p.child s).prefixes ↔ q ∈ p.prefixes ∨ q = p.child s := by
  simp [prefixes]

theorem self_mem_prefixes {p : Path} (h : p ≠ root) : p ∈ p.prefixes := by
  cases p with
  | root => exact absurd rfl h
  | child p s => exact mem_prefixes_child.2 (Or.inr rfl)

/-- What leads to a child leads to its parent. -/
theorem mem_prefixes_of_child {p n : Path} {s : Segment} (h : p.child s ∈ n.prefixes)
    (hp : p ≠ root) : p ∈ n.prefixes := by
  induction n with
  | root => simp [prefixes] at h
  | child n t ih =>
    rcases mem_prefixes_child.1 h with hbelow | hself
    · exact mem_prefixes_child.2 (Or.inl (ih hbelow))
    · cases hself
      exact mem_prefixes_child.2 (Or.inl (self_mem_prefixes hp))

/-- Paths with the same segments are the same. -/
theorem segments_inj {p q : Path} : p.segments = q.segments ↔ p = q := by
  constructor
  · intro h
    induction p generalizing q with
    | root =>
      cases q with
      | root => rfl
      | child q t => simp [segments] at h
    | child p s ih =>
      cases q with
      | root => simp [segments] at h
      | child q t =>
        rcases List.append_inj' h rfl with ⟨hparent, hlast⟩
        cases hlast
        rw [ih hparent]
  · intro h
    rw [h]

/-- The prefixes of a path, the root aside, are the paths whose segments it starts with. -/
theorem mem_prefixes_iff {p n : Path} : p ∈ n.prefixes ↔ p ≠ root ∧ p.segments <+: n.segments := by
  induction n with
  | root =>
    constructor
    · intro h
      cases h
    · rintro ⟨hp, h⟩
      exact absurd (segments_inj.1 (List.prefix_nil.1 h)) hp
  | child n s ih =>
    rw [mem_prefixes_child, ih, segments, List.prefix_concat_iff]
    have hself : p.segments = n.segments ++ [s] ↔ p = n.child s := segments_inj (q := n.child s)
    rw [hself]
    constructor
    · rintro (⟨hp, h⟩ | rfl)
      · exact ⟨hp, Or.inr h⟩
      · exact ⟨child_ne_root n s, Or.inl rfl⟩
    · rintro ⟨hp, rfl | h⟩
      · exact Or.inr rfl
      · exact Or.inl ⟨hp, h⟩

theorem depth_le_of_mem_prefixes {p n : Path} (h : p ∈ n.prefixes) : p.depth ≤ n.depth := by
  have hlength := (mem_prefixes_iff.1 h).2.length_le
  rwa [length_segments, length_segments] at hlength

theorem child_notMem_prefixes (p : Path) (s : Segment) : p.child s ∉ p.prefixes := by
  intro hmem
  have hdepth := depth_le_of_mem_prefixes hmem
  simp only [depth] at hdepth
  omega

end RecordFilter.Path
