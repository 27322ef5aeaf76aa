import RecordFilter.Proofs.Json.Value
import RecordFilter.Proofs.Schema.Tables
import RecordFilter.Proofs.Visit.Answers
import Mathlib.Data.List.Forall2

namespace RecordFilter

/-! # One level of a visit

What one level makes of an array or an object depends only on what the levels below make of the values that they are
given (`visitLevelM_congr`). These are children of the value and defaults, and they are visited one step further down
(`Reaches`). Two arrays become related, item by item, where what is read of them does (`visitItems_rel`).
-/

open Json (Value)

namespace Directive

variable {α : Type} [OfValue α] {f g : Path → Value → α} {d : Directive}

/-- A directive with a default writes what it finds or else the default. -/
theorem write_of_default {u : Value} (h : d.default = some u) (found : Option Value) :
    d.write f found = f d.path (found.getD u) := by
  cases found with
  | some w => rfl
  | none => simp [write, h]

/-- What a directive writes is related where it finds related things, or nothing both times. -/
theorem write_rel {R : α → α → Prop} {found found' : Option Value} (hnone : found = none ↔ found' = none)
    (hsome : ∀ u w, found = some u → found' = some w → R (f d.path u) (g d.path w))
    (hdefault : ∀ u, d.default = some u → R (f d.path u) (g d.path u))
    (hnull : R (OfValue.ofValue .null) (OfValue.ofValue .null)) :
    R (d.write f found) (d.write g found') := by
  cases found with
  | some u =>
    cases found' with
    | some w => exact hsome u w rfl rfl
    | none => exact absurd (hnone.2 rfl) (fun h => nomatch h)
  | none =>
    cases found' with
    | some w => exact absurd (hnone.1 rfl) (fun h => nomatch h)
    | none =>
      cases hd : d.default with
      | none => simpa [write, hd] using hnull
      | some u => simpa [write, hd] using hdefault u hd

/-- A directive writes the same where it finds what is treated alike below, or nothing both times. -/
theorem write_congr {found found' : Option Value} (hnone : found = none ↔ found' = none)
    (hsome : ∀ u w, found = some u → found' = some w → f d.path u = g d.path w)
    (hdefault : ∀ u, d.default = some u → f d.path u = g d.path u) :
    d.write f found = d.write g found' :=
  write_rel hnone hsome hdefault rfl

theorem mem_of_findItem? {items : List Value} {u : Value} (h : d.findItem? items = some u) :
    u ∈ items := by
  rcases Option.bind_eq_some_iff.1 h with ⟨i, _, hi⟩
  exact List.mem_of_getElem? hi

theorem mem_of_findMember? {members : List (String × Value)} {u : Value}
    (h : d.findMember? members = some u) : u ∈ members.map Prod.snd :=
  List.mem_map.2 ⟨_, Dictionary.mem_of_find? h, rfl⟩

end Directive

namespace Schema

variable {α : Type} {S S' : Schema} {f g : Path → Value → α} {p : Path}

/-! ## Passing on -/

/-- Items of two arrays are passed on to related items if those at the same positions are, those dropped aside. -/
theorem passItems_rel {R : α → α → Prop} {dropped dropped' : List Path} {xs ys : List Value}
    (hdrop : ∀ i, dropsItem p dropped i = dropsItem p dropped' i) (hlength : xs.length = ys.length)
    (h : ∀ i u w, xs[i]? = some u → ys[i]? = some w → dropsItem p dropped i = false →
      R (f (S.itemPath p i) u) (g (S'.itemPath p i) w)) :
    List.Forall₂ R (S.passItems f p dropped xs) (S'.passItems g p dropped' ys) := by
  have hfrom : ∀ n, (∀ i u w, xs[i]? = some u → ys[i]? = some w →
        dropsItem p dropped (n + i) = false →
          R (f (S.itemPath p (n + i)) u) (g (S'.itemPath p (n + i)) w)) →
      List.Forall₂ R (((xs.zipIdx n).filter fun e => !dropsItem p dropped e.2).map fun e => f (S.itemPath p e.2) e.1)
        (((ys.zipIdx n).filter fun e => !dropsItem p dropped' e.2).map fun e => g (S'.itemPath p e.2) e.1) := by
    clear h
    -- positions count from `n`, so that the rest of the arrays is a case of the statement
    induction xs generalizing ys with
    | nil =>
      intro n _
      have hys : ys = [] := List.length_eq_zero_iff.1 hlength.symm
      rw [hys]
      exact .nil
    | cons x xs ih =>
      intro n h
      cases ys with
      | nil => cases hlength
      | cons y ys =>
        have htail := ih (Nat.succ.inj hlength) (n + 1) fun i u w hu hw hi => by
          rw [Nat.add_assoc, Nat.add_comm 1 i] at hi ⊢
          exact h (i + 1) u w hu hw hi
        simp only [List.zipIdx_cons, List.filter_cons, ← hdrop n]
        cases hn : dropsItem p dropped n with
        | true => simpa using htail
        | false =>
          have hhead := h 0 x y rfl rfl hn
          simpa using And.intro hhead htail
  apply hfrom 0
  intro i u w hu hw hi
  rw [Nat.zero_add] at hi ⊢
  exact h i u w hu hw hi

/-- Items of two arrays are passed on alike if those at the same positions are treated alike, those dropped aside. -/
theorem passItems_congr {dropped dropped' : List Path} {xs ys : List Value}
    (hdrop : ∀ i, dropsItem p dropped i = dropsItem p dropped' i) (hlength : xs.length = ys.length)
    (h : ∀ i u w, xs[i]? = some u → ys[i]? = some w → dropsItem p dropped i = false →
      f (S.itemPath p i) u = g (S'.itemPath p i) w) :
    S.passItems f p dropped xs = S'.passItems g p dropped' ys := by
  have hrel := passItems_rel (R := (· = ·)) hdrop hlength h
  rwa [List.forall₂_eq_eq_eq] at hrel

/-- Members of two objects are passed on alike if they have the same keys in the same order and are treated alike, those
dropped aside. -/
theorem passMembers_congr {dropped dropped' : List Path} {ms ns : List (String × Value)}
    (hdrop : ∀ k, dropped.contains (p.key k) = dropped'.contains (p.key k))
    (hkeys : Dictionary.keys ms = Dictionary.keys ns)
    (h : ∀ (i : Nat) k u w, ms[i]? = some (k, u) → ns[i]? = some (k, w) →
      dropped.contains (p.key k) = false → f (p.key k) u = g (p.key k) w) :
    passMembers f p dropped ms = passMembers g p dropped' ns := by
  induction ms generalizing ns with
  | nil =>
    have hns : ns = [] := by simpa [Dictionary.keys] using hkeys.symm
    rw [hns]
    rfl
  | cons e ms ih =>
    rcases e with ⟨k, u⟩
    cases ns with
    | nil => cases hkeys
    | cons e ns =>
      rcases e with ⟨k', w⟩
      have hcons : k = k' ∧ Dictionary.keys ms = Dictionary.keys ns := by
        simpa [Dictionary.keys] using hkeys
      rcases hcons with ⟨rfl, htailKeys⟩
      have htail := ih htailKeys fun i k u w hu hw hk => h (i + 1) k u w hu hw hk
      -- the first members have one key, so both are dropped or neither is
      unfold passMembers at htail ⊢
      simp only [List.filter_cons, ← hdrop k]
      cases hk : dropped.contains (p.key k) with
      | true => simpa using htail
      | false =>
        have hhead := h 0 k u w rfl rfl hk
        simpa using And.intro hhead htail

/-- The items of an array are passed on alike if they are treated alike, each at its place. -/
theorem passItems_congr_below {dropped : List Path} {items : List Value}
    (h : ∀ i u, items[i]? = some u → f (S.itemPath p i) u = g (S.itemPath p i) u) :
    S.passItems f p dropped items = S.passItems g p dropped items := by
  apply passItems_congr (fun _ => rfl) rfl
  intro i u w hu hw _
  cases hu.symm.trans hw
  exact h i u hu

/-- The members of an object are passed on alike if they are treated alike. -/
theorem passMembers_congr_below {dropped : List Path} {members : List (String × Value)}
    (h : ∀ k u, (k, u) ∈ members → f (p.key k) u = g (p.key k) u) :
    passMembers f p dropped members = passMembers g p dropped members := by
  apply passMembers_congr (fun _ => rfl) rfl
  intro i k u w hu hw _
  cases hu.symm.trans hw
  exact h k u (List.mem_of_getElem? hu)

/-! ## The levels below -/

/-- The values that the levels below are given: a level at `p` over `v` may leave them `u`, at `q`. -/
structure Reaches (S : Schema) (p : Path) (v : Value) (q : Path) (u : Value) : Prop where
  below : ∃ s, q = p.child s
  given : u ∈ v.children ∨ ∃ d ∈ S.directivesAt p, d.path = q ∧ d.default = some u

theorem Reaches.ne_root {v u : Value} {q : Path} (h : S.Reaches p v q u) : q ≠ .root := by
  rcases h.below with ⟨s, rfl⟩
  exact Path.child_ne_root p s

theorem Reaches.depth_eq {v u : Value} {q : Path} (h : S.Reaches p v q u) :
    q.depth = p.depth + 1 := by
  rcases h.below with ⟨s, rfl⟩
  rfl

/-- The path of an item is a child, with its position or without. -/
theorem itemPath_eq_child (i : Nat) : ∃ s, S.itemPath p i = p.child s := by
  unfold itemPath
  split
  · exact ⟨_, rfl⟩
  · exact ⟨_, rfl⟩

theorem Coherent.path_eq_child (hS : S.Coherent) {d : Directive} (hd : d ∈ S.directivesAt p) :
    d.path = p.child d.base := by
  rw [Directive.path, hS.parent_eq hd]

variable [OfValue α]

/-- A directive is written alike if what it may be given is treated alike. -/
theorem Coherent.write_congr (hS : S.Coherent) {v : Value} (h : ∀ q u, S.Reaches p v q u → f q u = g q u)
    {d : Directive} (hd : d ∈ S.directivesAt p) {found : Option Value}
    (hfound : ∀ u, found = some u → u ∈ v.children) : d.write f found = d.write g found := by
  have hbelow : ∃ s, d.path = p.child s := ⟨_, hS.path_eq_child hd⟩
  apply Directive.write_congr Iff.rfl
  · intro u w hu hw
    cases hu.symm.trans hw
    exact h d.path u ⟨hbelow, Or.inl (hfound u hu)⟩
  · intro u hu
    exact h d.path u ⟨hbelow, Or.inr ⟨d, hd, rfl, hu⟩⟩

theorem mem_directivesAt_of_keepAt {kept : List Directive} (h : S.keepAt p = some kept)
    {d : Directive} (hd : d ∈ kept) : d ∈ S.directivesAt p := by
  simp [directivesAt, h, hd]

theorem mem_directivesAt_of_addAt {d : Directive} (hd : d ∈ S.addAt p) : d ∈ S.directivesAt p := by
  simp [directivesAt, hd]

/-! ## Keeping or passing on -/

theorem Coherent.dropAt_of_keepAt (hS : S.Coherent) {kept : List Directive}
    (h : S.keepAt p = some kept) : S.dropAt p = none := by
  rcases hS.exclusive p with hkeep | hdrop
  · rw [h] at hkeep
    cases hkeep
  · exact hdrop

/-- Where items are kept, all items are written by directives. -/
theorem Coherent.visitItems_of_keepAt (hS : S.Coherent) {kept : List Directive}
    (h : S.keepAt p = some kept) (items : List Value) :
    S.visitItems f p items = writeItems f kept items ++ writeItems f (S.addAt p) items := by
  simp only [visitItems, hS.dropAt_of_keepAt h, h]

/-- Where nothing is kept, the items that are not dropped are passed on. -/
theorem visitItems_of_keepAt_eq_none (h : S.keepAt p = none) (items : List Value) :
    S.visitItems f p items =
      S.passItems f p ((S.dropAt p).getD []) items ++ writeItems f (S.addAt p) items := by
  unfold visitItems
  cases hdrop : S.dropAt p with
  | some dropped => rfl
  | none => simp only [h, Option.getD_none]

/-- Where members are kept, all members are written by directives. -/
theorem Coherent.visitMembers_of_keepAt {f : Path → Value → Value} (hS : S.Coherent) {kept : List Directive}
    (h : S.keepAt p = some kept) (members : List (String × Value)) :
    S.visitMembers f p members =
      appendMembers (Dictionary.ofList (writeMembers f kept members))
        (writeMembers f (S.addAt p) members) := by
  simp only [visitMembers_eq, hS.dropAt_of_keepAt h, h]

/-- Where nothing is kept, the members that are not dropped are passed on. -/
theorem visitMembers_of_keepAt_eq_none {f : Path → Value → Value} (h : S.keepAt p = none)
    (members : List (String × Value)) :
    S.visitMembers f p members =
      appendMembers (passMembers f p ((S.dropAt p).getD []) members)
        (writeMembers f (S.addAt p) members) := by
  rw [visitMembers_eq]
  cases hdrop : S.dropAt p with
  | some dropped => rfl
  | none => simp only [h, Option.getD_none]

/-! ## Levels over two arrays -/

section Items

variable {R : α → α → Prop} (hrefl : ∀ a, R a a) {xs ys : List Value}
include hrefl

/-- Directives write related items into two arrays where what they find is treated to related values. -/
theorem writeItems_rel {ds : List Directive} (hfound : ∀ d ∈ ds, d.findItem? xs = none ↔ d.findItem? ys = none)
    (hread : ∀ d ∈ ds, ∀ u w, d.findItem? xs = some u → d.findItem? ys = some w → R (f d.path u) (f d.path w)) :
    List.Forall₂ R (writeItems f ds xs) (writeItems f ds ys) := by
  rw [writeItems, writeItems, List.forall₂_map_left_iff, List.forall₂_map_right_iff, List.forall₂_same]
  intro d hd
  exact Directive.write_rel (hfound d hd) (hread d hd) (fun _ _ => hrefl _) (hrefl _)

/-- Two arrays become related item by item if what their directives read is treated to related values, and so are the items
passed on. -/
theorem Coherent.visitItems_rel (hS : S.Coherent)
    (hfound : ∀ d ∈ S.directivesAt p, d.findItem? xs = none ↔ d.findItem? ys = none)
    (hread : ∀ d ∈ S.directivesAt p, ∀ u w, d.findItem? xs = some u → d.findItem? ys = some w →
      R (f d.path u) (f d.path w))
    (hlength : S.keepAt p = none → xs.length = ys.length)
    (hpassed : S.keepAt p = none → ∀ (i : Nat) u w, xs[i]? = some u → ys[i]? = some w →
      dropsItem p ((S.dropAt p).getD []) i = false → R (f (S.itemPath p i) u) (f (S.itemPath p i) w)) :
    List.Forall₂ R (S.visitItems f p xs) (S.visitItems f p ys) := by
  have hadd : List.Forall₂ R (writeItems f (S.addAt p) xs) (writeItems f (S.addAt p) ys) :=
    writeItems_rel hrefl (fun d hd => hfound d (mem_directivesAt_of_addAt hd))
      fun d hd => hread d (mem_directivesAt_of_addAt hd)
  cases hkeep : S.keepAt p with
  | some kept =>
    -- no item is passed on, so what the directives read is all that is seen
    have hwrite : List.Forall₂ R (writeItems f kept xs) (writeItems f kept ys) :=
      writeItems_rel hrefl (fun d hd => hfound d (mem_directivesAt_of_keepAt hkeep hd))
        fun d hd => hread d (mem_directivesAt_of_keepAt hkeep hd)
    rw [hS.visitItems_of_keepAt hkeep, hS.visitItems_of_keepAt hkeep]
    exact List.rel_append hwrite hadd
  | none =>
    rw [visitItems_of_keepAt_eq_none hkeep, visitItems_of_keepAt_eq_none hkeep]
    exact List.rel_append (passItems_rel (fun _ => rfl) (hlength hkeep) (hpassed hkeep)) hadd

end Items

/-! ## Levels depend on the levels below -/

theorem Coherent.writeItems_congr (hS : S.Coherent) {items : List Value}
    (h : ∀ q u, S.Reaches p (.array items) q u → f q u = g q u) {ds : List Directive}
    (hds : ∀ d ∈ ds, d ∈ S.directivesAt p) : writeItems f ds items = writeItems g ds items := by
  apply List.map_congr_left
  intro d hd
  exact hS.write_congr h (hds d hd) fun u hu => Directive.mem_of_findItem? hu

theorem Coherent.writeMembers_congr (hS : S.Coherent) {members : List (String × Value)}
    (h : ∀ q u, S.Reaches p (.object members) q u → f q u = g q u) {ds : List Directive}
    (hds : ∀ d ∈ ds, d ∈ S.directivesAt p) :
    writeMembers f ds members = writeMembers g ds members := by
  apply List.map_congr_left
  intro d hd
  rw [hS.write_congr h (hds d hd) fun u hu => Directive.mem_of_findMember? hu]

/-- A level depends only on what the levels below make of what they may be given. -/
theorem Coherent.visitLevelM_congr {m : Type → Type} [Monad m] {f g : Path → Value → m Value} (hS : S.Coherent)
    {v : Value} (h : ∀ q u, S.Reaches p v q u → f q u = g q u) :
    S.visitLevelM f p v = S.visitLevelM g p v := by
  cases v with
  | array items =>
    have hadd : writeItems f (S.addAt p) items = writeItems g (S.addAt p) items :=
      hS.writeItems_congr h fun d hd => mem_directivesAt_of_addAt hd
    rw [visitLevelM, visitLevelM]
    cases hkeep : S.keepAt p with
    | some kept =>
      have hwrite : writeItems f kept items = writeItems g kept items :=
        hS.writeItems_congr h fun d hd => mem_directivesAt_of_keepAt hkeep hd
      rw [hS.visitItems_of_keepAt hkeep, hS.visitItems_of_keepAt hkeep, hwrite, hadd]
    | none =>
      have hpass : ∀ dropped, S.passItems f p dropped items = S.passItems g p dropped items := by
        intro dropped
        apply passItems_congr_below
        intro i u hu
        exact h _ u ⟨itemPath_eq_child i, Or.inl (List.mem_of_getElem? hu)⟩
      rw [visitItems_of_keepAt_eq_none hkeep, visitItems_of_keepAt_eq_none hkeep, hpass, hadd]
  | object members =>
    have hadd : writeMembers f (S.addAt p) members = writeMembers g (S.addAt p) members :=
      hS.writeMembers_congr h fun d hd => mem_directivesAt_of_addAt hd
    have hpass : ∀ dropped, passMembers f p dropped members = passMembers g p dropped members := by
      intro dropped
      apply passMembers_congr_below
      intro k u hu
      exact h _ u ⟨⟨_, rfl⟩, Or.inl (List.mem_map.2 ⟨_, hu, rfl⟩)⟩
    unfold visitLevelM visitMembersM
    simp only [hadd, hpass]
    cases S.dropAt p with
    | some dropped => rfl
    | none =>
      cases hkeep : S.keepAt p with
      | some kept =>
        have hwrite : writeMembers f kept members = writeMembers g kept members :=
          hS.writeMembers_congr h fun d hd => mem_directivesAt_of_keepAt hkeep hd
        simp only [hwrite]
      | none => rfl
  | _ => rfl

theorem Coherent.visitLevel_congr {f g : Path → Value → Value} (hS : S.Coherent) {v : Value}
    (h : ∀ q u, S.Reaches p v q u → f q u = g q u) : S.visitLevel f p v = S.visitLevel g p v :=
  congrArg Id.run (hS.visitLevelM_congr fun q u hq => congrArg pure (h q u hq))

end Schema

end RecordFilter
