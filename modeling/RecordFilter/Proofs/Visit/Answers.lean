import RecordFilter.Schema.Rewrite

namespace RecordFilter

/-! # Levels over answers

The rules of a level are the same in any monad. Where the levels below answer with plain values, so does the level, in
any lawful monad (`visitLevelM_pure`, `rewriteLevelM_pure`). In the identity monad this says what a level of a visit is
(`visitLevel_array`, `visitMembers_eq`), and of a rewrite, without a monad.
-/

open Json (Value)

variable {m : Type → Type} [Monad m] {f g : Path → Value → Value} {p : Path} {S : Schema}

/-! ## Gathering -/

section Gathering

variable [LawfulMonad m]

theorem gather_pure (vs : List Value) : gather (vs.map (pure : Value → m Value)) = pure vs := by
  rw [gather, List.mapM_map]
  exact List.mapM_pure.trans (congrArg pure (List.map_id vs))

theorem gatherMembers_pure (members : List (String × Value)) :
    gatherMembers (members.map fun e => (e.1, (pure e.2 : m Value))) = pure members := by
  have hpure : ((fun e => Prod.mk e.1 <$> e.2) ∘ fun e : String × Value => (e.1, (pure e.2 : m Value))) =
      fun e => pure (id e) := by
    funext e
    exact map_pure _ _
  rw [gatherMembers, List.mapM_map, hpure, List.mapM_pure, List.map_id]

end Gathering

/-! ## Plain values below -/

theorem Directive.write_pure (d : Directive) (found : Option Value) :
    d.write (fun q v => (pure (f q v) : m Value)) found = pure (d.write f found) := by
  unfold write
  cases found.or d.default with
  | none => rfl
  | some v => rfl

namespace Schema

theorem passItems_pure (dropped : List Path) (items : List Value) :
    S.passItems (fun q v => (pure (f q v) : m Value)) p dropped items = (S.passItems f p dropped items).map pure := by
  rw [passItems, passItems, List.map_map]
  rfl

theorem passMembers_pure (dropped : List Path) (members : List (String × Value)) :
    passMembers (fun q v => (pure (f q v) : m Value)) p dropped members =
      (passMembers f p dropped members).map fun e => (e.1, pure e.2) := by
  rw [passMembers, passMembers, List.map_map]
  rfl

theorem writeItems_pure (ds : List Directive) (items : List Value) :
    writeItems (fun q v => (pure (f q v) : m Value)) ds items = (writeItems f ds items).map pure := by
  rw [writeItems, writeItems, List.map_map]
  exact List.map_congr_left fun d _ => d.write_pure _

theorem writeMembers_pure (ds : List Directive) (members : List (String × Value)) :
    writeMembers (fun q v => (pure (f q v) : m Value)) ds members =
      (writeMembers f ds members).map fun e => (e.1, pure e.2) := by
  rw [writeMembers, writeMembers, List.map_map]
  exact List.map_congr_left fun d _ => congrArg (Prod.mk d.base.key) (d.write_pure _)

theorem visitItems_pure (items : List Value) :
    S.visitItems (fun q v => (pure (f q v) : m Value)) p items = (S.visitItems f p items).map pure := by
  unfold visitItems
  simp only [passItems_pure, writeItems_pure, List.map_append]
  split
  · rfl
  · rfl
  · rfl

/-! ## Visiting -/

theorem visitMembersM_pure_eq [LawfulMonad m] (members : List (String × Value)) :
    S.visitMembersM (fun q v => (pure (f q v) : m Value)) p members =
      pure (appendMembers
        (match S.dropAt p, S.keepAt p with
          | some dropped, _ => passMembers f p dropped members
          | none, some kept => Dictionary.ofList (writeMembers f kept members)
          | none, none => passMembers f p [] members)
        (writeMembers f (S.addAt p) members)) := by
  unfold visitMembersM
  simp only [passMembers_pure, writeMembers_pure, gatherMembers_pure, map_pure]
  cases S.dropAt p with
  | some dropped => simp only [pure_bind]
  | none =>
    cases S.keepAt p with
    | some kept => simp only [pure_bind]
    | none => simp only [pure_bind]

/-- The object for an object. -/
theorem visitMembers_eq (members : List (String × Value)) :
    S.visitMembers f p members =
      appendMembers
        (match S.dropAt p, S.keepAt p with
          | some dropped, _ => passMembers f p dropped members
          | none, some kept => Dictionary.ofList (writeMembers f kept members)
          | none, none => passMembers f p [] members)
        (writeMembers f (S.addAt p) members) := by
  rw [visitMembers, visitMembersM_pure_eq, Id.run_pure]

theorem visitMembersM_pure [LawfulMonad m] (members : List (String × Value)) :
    S.visitMembersM (fun q v => (pure (f q v) : m Value)) p members = pure (S.visitMembers f p members) := by
  rw [visitMembersM_pure_eq, visitMembers_eq]

theorem visitLevel_array (items : List Value) : S.visitLevel f p (.array items) = .array (S.visitItems f p items) := by
  rw [visitLevel, visitLevelM, visitItems_pure, gather_pure, map_pure, Id.run_pure]

theorem visitLevel_object (members : List (String × Value)) :
    S.visitLevel f p (.object members) = .object (S.visitMembers f p members) := rfl

/-- A level over plain values is a level of a visit. -/
theorem visitLevelM_pure [LawfulMonad m] (v : Value) :
    S.visitLevelM (fun q u => (pure (f q u) : m Value)) p v = pure (S.visitLevel f p v) := by
  cases v with
  | array items => rw [visitLevelM, visitItems_pure, gather_pure, map_pure, visitLevel_array]
  | object members => rw [visitLevelM, visitMembersM_pure, map_pure, visitLevel_object]
  | _ => rfl

/-! ## Rewriting -/

theorem takeOr_pure (d : Directive) (found : Option Value) :
    takeOr (fun q v => (pure (f q v) : m Value)) (fun q v => pure (g q v)) d found = pure (takeOr f g d found) := by
  cases found with
  | some v => rfl
  | none => exact d.write_pure none

theorem takeItems_pure (ds : List Directive) (held : List (Option Value)) :
    takeItems (fun q v => (pure (f q v) : m Value)) (fun q v => pure (g q v)) ds held =
      (takeItems f g ds held).map pure := by
  induction ds generalizing held with
  | nil => rfl
  | cons d ds ih =>
    unfold takeItems
    cases d.sourceBase.index? with
    | none => simp only [takeOr_pure, ih, List.map_cons]
    | some i => simp only [takeOr_pure, ih, List.map_cons]

theorem takeMembers_pure (ds : List Directive) (held : List (String × Value)) :
    takeMembers (fun q v => (pure (f q v) : m Value)) (fun q v => pure (g q v)) ds held =
      (takeMembers f g ds held).map fun e => (e.1, pure e.2) := by
  induction ds generalizing held with
  | nil => rfl
  | cons d ds ih =>
    unfold takeMembers
    simp only [takeOr_pure, ih, List.map_cons]

theorem rewriteItems_pure (items : List Value) :
    S.rewriteItems (fun q v => (pure (f q v) : m Value)) (fun q v => pure (g q v)) p items =
      (S.rewriteItems f g p items).map pure := by
  unfold rewriteItems
  simp only [passItems_pure, writeItems_pure, takeItems_pure, List.map_append]
  split
  · rfl
  · rfl
  · rfl

theorem rewriteMembersM_pure_eq [LawfulMonad m] (members : List (String × Value)) :
    S.rewriteMembersM (fun q v => (pure (f q v) : m Value)) (fun q v => pure (g q v)) p members =
      pure (appendMembers
        (match S.dropAt p, S.keepAt p with
          | some dropped, _ => passMembers f p dropped members
          | none, some kept => Dictionary.ofList (takeMembers f g kept members)
          | none, none => passMembers f p [] members)
        (writeMembers g (S.addAt p) members)) := by
  unfold rewriteMembersM
  simp only [passMembers_pure, writeMembers_pure, takeMembers_pure, gatherMembers_pure, map_pure, pure_bind]
  cases S.dropAt p with
  | some dropped => rfl
  | none =>
    cases S.keepAt p with
    | some kept => rfl
    | none => rfl

/-- The object for an object that is given up. -/
theorem rewriteMembers_eq (members : List (String × Value)) :
    S.rewriteMembers f g p members =
      appendMembers
        (match S.dropAt p, S.keepAt p with
          | some dropped, _ => passMembers f p dropped members
          | none, some kept => Dictionary.ofList (takeMembers f g kept members)
          | none, none => passMembers f p [] members)
        (writeMembers g (S.addAt p) members) := by
  rw [rewriteMembers, rewriteMembersM_pure_eq, Id.run_pure]

theorem rewriteMembersM_pure [LawfulMonad m] (members : List (String × Value)) :
    S.rewriteMembersM (fun q v => (pure (f q v) : m Value)) (fun q v => pure (g q v)) p members =
      pure (S.rewriteMembers f g p members) := by
  rw [rewriteMembersM_pure_eq, rewriteMembers_eq]

theorem rewriteLevel_array (items : List Value) :
    S.rewriteLevel f g p (.array items) = .array (S.rewriteItems f g p items) := by
  rw [rewriteLevel, rewriteLevelM, rewriteItems_pure, gather_pure, map_pure, Id.run_pure]

theorem rewriteLevel_object (members : List (String × Value)) :
    S.rewriteLevel f g p (.object members) = .object (S.rewriteMembers f g p members) := rfl

/-- A level over plain values is a level of a rewrite. -/
theorem rewriteLevelM_pure [LawfulMonad m] (v : Value) :
    S.rewriteLevelM (fun q u => (pure (f q u) : m Value)) (fun q u => pure (g q u)) p v =
      pure (S.rewriteLevel f g p v) := by
  cases v with
  | array items => rw [rewriteLevelM, rewriteItems_pure, gather_pure, map_pure, rewriteLevel_array]
  | object members => rw [rewriteLevelM, rewriteMembersM_pure, map_pure, rewriteLevel_object]
  | _ => rfl

end Schema

end RecordFilter
