import RecordFilter.Proofs.Visit.Ownership

namespace RecordFilter

/-! # How deep calls nest

Defaults and sources are visited again at the path of their directive, so a visit does not just go down the value. It
may be given as many nested calls as it is allowed, and gives up when it needs more (`visit?`, `rewrite?`): this is the
same level with calls that may fail. It never needs more than the names of the configuration have segments below its
path, and two: what carries this is that one call leads to others only at children of its path (`Answers`), and to none
at a path that is longer than all names.
-/

open Json (Value)

namespace Schema

/-! ## Calls that may fail -/

section Calls

variable (S : Schema)

/-- A visit in which at most so many calls are nested, itself included. -/
def visit? : Nat → Path → Value → Option Value
  | 0, _, _ => none
  | calls + 1, p, v => if S.visits p then S.visitLevelM (visit? calls) p v else some v

/-- A rewrite in which at most so many calls are nested, itself and the visits that it makes included. -/
def rewrite? : Nat → Path → Value → Option Value
  | 0, _, _ => none
  | calls + 1, p, v => if S.visits p then S.rewriteLevelM (rewrite? calls) (S.visit? calls) p v else some v

end Calls

variable {S : Schema} {p : Path}

theorem Coherent.path_eq_child_of_keepAt (hS : S.Coherent) {kept : List Directive} (h : S.keepAt p = some kept) :
    ∀ d ∈ kept, d.path = p.child d.base :=
  fun _ hd => hS.path_eq_child (mem_directivesAt_of_keepAt h hd)

/-! ## Levels of a rewrite depend on the levels below -/

section Taking

variable {α : Type} [OfValue α] {consume consume' copy copy' : Path → Value → α}
  (hconsume : ∀ s u, consume (p.child s) u = consume' (p.child s) u)
  (hcopy : ∀ s u, copy (p.child s) u = copy' (p.child s) u)

include hconsume hcopy

theorem takeOr_congr {d : Directive} (hd : d.path = p.child d.base) (found : Option Value) :
    takeOr consume copy d found = takeOr consume' copy' d found := by
  cases found with
  | some u =>
    show consume d.path u = consume' d.path u
    rw [hd, hconsume]
  | none =>
    apply Directive.write_congr Iff.rfl
    · intro u w hu
      cases hu
    · intro u _
      rw [hd, hcopy]

theorem takeItems_congr {ds : List Directive} (hds : ∀ d ∈ ds, d.path = p.child d.base) (held : List (Option Value)) :
    takeItems consume copy ds held = takeItems consume' copy' ds held := by
  induction ds generalizing held with
  | nil => rfl
  | cons d ds ih =>
    have hhead := takeOr_congr hconsume hcopy (hds d List.mem_cons_self)
    have htail := ih fun e he => hds e (List.mem_cons_of_mem _ he)
    unfold takeItems
    simp only [hhead, htail]

theorem takeMembers_congr {ds : List Directive} (hds : ∀ d ∈ ds, d.path = p.child d.base)
    (held : List (String × Value)) : takeMembers consume copy ds held = takeMembers consume' copy' ds held := by
  induction ds generalizing held with
  | nil => rfl
  | cons d ds ih =>
    have hhead := takeOr_congr hconsume hcopy (hds d List.mem_cons_self)
    have htail := ih fun e he => hds e (List.mem_cons_of_mem _ he)
    unfold takeMembers
    simp only [hhead, htail]

end Taking

/-- A level of a rewrite depends only on what the levels below make of values at the children of its path. -/
theorem Coherent.rewriteLevelM_congr {m : Type → Type} [Monad m] (hS : S.Coherent)
    {consume consume' copy copy' : Path → Value → m Value}
    (hconsume : ∀ s u, consume (p.child s) u = consume' (p.child s) u)
    (hcopy : ∀ s u, copy (p.child s) u = copy' (p.child s) u) (v : Value) :
    S.rewriteLevelM consume copy p v = S.rewriteLevelM consume' copy' p v := by
  have hreached : ∀ q u, S.Reaches p v q u → copy q u = copy' q u := by
    intro q u hq
    obtain ⟨s, rfl⟩ := hq.below
    exact hcopy s u
  cases v with
  | array items =>
    have hadd : writeItems copy (S.addAt p) items = writeItems copy' (S.addAt p) items :=
      hS.writeItems_congr hreached fun d hd => mem_directivesAt_of_addAt hd
    have hpass : ∀ dropped, S.passItems consume p dropped items = S.passItems consume' p dropped items := by
      intro dropped
      apply passItems_congr_below
      intro i u _
      obtain ⟨s, hs⟩ := itemPath_eq_child (S := S) (p := p) i
      rw [hs, hconsume]
    unfold rewriteLevelM rewriteItems
    simp only [hadd, hpass]
    cases S.dropAt p with
    | some dropped => rfl
    | none =>
      cases hkeep : S.keepAt p with
      | some kept => simp only [takeItems_congr hconsume hcopy (hS.path_eq_child_of_keepAt hkeep)]
      | none => rfl
  | object members =>
    have hadd : writeMembers copy (S.addAt p) members = writeMembers copy' (S.addAt p) members :=
      hS.writeMembers_congr hreached fun d hd => mem_directivesAt_of_addAt hd
    have hpass : ∀ dropped, passMembers consume p dropped members = passMembers consume' p dropped members :=
      fun _ => passMembers_congr_below fun k u _ => hconsume (.name k) u
    unfold rewriteLevelM rewriteMembersM
    simp only [hadd, hpass]
    cases S.dropAt p with
    | some dropped => rfl
    | none =>
      cases hkeep : S.keepAt p with
      | some kept => simp only [takeMembers_congr hconsume hcopy (hS.path_eq_child_of_keepAt hkeep)]
      | none => rfl
  | _ => rfl

/-! ## Levels over calls that are answered -/

/-- Calls one step below `p` are all answered, as `f` does. -/
def Answers (descend : Path → Value → Option Value) (f : Path → Value → Value) (p : Path) : Prop :=
  ∀ s u, descend (p.child s) u = some (f (p.child s) u)

variable {descend consume copy : Path → Value → Option Value} {f g : Path → Value → Value}

/-- A level of a visit needs calls at children of its path only. -/
theorem Coherent.visitLevelM_eq_some (hS : S.Coherent) (h : Answers descend f p) (v : Value) :
    S.visitLevelM descend p v = some (S.visitLevel f p v) := by
  have hbelow : ∀ q u, S.Reaches p v q u → descend q u = pure (f q u) := by
    intro q u hq
    obtain ⟨s, rfl⟩ := hq.below
    exact h s u
  rw [hS.visitLevelM_congr hbelow]
  exact visitLevelM_pure v

/-- A level of a rewrite needs rewrites and visits at children of its path only. -/
theorem Coherent.rewriteLevelM_eq_some (hS : S.Coherent) (hconsume : Answers consume f p) (hcopy : Answers copy g p)
    (v : Value) : S.rewriteLevelM consume copy p v = some (S.rewriteLevel f g p v) := by
  have hplain : S.rewriteLevelM consume copy p v =
      S.rewriteLevelM (fun q u => pure (f q u)) (fun q u => pure (g q u)) p v :=
    hS.rewriteLevelM_congr (fun s u => hconsume s u) (fun s u => hcopy s u) v
  rw [hplain]
  exact rewriteLevelM_pure v

/-! ## Calls that are enough -/

/-- No entered path is longer than the names of the configuration. -/
theorem depth_le_of_visits_of_compile {c : Config} (h : compile c = .ok S) {L : Nat}
    (hL : ∀ n ∈ c.names, n.depth ≤ L) (hp : S.visits p) : p.depth ≤ L := by
  rcases (visits_iff_of_compile h).1 hp with ⟨n, hn, hprefix⟩
  exact Nat.le_trans (Path.depth_le_of_mem_prefixes hprefix) (hL n hn)

/-- The levels that are counted in a visit are enough if they reach below the deepest entered path, and the calls that
are counted if they reach below all names and one further. -/
theorem Coherent.visit?_eq_visitTo (hS : S.Coherent) {L : Nat} (hL : ∀ p, S.visits p → p.depth ≤ L)
    {calls levels : Nat} (hcalls : L + 1 - p.depth < calls) (hlevels : S.depth < levels + p.depth) (v : Value) :
    S.visit? calls p v = some (S.visitTo levels p v) := by
  induction calls generalizing levels p v with
  | zero => omega
  | succ calls ih =>
    unfold visit?
    split
    · next hp =>
      -- an entered path is no longer than the names, so there are calls left for what is below
      have hdepth := depth_le_of_visits hp
      have hbound := hL p hp
      cases levels with
      | zero => omega
      | succ levels =>
        rw [visitTo, if_pos hp]
        apply hS.visitLevelM_eq_some
        intro s u
        have hsdepth : (p.child s).depth = p.depth + 1 := rfl
        exact ih (by omega) (by omega) u
    · next hp => rw [visitTo_of_not_visits (by simpa using hp)]

theorem Coherent.rewrite?_eq_rewriteTo (hS : S.Coherent) {L : Nat} (hL : ∀ p, S.visits p → p.depth ≤ L)
    {calls levels : Nat} (hcalls : L + 1 - p.depth < calls) (hlevels : S.depth < levels + p.depth) (v : Value) :
    S.rewrite? calls p v = some (S.rewriteTo levels p v) := by
  induction calls generalizing levels p v with
  | zero => omega
  | succ calls ih =>
    unfold rewrite?
    split
    · next hp =>
      have hdepth := depth_le_of_visits hp
      have hbound := hL p hp
      cases levels with
      | zero => omega
      | succ levels =>
        rw [rewriteTo, if_pos hp]
        apply hS.rewriteLevelM_eq_some
        -- what is taken is rewritten, and what is copied or stands in for it is visited
        · intro s u
          have hsdepth : (p.child s).depth = p.depth + 1 := rfl
          exact ih (by omega) (by omega) u
        · intro s u
          have hsdepth : (p.child s).depth = p.depth + 1 := rfl
          exact hS.visit?_eq_visitTo hL (by omega) (by omega) u
    · next hp => rw [rewriteTo_of_not_visits (by simpa using hp)]

/-- How deep calls nest depends on the configuration alone: from a path on, one call for each segment that the longest
name has more, and two. With so many calls a visit and a rewrite are answered, and with any more they are answered
alike. -/
theorem visit?_rewrite?_eq_some {c : Config} {S : Schema} (h : compile c = .ok S) {L : Nat}
    (hL : ∀ n ∈ c.names, n.depth ≤ L) (p : Path) (v : Value) {calls : Nat} (hcalls : L + 1 - p.depth + 1 ≤ calls) :
    S.visit? calls p v = some (S.visit p v) ∧ S.rewrite? calls p v = some (S.rewrite p v) := by
  have hS := coherent_of_compile h
  have hdepth : ∀ p, S.visits p → p.depth ≤ L := fun _ hp => depth_le_of_visits_of_compile h hL hp
  constructor
  · exact hS.visit?_eq_visitTo hdepth hcalls (by omega) v
  · exact hS.rewrite?_eq_rewriteTo hdepth hcalls (by omega) v

/-- An empty object, in which defaults are written inside defaults: it takes all the calls that the names allow, and
one call fewer is not enough. -/
theorem visit?_rewrite?_eq_some_defaults :
    let c : Config := ⟨[⟨"$.a.k", some .json, some (.object []), none⟩,
      ⟨"$.a.k.m", some .json, some (.array [.null]), none⟩], [], []⟩
    let a := Path.field "a"
    let S : Schema := ⟨[a, a.key "k", (a.key "k").key "m"],
      [(a, [(a.key "k", ⟨a, .name "k", some .json, some (.object []), none⟩)]),
        (a.key "k", [((a.key "k").key "m", ⟨a.key "k", .name "m", some .json, some (.array [.null]), none⟩)])],
      [], []⟩
    compile c = .ok S ∧ (∀ n ∈ c.names, n.depth ≤ 3) ∧ 3 + 1 - a.depth + 1 ≤ 4 ∧
      S.visit? 3 a (.object []) = none ∧ S.rewrite? 3 a (.object []) = none ∧
      S.visit a (.object []) = .object [("k", .object [("m", .array [.null])])] ∧
      S.visit? 4 a (.object []) = some (S.visit a (.object [])) ∧
      S.rewrite? 4 a (.object []) = some (S.rewrite a (.object [])) := by
  intro c a S
  have h : compile c = .ok S := by cbv
  have hnames : c.names = [a.key "k", (a.key "k").key "m"] := by cbv
  have hL : ∀ n ∈ c.names, n.depth ≤ 3 := by
    rw [hnames]
    decide
  have hcalls : 3 + 1 - a.depth + 1 ≤ 4 := by decide
  exact ⟨h, hL, hcalls, by cbv, by cbv, by cbv, visit?_rewrite?_eq_some h hL a (.object []) hcalls⟩

end Schema

end RecordFilter
