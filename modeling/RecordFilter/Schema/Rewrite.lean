import RecordFilter.Schema.Visit

namespace RecordFilter

/-! # Rewriting a value that is given up

A rewrite makes what a visit makes and uses its input up. Added values are copied first, while all of the input is
there. A kept value is taken by the last directive that reads it and copied by those before. What is added and what
stands in for a missing value is not part of the input, so it is visited.
-/

open Json (Value)

namespace Schema

variable {α : Type} {m : Type → Type} [Monad m]

section Rules

variable [OfValue α] (S : Schema) (consume copy : Path → Value → α) (p : Path)

/-- What a directive writes of a value it holds, or in place of one it does not find. -/
def takeOr (d : Directive) (found : Option Value) : α :=
  match found with
  | some v => consume d.path v
  | none => d.write copy none

/-- What directives write as items from the sources still held. A source is given up at its last reader. -/
def takeItems : List Directive → List (Option Value) → List α
  | [], _ => []
  | d :: ds, held =>
    match d.sourceBase.index? with
    | none => takeOr consume copy d none :: takeItems ds held
    | some i =>
      let readLater := ds.any fun e => e.sourceBase.index? == some i
      takeOr consume copy d held[i]?.join ::
        takeItems ds (if readLater then held else held.set i none)

/-- What directives write as members from the sources still held. A source is given up at its last reader, and the last
source held moves to its place. -/
def takeMembers : List Directive → List (String × Value) → List (String × α)
  | [], _ => []
  | d :: ds, held =>
    let k := d.sourceBase.key
    let readLater := ds.any fun e => e.sourceBase.key == k
    (d.base.key, takeOr consume copy d (Dictionary.find? k held)) ::
      takeMembers ds (if readLater then held else Dictionary.swapErase k held)

/-- The array for an array that is given up. -/
def rewriteItems (items : List Value) : List α :=
  let added := writeItems copy (S.addAt p) items
  let base :=
    match S.dropAt p, S.keepAt p with
    | some dropped, _ => S.passItems consume p dropped items
    | none, some kept => takeItems consume copy kept (items.map some)
    | none, none => S.passItems consume p [] items
  base ++ added

end Rules

section Levels

variable (S : Schema) (consume copy : Path → Value → m Value) (f g : Path → Value → Value) (p : Path)

/-- The object for an object that is given up. -/
def rewriteMembersM (members : List (String × Value)) : m (List (String × Value)) := do
  let added ← gatherMembers (writeMembers copy (S.addAt p) members)
  let base ←
    match S.dropAt p, S.keepAt p with
    | some dropped, _ => gatherMembers (passMembers consume p dropped members)
    | none, some kept => Dictionary.ofList <$> gatherMembers (takeMembers consume copy kept members)
    | none, none => gatherMembers (passMembers consume p [] members)
  return appendMembers base added

/-- One level of a rewrite, for a path that is entered. -/
def rewriteLevelM : Value → m Value
  | .array items => Value.array <$> gather (S.rewriteItems consume copy p items)
  | .object members => Value.object <$> S.rewriteMembersM consume copy p members
  | v => pure v

/-- The object for an object that is given up, where the levels below give values. -/
def rewriteMembers (members : List (String × Value)) : List (String × Value) :=
  Id.run (S.rewriteMembersM (fun q v => pure (f q v)) (fun q v => pure (g q v)) p members)

/-- One level of a rewrite where the levels below give values. -/
def rewriteLevel (v : Value) : Value :=
  Id.run (S.rewriteLevelM (fun q u => pure (f q u)) (fun q u => pure (g q u)) p v)

end Levels

variable (S : Schema) (p : Path)

/-- A rewrite that goes down at most so many levels. -/
def rewriteTo : Nat → Path → Value → Value
  | 0, _, v => v
  | levels + 1, p, v =>
    if S.visits p then S.rewriteLevel (rewriteTo levels) (S.visitTo levels) p v else v

/-- Rewrites a value at a path. -/
def rewrite (v : Value) : Value := S.rewriteTo (S.depth + 1 - p.depth) p v

/-- Rewrites each field of a record in its place. -/
def rewriteRecord (record : List (String × Value)) : List (String × Value) :=
  record.map fun (name, v) => (name, S.rewrite (Path.field name) v)

end Schema

end RecordFilter
