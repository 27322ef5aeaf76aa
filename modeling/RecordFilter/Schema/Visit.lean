import RecordFilter.Schema.Basic

namespace RecordFilter

/-! # Visiting a value

A visit goes down the paths that the schema enters and leaves the rest of the value as it is. At each object or array it
drops, keeps or passes on the children, and then adds to them. Whatever a directive writes is visited in turn, at the
path of the directive.

The rules of one level are written once, for any treatment `descend` of the levels below: it gives a value, or an answer
in a monad, and then a level gathers its answers one after the other (`visitLevelM`). A level of a visit is the one in
the identity monad.
-/

open Json (Value)

/-- What the levels below may give for a value: another value, or an answer in a monad. -/
class OfValue (α : Type) where
  /-- The answer that is a value as it is. -/
  ofValue : Value → α

instance : OfValue Value := ⟨id⟩

@[simp]
theorem OfValue.ofValue_value (v : Value) : (OfValue.ofValue v : Value) = v := rfl

instance {m : Type → Type} [Pure m] : OfValue (m Value) := ⟨pure⟩

variable {α : Type} {m : Type → Type} [Monad m]

/-- The values that answers come to. -/
def gather (answers : List (m Value)) : m (List Value) := answers.mapM id

/-- The members whose values answers come to. -/
def gatherMembers (answers : List (String × m Value)) : m (List (String × Value)) :=
  answers.mapM fun e => Prod.mk e.1 <$> e.2

namespace Directive

/-- The item that a directive finds in an array. Only an index finds one. -/
def findItem? (d : Directive) (items : List Value) : Option Value :=
  d.sourceBase.index?.bind fun i => items[i]?

/-- The member that a directive finds in an object. -/
def findMember? (d : Directive) (members : List (String × Value)) : Option Value :=
  Dictionary.find? d.sourceBase.key members

/-- What a directive writes: what it found or else its default, or `null` without either. -/
def write [OfValue α] (descend : Path → Value → α) (d : Directive) (found : Option Value) : α :=
  match found.or d.default with
  | some v => descend d.path v
  | none => OfValue.ofValue .null

end Directive

namespace Schema

section Rules

variable (S : Schema) (descend : Path → Value → α) (p : Path)

/-- The path at which an item of an array is visited: its own if that is entered, the wildcard otherwise. -/
def itemPath (i : Nat) : Path := if S.visits (p.index i) then p.index i else p.wildcard

/-- Whether the item at a position is among dropped paths. -/
def dropsItem (dropped : List Path) (i : Nat) : Bool :=
  dropped.contains p.wildcard || dropped.contains (p.index i)

/-- The items of an array without those dropped. Positions count in the array as it was. -/
def passItems (dropped : List Path) (items : List Value) : List α :=
  (items.zipIdx.filter fun (_, i) => !dropsItem p dropped i).map fun (v, i) =>
    descend (S.itemPath p i) v

/-- The members of an object without those dropped. -/
def passMembers (dropped : List Path) (members : List (String × Value)) : List (String × α) :=
  (members.filter fun (k, _) => !dropped.contains (p.key k)).map fun (k, v) =>
    (k, descend (p.key k) v)

variable [OfValue α]

/-- What directives write as items, one each. -/
def writeItems (ds : List Directive) (items : List Value) : List α :=
  ds.map fun d => d.write descend (d.findItem? items)

/-- What directives write as members, each under the key of its path. -/
def writeMembers (ds : List Directive) (members : List (String × Value)) : List (String × α) :=
  ds.map fun d => (d.base.key, d.write descend (d.findMember? members))

/-- The array for an array. Dropping comes before keeping, and added items follow. -/
def visitItems (items : List Value) : List α :=
  let base :=
    match S.dropAt p, S.keepAt p with
    | some dropped, _ => S.passItems descend p dropped items
    | none, some kept => writeItems descend kept items
    | none, none => S.passItems descend p [] items
  base ++ writeItems descend (S.addAt p) items

end Rules

/-- Puts added members at the end, in turn, also those whose keys were there before. -/
def appendMembers (base added : List (String × Value)) : List (String × Value) :=
  added.foldl (fun d (k, v) => Dictionary.append k v d) base

section Levels

variable (S : Schema) (descend : Path → Value → m Value) (f : Path → Value → Value) (p : Path)

/-- The object for an object. Dropping comes before keeping, and added members go to the end. -/
def visitMembersM (members : List (String × Value)) : m (List (String × Value)) := do
  let base ←
    match S.dropAt p, S.keepAt p with
    | some dropped, _ => gatherMembers (passMembers descend p dropped members)
    | none, some kept => Dictionary.ofList <$> gatherMembers (writeMembers descend kept members)
    | none, none => gatherMembers (passMembers descend p [] members)
  let added ← gatherMembers (writeMembers descend (S.addAt p) members)
  return appendMembers base added

/-- One level, for a path that is entered. -/
def visitLevelM : Value → m Value
  | .array items => Value.array <$> gather (S.visitItems descend p items)
  | .object members => Value.object <$> S.visitMembersM descend p members
  | v => pure v

/-- The object for an object where the levels below give values. -/
def visitMembers (members : List (String × Value)) : List (String × Value) :=
  Id.run (S.visitMembersM (fun q v => pure (f q v)) p members)

/-- One level of a visit, for a path that is entered. -/
def visitLevel (v : Value) : Value := Id.run (S.visitLevelM (fun q u => pure (f q u)) p v)

end Levels

variable (S : Schema) (p : Path)

/-- A visit that goes down at most so many levels. -/
def visitTo : Nat → Path → Value → Value
  | 0, _, v => v
  | levels + 1, p, v => if S.visits p then S.visitLevel (visitTo levels) p v else v

/-- Visits a value at a path. No path is entered below the depth of the schema, so the levels left from `p` down to that
depth are all there are. -/
def visit (v : Value) : Value := S.visitTo (S.depth + 1 - p.depth) p v

/-- Visits the field of a record. -/
def visitField (name : String) (v : Value) : Value := S.visit (Path.field name) v

/-- Whether a visit builds a new value: the path is entered and the value has children. -/
def rebuilds (v : Value) : Bool :=
  S.visits p &&
    match v with
    | .array _ => true
    | .object _ => true
    | _ => false

end Schema

end RecordFilter
