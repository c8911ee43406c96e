import DynamicValues.Session.Query

/-!
Calls that change their first operand, the receiver. Each gives its reply and the receiver as it is
afterwards, also if it fails.
-/

set_option autoImplicit false

namespace DynamicValues

instance {ρ : Type} : MonadLift (Act Error ρ) (Act Fault ρ) := ⟨ExceptT.adapt Fault.error⟩

inductive ItemCommand where
  | set
  | delete

def ItemCommand.act (c : ItemCommand) (operands : List Value) : Act Fault Value (Reply Value) :=
  match c, operands with
  | .set, key :: new :: _ => do
    ItemEdit.set key new
    return .none
  | .delete, key :: _ => do
    ItemEdit.delete key
    return .none
  | _, _ => throw .malformed

inductive ListCommand where
  | append
  | extend
  | insert
  | remove
  | pop
  | popAt
  | sort
  | reverse
  | setItem
  | deleteItem
  | setSlice
  | deleteSlice

def ListCommand.act (c : ListCommand) (operands : List Value) : Act Fault (List Value) (Reply Value) :=
  match c, operands with
  | .append, v :: _ => do
    ListEdit.append v
    return .none
  | .extend, v :: _ => do
    let items ← Run.itemsOf v
    ListEdit.extend items
    return .none
  | .insert, .int i :: v :: _ => do
    ListEdit.insert i v
    return .none
  | .remove, v :: _ => do
    ListEdit.remove v
    return .none
  | .pop, _ => return .value (← ListEdit.pop)
  | .popAt, .int i :: _ => return .value (← ListEdit.popAt i)
  | .sort, _ => do
    ListEdit.sort
    return .none
  | .reverse, _ => do
    ListEdit.reverse
    return .none
  | .setItem, .int i :: v :: _ => do
    ListEdit.set i v
    return .none
  | .deleteItem, .int i :: _ => do
    ListEdit.delete i
    return .none
  | .setSlice, .slice s :: v :: _ => do
    ListEdit.setSlice s v
    return .none
  | .deleteSlice, .slice s :: _ => do
    ListEdit.deleteSlice s
    return .none
  | _, _ => throw .malformed

inductive DictCommand where
  | len
  | isEmpty
  | get
  | getOr
  | set
  | insert
  | delete
  | contains
  | keys
  | values
  | items
  | iter
  | update
  | clear
  | pop
  | popItem
  | toHost

def DictCommand.act (c : DictCommand) (operands : List Value) : Act Fault (Dict Value) (Reply Value) :=
  match c, operands with
  | .len, _ => return .nat (← Act.receiver).length
  | .isEmpty, _ => return .bool (← Act.receiver).isEmpty
  | .get, key :: _ => return .value (← (← Act.receiver).get key)
  | .getOr, key :: absent :: _ => return .value (← (← Act.receiver).getD key absent)
  | .set, key :: v :: _ => do
    DictEdit.set key v
    return .none
  | .insert, key :: v :: _ => do
    let k ← Key.of key
    return (← DictEdit.insert k v).elim .absent .value
  | .delete, key :: _ => do
    DictEdit.delete key
    return .none
  | .contains, key :: _ => return .bool (← (← Act.receiver).contains key)
  | .keys, _ => return .list (← Act.receiver).keys
  | .values, _ => return .list (← Act.receiver).values
  | .items, _ => return .list (← Run.pairs (← Act.receiver).entries)
  | .iter, _ => return .value (← Run.newIter (← Act.receiver).keys)
  | .update, .dict other :: _ => do
    DictEdit.update other
    return .none
  | .clear, _ => do
    DictEdit.clear
    return .none
  | .pop, key :: absent :: _ => return .value (← DictEdit.pop key (some absent))
  | .pop, [key] => return .value (← DictEdit.pop key none)
  | .popItem, _ => do
    let e ← DictEdit.popFirst
    return .value (← Run.newTuple [e.key, e.value])
  | .toHost, _ => return .host (← (Value.dict (← Act.receiver)).toHost (← Eval.store))
  | _, _ => throw .malformed

inductive Command where
  | item (c : ItemCommand)
  | list (c : ListCommand)
  | dict (c : DictCommand)

/-- The receiver has to be of the kind that the command changes. -/
def Command.act (c : Command) (operands : List Value) : Act Fault Value (Reply Value) :=
  match c with
  | .item c => c.act operands
  | .list c => do
    match ← Act.receiver with
    | .list xs => Act.within xs .list (c.act operands)
    | v => throw (.error (.immutable v.kind))
  | .dict c => do
    match ← Act.receiver with
    | .dict d => Act.within d .dict (c.act operands)
    | v => throw (.error (.immutable v.kind))

end DynamicValues
