import QueryFunctions.Expr.Basic

/-! Values as sequences of items. A sequence of one item is that item and sequences do not nest;
`ofItems` keeps it so. -/
namespace QueryFunctions

namespace Value

/-- The items of a value; all but sequences are one item. -/
def items : Value → List Value
  | .seq vs => vs
  | v => [v]

/-- The sequence of the items of `vs`. -/
def ofItems (vs : List Value) : Value :=
  match vs.flatMap items with
  | [v] => v
  | flat => .seq flat

def isEmpty : Value → Bool
  | .seq [] => true
  | _ => false

theorem isEmpty_empty : empty.isEmpty = true := rfl

theorem ofItems_nil : ofItems [] = empty := rfl

def seqType : Value → SeqType
  | .int _ => .integer
  | .bool _ => .boolean
  | .str _ => .string
  | .seq [] => .empty
  | .seq _ => .item
  | .func f => f.type.toSeqType

def typeName : Value → String
  | .int _ => "xs:integer"
  | .bool _ => "xs:boolean"
  | .str _ => "xs:string"
  | .seq [] => "empty-sequence()"
  | .seq _ => "item()+"
  | .func _ => "function(*)"

def asInt (v : Value) (span : Span) : Except QueryError Int64 :=
  match v with
  | .int i => .ok i
  | _ => .error (.integerExpected v.typeName span)

def asFunc (v : Value) (span : Span) : Except QueryError FuncItem :=
  match v with
  | .func f => .ok f
  | _ => .error (.functionExpected v.typeName span)

def ebv (v : Value) (span : Span) : Except QueryError Bool :=
  match v with
  | .bool b => .ok b
  | .int i => .ok (i != 0)
  | .str s => .ok (!s.isEmpty)
  | .seq [] => .ok false
  | _ => .error (.noBooleanValue v.typeName span)

mutual
def text : Value → String
  | .int i => toString i.toInt
  | .bool b => if b then "true" else "false"
  | .str s => s
  | .seq vs => listText vs
  | .func f => f.text
termination_by structural x => x

def listText : List Value → String
  | [] => ""
  | [v] => text v
  | v :: w :: vs => text v ++ " " ++ listText (w :: vs)
termination_by structural x => x
end

/-- The name of a function item as a value, or nothing for an anonymous one. -/
def ofName (f : FuncItem) : Value :=
  match f.name with
  | some name => .str name
  | none => .empty

end Value

namespace SeqType

/-- Whether a value has the type at run time. Of a function only the arity is looked at. -/
def accepts : SeqType → Value → Bool
  | .item, _ => true
  | .empty, v => v.isEmpty
  | .integer, .int _ | .boolean, .bool _ | .string, .str _ | .anyFunction, .func _ => true
  | .function params _ _, .func f => f.arity == params.length
  | _, _ => false

theorem accepts_item (v : Value) : SeqType.item.accepts v = true := rfl

end SeqType

end QueryFunctions
