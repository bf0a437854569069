import QueryFunctions.SeqType.Basic

/-! The written form of sequence types. A function type closes with its result, so its text needs
no bracket at the end. -/
namespace QueryFunctions

namespace SeqType

mutual
def text : SeqType → String
  | .item => "item()*"
  | .empty => "empty-sequence()"
  | .integer => "xs:integer"
  | .boolean => "xs:boolean"
  | .string => "xs:string"
  | .anyFunction => "function(*)"
  | .function ps r u =>
    (if u then "updating " else "") ++ "function(" ++ listText ps ++ ") as " ++ text r
termination_by structural x => x

def listText : List SeqType → String
  | [] => ""
  | [p] => text p
  | p :: q :: ps => text p ++ ", " ++ listText (q :: ps)
termination_by structural x => x
end

end SeqType

def FuncType.text (t : FuncType) : String := t.toSeqType.text

theorem FuncType.text_untyped_one :
    (FuncType.untyped 1).text = "function(item()*) as item()*" := by
  simp [FuncType.text, FuncType.untyped, FuncType.toSeqType, SeqType.text, SeqType.listText]

end QueryFunctions
