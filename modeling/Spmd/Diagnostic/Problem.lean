import Spmd.Constant.Folding
import Spmd.Ty.Conversion

/-!
# Problems

Every reason to reject an expression, as data. Types and names are kept as they were found; parts of
the expression itself are kept as text. `Problem.category` sorts the reasons and `Problem.text` puts
them into words.
-/

namespace Spmd

inductive Category where
  | type | structural | overload | constant
  deriving DecidableEq, Repr, Inhabited

def Category.name : Category → String
  | .type => "type"
  | .structural => "structural"
  | .overload => "overload"
  | .constant => "constant"

def Category.all : List Category := [.type, .structural, .overload, .constant]

def Category.ofName? (name : String) : Option Category := all.find? fun c => c.name == name

inductive Side where
  | first | second
  deriving DecidableEq, Repr, Inhabited

def Side.name : Side → String
  | .first => "first"
  | .second => "second"

inductive Problem where
  -- conversions and operands
  | conversion (obstacle : Obstacle) (context : String)
  | discord (discord : Discord) (context : String)
  | operand (side : Side) (operator : BinaryOp) (type : Ty)
  | negated (type : Ty)
  | complemented (type : Ty)
  -- pointers
  | pointerOperands (operator : BinaryOp) (left right : Ty)
  | pointerAssignment (operator : AssignOp) (type : Ty)
  | addedPointers (left right : Ty)
  | subtractedPointers (left right : Ty)
  | subtractedFrom (pointer other : Ty)
  | voidArithmetic (type : Ty)
  | pointerOffset (type : Ty)
  -- assignments and steps
  | assignedConst (type : Ty)
  | assignedType (type : Ty)
  | steppedConst (step : Step) (type : Ty)
  | steppedVoidPointer (step : Step) (type : Ty)
  | steppedType (step : Step) (type : Ty)
  -- calls, indices, dereferences, sizes and allocations
  | argumentCount (signature : Signature) (given : Nat)
  | launchNeeded (callee : String)
  | launchIllegal (callee : String)
  | indexType (type : Ty)
  | voidIndex (type : Ty)
  | dereferenced (type : Ty)
  | dereferencedVoid (type : Ty)
  | voidSize
  | voidAllocation
  | allocationCount (type : Ty)
  -- structure
  | steppedValue (step : Step) (expression : String)
  | assignedValue (expression : String)
  | boundValue (type : Ty) (context : String)
  | referencedValue (expression : String)
  | addressOfValue (expression : String)
  | calledValue (type : Ty)
  | indexedType (type : Ty)
  | arrowOnValue (type : Ty)
  | dotOnPointer (type : Ty)
  | missingMember (name : String) (type : Ty) (hint : String)
  | swizzle (name : String) (type : Ty)
  | memberOperator (operator : String) (type : Ty)
  | countAndInitializer
  -- overloads
  | unresolved (name : String)
  | unresolvedFor (name context : String)
  | overloadedAddress (name : String)
  | noOverload (name : String) (arguments candidates : List Ty)
  | ambiguousOverload (name : String) (arguments candidates : List Ty)
  -- constants
  | folding (cause : FoldProblem)
  -- any other
  | stated (category : Category) (text : String)
  deriving Inhabited

namespace Problem

def category : Problem → Category
  | .steppedValue .. | .assignedValue .. | .boundValue .. | .referencedValue .. | .addressOfValue ..
  | .calledValue .. | .indexedType .. | .arrowOnValue .. | .dotOnPointer .. | .missingMember ..
  | .swizzle .. | .memberOperator .. | .countAndInitializer => .structural
  | .unresolved .. | .unresolvedFor .. | .overloadedAddress .. | .noOverload ..
  | .ambiguousOverload .. => .overload
  | .folding .. => .constant
  | .stated category _ => category
  | _ => .type

end Problem

def Discord.text (d : Discord) (context : String) : String :=
  match d with
  | .incompatible a b => s!"incompatible types \"{a}\" and \"{b}\" in {context}"
  | .vectorCounts a b =>
    s!"can't do binary operation on vector types \"{a}\" and \"{b}\" with different element counts in {context}"
  | .void => s!"\"void\" type in {context}"

def typeList (types : List Ty) : String := Text.commas (Ty.texts types)

def callText (name : String) (arguments : List Ty) : String :=
  s!"call to function \"{name}\" with arguments (" ++ typeList arguments ++ ")"

namespace Problem

def text : Problem → String
  | .conversion o context => o.text ++ " for " ++ context
  | .discord d context => d.text context
  | .operand side op t => side.name ++ " operand to " ++ op.description ++ s!" is of invalid type \"{t}\""
  | .negated t => s!"negate operator can't be applied to type \"{t}\""
  | .complemented t => s!"bit-not operator \"~\" can't be applied to type \"{t}\""
  | .pointerOperands op a b =>
    "illegal to use " ++ op.description ++ s!" with pointer operands \"{a}\" and \"{b}\""
  | .pointerAssignment op t => "illegal to use " ++ op.description ++ s!" with pointer type \"{t}\""
  | .addedPointers a b => s!"can't add two pointers \"{a}\" and \"{b}\""
  | .subtractedPointers a b => s!"can't subtract pointers of different types \"{a}\" and \"{b}\""
  | .subtractedFrom p t => s!"can't subtract pointer \"{p}\" from type \"{t}\""
  | .voidArithmetic t => s!"illegal pointer arithmetic on \"void *\" type \"{t}\""
  | .pointerOffset t => s!"pointer arithmetic needs an integer offset, not \"{t}\""
  | .assignedConst t => s!"can't assign to type \"{t}\" on left-hand side of assignment"
  | .assignedType t => s!"can't assign to expression of type \"{t}\""
  | .steppedConst s t => s!"can't assign to type \"{t}\" with " ++ Text.quoted s.text
  | .steppedVoidPointer s t =>
    "illegal to apply " ++ Text.quoted s.text ++ s!" to \"void *\" type \"{t}\""
  | .steppedType s t => "can't apply " ++ Text.quoted s.text ++ s!" to type \"{t}\""
  | .argumentCount s given =>
    s!"function of type \"{s.type}\" takes {s.parameters.length} arguments, but {given} were given"
  | .launchNeeded callee => s!"must use \"launch\" when calling task function \"{callee}\""
  | .launchIllegal callee => s!"\"launch\" expression illegal with non-task function \"{callee}\""
  | .indexType t => s!"array index must be an integer type, not \"{t}\""
  | .voidIndex t => s!"can't index into \"void *\" type \"{t}\""
  | .dereferenced t => s!"illegal to dereference non-pointer type \"{t}\""
  | .dereferencedVoid t => s!"illegal to dereference \"void *\" type \"{t}\""
  | .voidSize => "can't take the size of \"void\""
  | .voidAllocation => "can't allocate \"void\" with \"new\""
  | .allocationCount t => s!"item count for \"new\" expression must be an integer type, not \"{t}\""
  | .steppedValue s e => "can't apply " ++ Text.quoted s.text ++ s!" to expression \"{e}\" that is not an lvalue"
  | .assignedValue e => s!"can't assign to expression \"{e}\" that is not an lvalue"
  | .boundValue t context =>
    s!"can't bind reference of type \"{t}\" to a value that is not an lvalue for {context}"
  | .referencedValue e => s!"can't take a reference to expression \"{e}\" that is not an lvalue"
  | .addressOfValue e => s!"can't take the address of expression \"{e}\" that is not an lvalue"
  | .calledValue t =>
    s!"must provide function name or function pointer for function call expression, not \"{t}\""
  | .indexedType t => s!"can't index into non-array, non-vector, non-pointer type \"{t}\""
  | .arrowOnValue t => s!"member operator \"->\" can't be applied to non-pointer type \"{t}\""
  | .dotOnPointer t => s!"member operator \".\" can't be applied to pointer type \"{t}\"; use \"->\""
  | .missingMember name t hint => s!"element \"{name}\" not present in struct type \"{t}\"{hint}"
  | .swizzle name t => s!"invalid swizzle \"{name}\" for vector type \"{t}\""
  | .memberOperator op t => s!"member operator \"{op}\" can't be applied to non-struct type \"{t}\""
  | .countAndInitializer =>
    "can't provide both an initializer and an element count in \"new\" expression"
  | .unresolved name => s!"can't resolve overloaded function \"{name}\""
  | .unresolvedFor name context => s!"can't resolve overloaded function \"{name}\" for {context}"
  | .overloadedAddress name => s!"can't take the address of overloaded function \"{name}\""
  | .noOverload name arguments candidates =>
    "unable to find a matching overload for " ++ callText name arguments ++ "; candidates are: " ++
      typeList candidates
  | .ambiguousOverload name arguments candidates =>
    "multiple overloads matched " ++ callText name arguments ++ ": " ++ typeList candidates
  | .folding cause => cause.text
  | .stated _ text => text

end Problem

end Spmd
