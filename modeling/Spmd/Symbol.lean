import Spmd.Constant.Basic
import Spmd.Diagnostic.Location

/-!
# Symbols

What a name in an expression stands for. A constant symbol may carry its value.
-/

namespace Spmd

inductive Storage where
  | global | function | parameter | local
  deriving DecidableEq, Repr, Inhabited

def Storage.name : Storage → String
  | .global => "global"
  | .function => "function"
  | .parameter => "parameter"
  | .local => "local"

def Storage.all : List Storage := [.global, .function, .parameter, .local]

def Storage.ofName? (name : String) : Option Storage := all.find? fun s => s.name == name

structure Symbol where
  name : String
  type : Ty
  storage : Storage
  place : Option Location := none
  value : Option Constant := none
  deriving Inhabited

namespace Symbol

def isFunction (s : Symbol) : Bool := s.storage == .function

def signature? (s : Symbol) : Option Signature := s.type.signature?

def text (s : Symbol) : String := s.name ++ ": " ++ s.type.text

end Symbol

end Spmd
