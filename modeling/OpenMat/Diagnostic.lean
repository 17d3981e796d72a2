import OpenMat.Fallible.Basic

/-!
This module contains the diagnostics that the model compilers return.
-/

namespace OpenMat

structure ModelError where
  code : String
  message : String
  block : Option String
  port : Option String
  sourcePath : Option String
  line : Option Nat
  column : Option Nat
  deriving DecidableEq, Repr

namespace ModelError

def new (code message : String) : ModelError where
  code := code
  message := message
  block := none
  port := none
  sourcePath := none
  line := none
  column := none

def atPort (e : ModelError) (block : String) (port : Option String) : ModelError :=
  { e with block := some block, port := port }

end ModelError

end OpenMat
