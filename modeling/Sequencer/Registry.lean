import Sequencer.Table
import Sequencer.Text.Blank
import Sequencer.Text.Quoted

/-! Registries give names to handles. A handle stands for user code: an operation, a resolver of
labels, or a handler; blanks around a name do not count. -/

namespace Sequencer

structure Registry (κ : Type) where
  operations : Table String κ := {}
  resolvers : Table String κ := {}

namespace Registry
variable {κ : Type}

def register (r : Registry κ) (name : String) (handle : κ) : Registry κ :=
  { r with operations := r.operations.insert (Text.trim name) handle }

def registerResolver (r : Registry κ) (name : String) (handle : κ) : Registry κ :=
  { r with resolvers := r.resolvers.insert (Text.trim name) handle }

def operation? (r : Registry κ) (name : String) : Option κ := r.operations.get? (Text.trim name)

def resolver? (r : Registry κ) (name : String) : Option κ := r.resolvers.get? (Text.trim name)

theorem operation?_register (r : Registry κ) (name name' : String) (handle : κ) :
    (r.register name handle).operation? name' =
      if Text.trim name = Text.trim name' then some handle else r.operation? name' :=
  Table.get?_insert _ _ _ _

theorem resolver?_registerResolver (r : Registry κ) (name name' : String) (handle : κ) :
    (r.registerResolver name handle).resolver? name' =
      if Text.trim name = Text.trim name' then some handle else r.resolver? name' :=
  Table.get?_insert _ _ _ _

/-- Quoted names in the order of their code points. -/
def showNames (names : List String) : String :=
  "[" ++ ", ".intercalate ((names.mergeSort fun a b => decide (a ≤ b)).map Text.quote) ++ "]"

/-- The names known to the registry, of operations and of resolvers. -/
def describe (r : Registry κ) : String :=
  "Registry \x7b operations: " ++ showNames r.operations.keys ++
    ", resolvers: " ++ showNames r.resolvers.keys ++ " \x7d"

end Registry
end Sequencer
