import Workgroup.Text.Printer

/-!
Contract: programs, that is modules with the facts that their text declares,
and the text of a program.
-/

namespace Workgroup

/-- A module together with the facts that its text declares. -/
structure Program where
  module : Module
  facts : FactTable
deriving DecidableEq

namespace Program

def empty : Program := ⟨.empty, .empty⟩

instance : Inhabited Program := ⟨empty⟩

/-- The text of a program, its facts included. -/
def render (program : Program) : String :=
  program.module.renderWith fun handle function =>
    ((program.facts.get? handle).bind function.directive?).toList

end Program

end Workgroup
