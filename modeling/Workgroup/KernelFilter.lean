import Workgroup.Function.Basic

/-!
Contract: which functions a kernel transformation may change.

Only defined kernels are ever selected; a filter can narrow the selection down
to the kernel of one name.
-/

namespace Workgroup

structure KernelFilter where
  kernelName : Option String
deriving DecidableEq, Repr

namespace KernelFilter

/-- Selects every defined kernel. -/
def all : KernelFilter := ⟨none⟩

/-- Selects the defined kernel of a name. -/
def only (name : String) : KernelFilter := ⟨some name⟩

def accepts (filter : KernelFilter) (function : Function) : Bool :=
  function.isKernel && !function.isDeclaration &&
    filter.kernelName.all fun name => function.name == name

end KernelFilter

end Workgroup
