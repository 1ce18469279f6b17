/-!
# The order of texts

Texts are ordered by their code points, which is also the order of their UTF-8 bytes. What threads
report without an order of its own is listed in this one.
-/

set_option autoImplicit false

namespace Lockstep

def textLe (a b : String) : Bool := !decide (b < a)

def sortTexts (texts : List String) : List String := texts.mergeSort textLe

end Lockstep
