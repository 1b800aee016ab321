/-!
# Attributes of types and methods

The bits of the flags that patching looks at.

* `methodAccess`, `methodModifiers` — the parts of the flags of a method.
* `isPublicMethod`, `isStaticMethod`, `isPublicType` — what they mean.
-/

set_option autoImplicit false

namespace CilGraft

/-- The bits of the flags of a method that say who may refer to it. -/
def methodAccess (flags : UInt32) : UInt32 := flags &&& 0x7

/-- The bits of the flags of a method that modify it: static `10`, final `20`, virtual `40`, hiding
by signature `80`, abstract `400`, special `800` and forwarded `2000`, in base sixteen. -/
def methodModifiers (flags : UInt32) : UInt32 := flags &&& 0x2CF0

/-- Everyone may refer to the method. -/
def isPublicMethod (flags : UInt32) : Bool := methodAccess flags == 0x6

/-- The method belongs to its type and not to an instance. -/
def isStaticMethod (flags : UInt32) : Bool := methodModifiers flags &&& 0x10 != 0

/-- Everyone may refer to the type, as long as its outer types allow it. -/
def isPublicType (flags : UInt32) : Bool :=
  let visibility := flags &&& 0x7
  visibility == 1 || visibility == 2

end CilGraft
