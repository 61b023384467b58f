/-!
Flags of an item. A flag that an item has of its own counts for everything declared inside it.
-/

namespace ApiSurface

/-- A property that an item passes on to all that it contains. -/
inductive Flag where
  | hidden
  | removed
  | deprecated
  | docOnly
  deriving DecidableEq, Repr

namespace Flag

def all : List Flag := [hidden, removed, deprecated, docOnly]

def name : Flag → String
  | .hidden => "hidden"
  | .removed => "removed"
  | .deprecated => "deprecated"
  | .docOnly => "doc_only"

end Flag

structure ItemFlags where
  hidden : Bool := false
  removed : Bool := false
  deprecated : Bool := false
  docOnly : Bool := false
  /-- Whether the item was hidden when it was declared, whatever happened to its flags since. -/
  declaredHidden : Bool := false
  deriving DecidableEq, Repr, Inhabited

namespace ItemFlags

def get (flags : ItemFlags) : Flag → Bool
  | .hidden => flags.hidden
  | .removed => flags.removed
  | .deprecated => flags.deprecated
  | .docOnly => flags.docOnly

def set (flags : ItemFlags) (flag : Flag) (value : Bool) : ItemFlags :=
  match flag with
  | .hidden => { flags with hidden := value }
  | .removed => { flags with removed := value }
  | .deprecated => { flags with deprecated := value }
  | .docOnly => { flags with docOnly := value }

/-- The flags of an item at the moment it is declared. -/
def declared (flags : ItemFlags) : ItemFlags := { flags with declaredHidden := flags.hidden }

theorem get_set (flags : ItemFlags) (changed flag : Flag) (value : Bool) :
    (flags.set changed value).get flag = if flag = changed then value else flags.get flag := by
  cases changed <;> cases flag <;> simp [set, get]

theorem declaredHidden_set (flags : ItemFlags) (flag : Flag) (value : Bool) :
    (flags.set flag value).declaredHidden = flags.declaredHidden := by
  cases flag <;> rfl

end ItemFlags

end ApiSurface
