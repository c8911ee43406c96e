import DynamicValues.Host.Basic

/-!
Settings. They are read from a host object, whose fields are optional and may be accompanied by others,
or from an array with the settings in order.
-/

set_option autoImplicit false

namespace DynamicValues

structure Config where
  /-- Ranges and maps are iterators instead of lists. -/
  python3 : Bool
  deriving DecidableEq

namespace Config

def standard : Config := ⟨false⟩

def ofHost? : Host → Option Config
  | .object fields =>
    match fields.lookup (Text.ofString "python3") with
    | none => some standard
    | some (.bool b) => some ⟨b⟩
    | some _ => none
  | .array [] => some standard
  | .array [.bool b] => some ⟨b⟩
  | _ => none

end Config
end DynamicValues
