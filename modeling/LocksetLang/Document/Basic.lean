import LocksetLang.Binary64.Basic

/-! Documents: nested records and lists, as data formats exchange them. The fields of a record keep
their order. -/

namespace LocksetLang

inductive Document where
  | null
  | flag (value : Bool)
  | number (value : Binary64)
  | text (value : String)
  | list (items : List Document)
  | record (fields : List (String × Document))

end LocksetLang
