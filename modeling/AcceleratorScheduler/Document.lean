/-! The data that a settings text holds, whatever format it was written in. -/
namespace AcceleratorScheduler

inductive Document where
  | text (value : String)
  | integer (value : Int)
  | boolean (value : Bool)
  /-- A number that is written with a fraction or an exponent. No setting takes one. -/
  | fraction
  /-- A date or a time. No setting takes one. -/
  | moment
  | absent
  | list (items : List Document)
  | table (entries : List (String × Document))
  deriving Repr, Inhabited

end AcceleratorScheduler
