/-! How much a finding matters. -/
namespace SourceMend

inductive Severity where
  | info
  | warn
  | error
  deriving DecidableEq, Repr, Inhabited

namespace Severity

def name : Severity → String
  | .info => "info"
  | .warn => "warn"
  | .error => "error"

def ofName? : String → Option Severity
  | "info" => some .info
  | "warn" => some .warn
  | "error" => some .error
  | _ => none

end Severity
end SourceMend
