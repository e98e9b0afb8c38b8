import SourceMend.Disk.Basic

/-! What a command leaves behind. -/
namespace SourceMend.CommandLine

structure Outcome where
  exitCode : Nat := 0
  stdout : String := ""
  /-- What went wrong, for the error stream. -/
  problem : Option String := none
  disk : Disk
  deriving Inhabited

end SourceMend.CommandLine
