/-
  The command line: prints the report of the demonstration.
-/
import Console6502.Demo

/-- Runs the demonstration and prints what it reports. -/
def main : IO UInt32 := do
  let report := Console6502.Demo.report
  for line in report.errors do IO.eprintln line
  for line in report.output do IO.println line
  return report.status
