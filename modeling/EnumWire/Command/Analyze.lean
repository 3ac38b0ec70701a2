import EnumWire.Command.Load
import EnumWire.Command.Plan
import EnumWire.Data
import EnumWire.Report.Plain
import EnumWire.Report.Structured

/-! # Analyzing schemas

Prints the report of every package in one of three formats, or nothing unless everything loads. -/
namespace EnumWire.Command

open EnumWire.Files

namespace Analyze

inductive Format where
  | text
  | json
  | yaml
  deriving DecidableEq

structure Options where
  files : List Path
  format : Format := .text
  params : Params := {}
  deriving DecidableEq

def heading : Text :=
  Text.lines ["Nano Generator - Schema Analysis", "================================", ""]

def render (format : Format) (reports : List Report.PackageReport) : Text :=
  match format with
  | .text => heading ++ reports.flatMap Report.PackageReport.plain
  | .json => Text.lines [Data.Json.render 0 (.list (reports.map Report.PackageReport.data))]
  | .yaml => Data.Yaml.render (.list (reports.map Report.PackageReport.data))

def plan (parse : Text → Except Yaml.Flaw SchemaFile) (options : Options)
    (contents : List Load.Content) : Plan :=
  match Load.pools parse contents with
  | .error failure => .fail failure
  | .ok pools => .print (render options.format (pools.map (Report.ofPool options.params)))

end Analyze
end EnumWire.Command
