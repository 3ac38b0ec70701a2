import EnumWire.Descriptor.Pool
import EnumWire.Generated.Constants
import EnumWire.Generated.Message

/-! # The generated module of a package

A header, the constants of the enumerations, and the messages where they are asked for and there
are any. -/
namespace EnumWire.Module

def emitsMessages (params : Params) (pool : Pool) : Bool :=
  params.emitMessages && !pool.messages.isEmpty

def placeholders (params : Params) (pool : Pool) : Variables :=
  [("package", pool.package), ("runtime", params.runtimeCrate)]

def header (params : Params) (pool : Pool) : Script :=
  [.print (placeholders params pool) (Text.lines [
    "// Generated by nano-gen from package `$package$`. Do not edit.",
    "#![allow(dead_code, non_upper_case_globals, unused_mut, clippy::identity_op)]",
    ""])]

def runtimeUse (params : Params) (pool : Pool) : Script :=
  [.print (placeholders params pool) (Text.lines ["use $runtime$ as nano;", ""])]

def script (params : Params) (pool : Pool) : Script :=
  header params pool ++
  (if emitsMessages params pool then runtimeUse params pool else []) ++
  pool.enums.flatMap (Constants.script params) ++
  (if emitsMessages params pool then pool.messages.flatMap (Message.script params) else [])

def text (params : Params) (pool : Pool) : Except TemplateError Text :=
  (script params pool).text

end EnumWire.Module
