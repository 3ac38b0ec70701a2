import EnumWire.Printer.Basic

/-! # Help texts

How the program and its commands are called. -/
namespace EnumWire.Command

/-- What a help text is about. -/
inductive Topic where
  | program
  | codegen
  | analyze
  | help
  deriving DecidableEq

def Topic.text : Topic → Text
  | .program => Text.lines [
      "Enum field code generator for compact protobuf messages",
      "",
      "Usage: nano-gen <COMMAND>",
      "",
      "Commands:",
      "  codegen  ",
      "  analyze  ",
      "  help     Print this message or the help of the given subcommand(s)",
      "",
      "Options:",
      "  -h, --help  Print help"]
  | .codegen => Text.lines [
      "Usage: nano-gen codegen [OPTIONS] --files <FILE>",
      "",
      "Options:",
      "  -f, --files <FILE>    ",
      "  -o, --output <DIR>    [default: generated]",
      "      --param <PARAMS>  [default: \"\"]",
      "  -v, --verbose         ",
      "  -h, --help            Print help"]
  | .analyze => Text.lines [
      "Usage: nano-gen analyze [OPTIONS] --files <FILE>",
      "",
      "Options:",
      "  -f, --files <FILE>     ",
      "      --format <FORMAT>  [default: text] [possible values: text, json, yaml]",
      "      --param <PARAMS>   [default: \"\"]",
      "  -h, --help             Print help"]
  | .help => Text.lines [
      "Print this message or the help of the given subcommand(s)",
      "",
      "Usage: nano-gen help [COMMAND]...",
      "",
      "Arguments:",
      "  [COMMAND]...  Print help for the subcommand(s)"]

end EnumWire.Command
