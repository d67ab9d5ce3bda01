import HeapDomains.Command.Basic

/-!
# Help pages
-/

namespace HeapDomains

/-- The lines of a help page. -/
def HelpTopic.lines : HelpTopic → List String
  | program =>
    ["Domain-isolation pass: classify unsafe allocations and plan flag instrumentation", "",
      "Usage: isolation-pass <COMMAND>", "", "Commands:",
      "  run            Run the pass and write the report as JSON",
      "  print-config   Print a preset configuration as YAML",
      "  bench-summary  Summarize \x60bench: N ns/iter\x60 lines of a benchmark log",
      "  help           Print this message or the help of the given subcommand(s)", "", "Options:",
      "  -h, --help  Print help"]
  | run =>
    ["Run the pass and write the report as JSON", "",
      "Usage: isolation-pass run [OPTIONS] --input <INPUT>", "", "Options:",
      "  -i, --input <INPUT>    Program and analysis facts (JSON)",
      "  -c, --config <CONFIG>  YAML configuration; takes precedence over --preset",
      "  -p, --preset <PRESET>  Configuration preset [default: standard]",
      "  -o, --output <OUTPUT>  Report file; stdout when omitted",
      "  -h, --help             Print help"]
  | printConfig =>
    ["Print a preset configuration as YAML", "", "Usage: isolation-pass print-config [OPTIONS]",
      "", "Options:", "  -p, --preset <PRESET>  [default: standard]",
      "  -h, --help             Print help"]
  | benchSummary =>
    ["Summarize \x60bench: N ns/iter\x60 lines of a benchmark log", "",
      "Usage: isolation-pass bench-summary <FILE>", "", "Arguments:", "  <FILE>  Benchmark log", "",
      "Options:", "  -h, --help  Print help"]
  | help =>
    ["Print this message or the help of the given subcommand(s)", "",
      "Usage: isolation-pass help [COMMAND]...", "", "Arguments:",
      "  [COMMAND]...  Print help for the subcommand(s)"]

/-- A help page. -/
def HelpTopic.page (topic : HelpTopic) : String := "\n".intercalate topic.lines ++ "\n"

end HeapDomains
