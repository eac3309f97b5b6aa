import CodeHealth.Command.Arguments

/-!
# Help

The pages of the help, eighty columns wide.
-/

namespace CodeHealth.Command

def helpLine : String :=
  "  -h, --help            show this help message and exit"

def formatHelp : List String :=
  ["  --format \x7btable,json\x7d",
   "                        Output format."]

/-- The options that both commands know. -/
def reviewHelp : List String :=
  ["  --severity \x7binfo,warning\x7d",
   "                        Severity reported for findings.",
   "  --max-lines MAX_LINES",
   "                        Report units longer than this many lines.",
   "  --max-complexity MAX_COMPLEXITY",
   "                        Report units above this cyclomatic complexity.",
   "  --max-methods MAX_METHODS",
   "                        Report classes with more methods than this.",
   "  --min-readability MIN_READABILITY",
   "                        Report readability scores below this value.",
   "  --min-unique-ratio MIN_UNIQUE_RATIO",
   "                        Report units whose distinct-line ratio is below this",
   "                        value.",
   "  --min-similarity MIN_SIMILARITY",
   "                        Report function pairs whose similarity exceeds this",
   "                        value."]

def Page.lines : Page → List String
  | .program =>
    ["usage: cca [-h] \x7banalyze,unit\x7d ...",
     "",
     "positional arguments:",
     "  \x7banalyze,unit\x7d",
     "",
     "options:",
     "  -h, --help      show this help message and exit"]
  | .analyze =>
    ["usage: cca analyze [-h] --path PATH [--format \x7btable,json\x7d] [--output OUTPUT]",
     "                   [--strict] [--severity \x7binfo,warning\x7d]",
     "                   [--max-lines MAX_LINES] [--max-complexity MAX_COMPLEXITY]",
     "                   [--max-methods MAX_METHODS]",
     "                   [--min-readability MIN_READABILITY]",
     "                   [--min-unique-ratio MIN_UNIQUE_RATIO]",
     "                   [--min-similarity MIN_SIMILARITY]",
     "",
     "options:",
     helpLine,
     "  --path PATH           Source file or directory to analyze."] ++ formatHelp ++
    ["  --output OUTPUT       Optional output file path for raw JSON when --format",
     "                        json is used.",
     "  --strict              Exit with status 1 when any finding is reported."] ++ reviewHelp
  | .unit =>
    ["usage: cca unit [-h] --path PATH --line LINE [--end-line END_LINE]",
     "                [--format \x7btable,json\x7d] [--severity \x7binfo,warning\x7d]",
     "                [--max-lines MAX_LINES] [--max-complexity MAX_COMPLEXITY]",
     "                [--max-methods MAX_METHODS]",
     "                [--min-readability MIN_READABILITY]",
     "                [--min-unique-ratio MIN_UNIQUE_RATIO]",
     "                [--min-similarity MIN_SIMILARITY]",
     "",
     "options:",
     helpLine,
     "  --path PATH           Source file to analyze.",
     "  --line LINE           1-based line inside the class or function to analyze.",
     "  --end-line END_LINE   1-based last line of the unit range to analyze."] ++ formatHelp ++
    reviewHelp

def Page.text (page : Page) : Text :=
  page.lines.flatMap fun line => line.toList ++ ['\n']

end CodeHealth.Command
