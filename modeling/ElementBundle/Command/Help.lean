import ElementBundle.Command.Line

/-!
# Help texts

What the program says about itself and its commands.
-/

namespace ElementBundle.Command

def versionText : String := "v0.1.0"

def programHelp : List String :=
  ["usage: composcript [-h] [-v] [--project PROJECT] [--verbose] Command ...",
    "",
    "Composcript - compile markup-embedded components into custom elements",
    "",
    "positional arguments:",
    "  Command",
    "    init             Create composcript.yaml",
    "    create           Scaffold a new component",
    "    build            Compile all components",
    "    watch            Rebuild whenever a component changes",
    "",
    "options:",
    "  -h, --help         show this help message and exit",
    "  -v, --version      show program's version number and exit",
    "  --project PROJECT  Project root (default: current directory)",
    "  --verbose          Show debug logging"]

def Name.help : Name → List String
  | .init =>
    ["usage: composcript init [-h] [--components COMPONENTS] [-y]",
      "",
      "options:",
      "  -h, --help            show this help message and exit",
      "  --components COMPONENTS",
      "                        Components directory (skips the prompt)",
      "  -y, --yes             Accept defaults"]
  | .create =>
    ["usage: composcript create [-h] [tag]",
      "",
      "positional arguments:",
      "  tag         Component tag name, e.g. my-component",
      "",
      "options:",
      "  -h, --help  show this help message and exit"]
  | .build =>
    ["usage: composcript build [-h] [--quiet] [--dry-run] [--diff]",
      "",
      "options:",
      "  -h, --help  show this help message and exit",
      "  --quiet     Suppress progress output",
      "  --dry-run   Compile without writing the bundle",
      "  --diff      Show changes against the current bundle"]
  | .watch =>
    ["usage: composcript watch [-h]",
      "",
      "options:",
      "  -h, --help  show this help message and exit"]

def unlines (lines : List String) : List Char :=
  lines.flatMap fun line => line.toList ++ ['\n']

def helpText : Option Name → List Char
  | none => unlines programHelp
  | some name => unlines name.help

end ElementBundle.Command
