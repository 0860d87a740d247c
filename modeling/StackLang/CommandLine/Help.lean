/-!
# Help
-/

namespace StackLang.CommandLine

def versionText : String :=
  "stackcc, version 1.0.0\n"

def helpText : String :=
  String.intercalate "\n" [
    "Usage: stackcc [OPTIONS] [SOURCE]",
    "",
    "  Compile a small C-like program to x86-64 assembly.",
    "",
    "  SOURCE is the program text; use -f to read it from a file instead.",
    "",
    "  The output is GNU as Intel-syntax assembly defining a routine whose return",
    "  value is the program's result. Link it with a C compiler:",
    "",
    "  Examples:",
    "      stackcc \"return 1 + 2;\"              # Assembly to stdout",
    "      stackcc -f prog.c -o prog.s          # Assembly to a file",
    "      stackcc --run \"x = 5; return x * 2;\" # Exit status 10",
    "      cc -o prog prog.s && ./prog          # Native build by hand",
    "",
    "  Language:",
    "      - 64-bit integers, + - * / and unary -",
    "      - == != < <= > >= (yield 0 or 1), = (chains right to left)",
    "      - if/else, while, for, \x7b ... \x7d, return",
    "      - variables are declared by their first use",
    "",
    "Options:",
    "  -f, --file FILE    Read the program from a file instead of the SOURCE argument",
    "  -o, --output FILE  Output assembly file (default: stdout)",
    "  --tokens           Print tokens and exit",
    "  --ast              Print AST and exit",
    "  --run              Run the program in the emulator and exit with its status",
    "  --native           Build with the system C compiler, run, and exit with its",
    "                     status",
    "  --entry TEXT       Name of the generated routine  [default: main]",
    "  --comments         Annotate the assembly with comments",
    "  -v, --verbose      Verbose output",
    "  --version          Show the version and exit.",
    "  --help             Show this message and exit.",
    ""]

end StackLang.CommandLine
