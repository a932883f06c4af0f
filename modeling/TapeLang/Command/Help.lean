/-!
# Help and usage texts
-/

namespace TapeLang.Command

/-- How the command is called. -/
def usage : String :=
  "usage: bfir [-h] [--level LEVEL] [--max-cells MAX_CELLS]\n" ++
  "            [--eof \x7bzero,unchanged,error\x7d] [--unicode] [--emit] [--dump-tape]\n" ++
  "            [-v]\n" ++
  "            FILE [FILE ...]\n"

/-- What the command does, and all its options. -/
def help : String :=
  usage ++ "\n" ++
  "Optimizing brainfuck interpreter with 32-bit cells and a growable tape.\n" ++
  "\n" ++
  "positional arguments:\n" ++
  "  FILE                  source file(s) to run, in order\n" ++
  "\n" ++
  "options:\n" ++
  "  -h, --help            show this help message and exit\n" ++
  "  --level LEVEL         optimization level 0..1 (default 1)\n" ++
  "  --max-cells MAX_CELLS\n" ++
  "                        tape size limit (default 16777216)\n" ++
  "  --eof \x7bzero,unchanged,error\x7d\n" ++
  "                        what ',' does at end of input (default: zero)\n" ++
  "  --unicode             print cells as UTF-8 encoded code points instead of\n" ++
  "                        bytes\n" ++
  "  --emit                print the optimized program instead of running it\n" ++
  "  --dump-tape           print the used tape cells to stderr after each run\n" ++
  "  -v, --verbose         debug logging to stderr\n"

/-- The complaint about a command line. -/
def usageError (message : String) : String := usage ++ "bfir: error: " ++ message ++ "\n"

end TapeLang.Command
