import RouteMigration.Text.Basic

set_option autoImplicit false

namespace RouteMigration

namespace CommandLine

def versionText : Text :=
  "bff-migrate 0.1.0\n".toList

def usageLines : List Text :=
  ["Rewrites route handlers that forward cookies by hand to use buildBFFHeaders()".toList,
    [],
    "Usage: bff-migrate [OPTIONS]".toList,
    [],
    "Options:".toList,
    "      --root <ROOT>                    Directory searched recursively for route files [default: frontend/app/api]".toList,
    "      --file-name <FILE_NAME>          File name that identifies a route handler [default: route.ts]".toList,
    "      --dry-run                        Run every step but do not modify any file".toList,
    "      --exclude <GLOB>                 Glob pattern of paths to leave out of discovery (repeatable)".toList,
    "      --max-file-size <MAX_FILE_SIZE>  Maximum size of a route file in bytes".toList,
    "      --follow-links                   Follow symbolic links while walking the root".toList,
    "      --format <FORMAT>                Report format written to stdout [default: human] [possible values: human, json]".toList,
    "  -v, --verbose...                     Diagnostics on stderr (-v debug, -vv trace); `RUST_LOG` takes precedence".toList,
    "  -h, --help                           Print help".toList,
    "  -V, --version                        Print version".toList]

def usageText : Text :=
  usageLines.flatMap fun line => line ++ ['\n']

end CommandLine

end RouteMigration
