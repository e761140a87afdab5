import RouteMigration.Proofs.Disk.Outline
import RouteMigration.Proofs.Migration.Skeleton

set_option autoImplicit false

namespace RouteMigration

namespace Disk

variable {first second : Disk}

theorem discover_congr (same : first.outline = second.outline) (config : Config)
    (patterns : List Glob.Pattern) :
    first.discover config patterns = second.discover config patterns :=
  (alike_of_outline same).discover config patterns

theorem rulePath_congr (same : first.outline = second.outline) (path : Path) :
    first.rulePath path = second.rulePath path :=
  (alike_of_outline same).rulePath path

theorem status_congr (same : first.outline = second.outline) (path : Path) :
    (first.status path).map (fun found => (found.1, found.2.outline)) =
      (second.status path).map fun found => (found.1, found.2.outline) := by
  rw [← status_outline, same, status_outline]

end Disk

theorem Config.validate_congr {first second : Disk} (same : first.outline = second.outline)
    (config : Config) : config.validate first = config.validate second :=
  (Disk.alike_of_outline same).validate config

end RouteMigration
