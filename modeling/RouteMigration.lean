import RouteMigration.Disk.Edit
import RouteMigration.Migration.Run
import RouteMigration.Migration.ReportJson
import RouteMigration.Migration.ReportText
import RouteMigration.CommandLine.Options
import RouteMigration.CommandLine.Answer
import RouteMigration.Main
import RouteMigration.Proofs.Migration.PublicRoutes
import RouteMigration.Proofs.Migration.SecondRun
import RouteMigration.Proofs.Migration.RootBoundary
import RouteMigration.Proofs.Migration.DryRun
import RouteMigration.Proofs.Route.RemainingUses
import RouteMigration.Proofs.Route.HelperBinding
import RouteMigration.Proofs.Route.Crossing
import RouteMigration.Proofs.Route.ImportAnchor
import RouteMigration.Proofs.Route.MigratedForm
import RouteMigration.Proofs.CommandLine.ExitStatus
import RouteMigration.Proofs.Path.Joined
import RouteMigration.Proofs.Path.Ordering
import RouteMigration.Proofs.Disk.Tree
import RouteMigration.Proofs.Disk.LastLink
import RouteMigration.Proofs.Migration.Coverage
import RouteMigration.Proofs.Disk.OpenWay
import RouteMigration.Proofs.Migration.PlainTree
import RouteMigration.Proofs.Migration.Accounting
import RouteMigration.Proofs.Migration.Independence
import RouteMigration.Proofs.CommandLine.JsonReport
import RouteMigration.Proofs.Disk.IdleSteps
import RouteMigration.Proofs.Path.Names
import RouteMigration.Proofs.Disk.Spelling
import RouteMigration.Proofs.Migration.RespelledWalk
import RouteMigration.Proofs.Migration.RootSpelling
import RouteMigration.Proofs.Migration.UnfollowedLinks
import RouteMigration.Proofs.Shape.Division
import RouteMigration.Proofs.Route.HelperCalls
import RouteMigration.Proofs.Route.LastingChanges
import RouteMigration.Proofs.Route.MarkerLine
import RouteMigration.Proofs.Route.CookieFields
import RouteMigration.Proofs.Route.LastingImport
import RouteMigration.Proofs.Route.LineEnds
import RouteMigration.Proofs.Text.Lossy
import RouteMigration.Proofs.Text.Joining
import RouteMigration.Proofs.Route.PathRules
import RouteMigration.Proofs.Migration.RuledPaths
import RouteMigration.Proofs.Route.ExtractionLines
import RouteMigration.Proofs.Route.HeaderOrder
import RouteMigration.Proofs.Route.ImportPlace
import RouteMigration.Proofs.Migration.Exclusion
import RouteMigration.Proofs.Path.Display
import RouteMigration.Proofs.Migration.DisplayPaths
